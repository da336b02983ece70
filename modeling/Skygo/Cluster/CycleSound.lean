import Skygo.Cluster.CallCycle
import Skygo.Cluster.Lifecycle

/-! When `ErrCallCycle` means a cycle.

The path of a handler is that of the envelope it was started with. A notification has one too
when it was sent with a handler's context, and no path gets shorter when a caller gives up. Where
paths travel with calls only and callers wait for their answers, every frame of a path is that
of a handler still waiting.
-/

set_option autoImplicit false

namespace Skygo.Cluster

open Semantics Actor

variable {Msg : Type} {w : World Msg} {a : WorldAction Msg} {o : Nat} {op op' child : Op} {act : ActivationRef}

theorem Host.Moves.alive {h : Nat} {host host' : Host Msg} (moves : host.Moves w a h host') :
    a = .crash h ∨ host'.alive = host.alive := by
  cases moves with
  | flags _ _ why => exact why
  | reserve name opts host' ref reserved =>
    unfold Host.reserve at reserved
    split_ifs at reserved
    cases reserved
    exact .inr rfl
  | adjust | start | stop | system => exact .inr rfl

namespace World

def Down (w : World Msg) (h : Nat) : Prop := At w.hosts h (·.alive = false)

instance (w : World Msg) (h : Nat) : Decidable (w.Down h) := inferInstanceAs (Decidable (At _ _ _))

/-- Nothing but the call of a handler begins with a path, nobody stops waiting for work that goes on,
no process goes down while a handler of it waits for another one, and no service is started after it
was stopped. -/
def Attends (w : World Msg) (a : WorldAction Msg) : Prop :=
  w.StartsFresh a ∧
  match a with
  | .begin _ _ verb _ _ caller ctx _ => verb ≠ .call ∨ caller = none → ctx.callPath = []
  | .internal h (.cancel c _) => w.Up h fun host => c + 1 ∉ host.system.pending
  | .abandon o _ => At w.ops o fun op => op.verb = .call → op.onWire = false ∧
      ∀ c ∈ op.child, At w.ops c fun child => child.isReturned = true ∨ w.Down child.ref.system
  | .crash h => ∀ op ∈ w.ops, op.verb = .call → op.isReturned = false → (∃ act ∈ op.caller, act.system = h) →
      op.onWire = false ∧ (op.ref.system = h ∨ w.Down op.ref.system)
  | _ => True

instance (w : World Msg) (a : WorldAction Msg) : Decidable (w.Attends a) := by
  unfold Attends
  refine @instDecidableAnd _ _ _ ?_
  rcases a with _ | _ | _ | _ | _ | _ | _ | _ | _ | _ | _ | _ | ⟨_, _ | _⟩ | _ <;> dsimp only <;> infer_instance

structure Attentive (w : World Msg) : Prop where
  settled : ∀ (o : Nat) (op : Op), w.ops[o]? = some op → op.verb = .call → op.isReturned = true →
    ∀ k id, op.envelope = some (k, id) → ∃ r, w.request ⟨op.ref.system, k, id⟩ = some r ∧ r.Settled
  remote : ∀ (o : Nat) (op : Op), w.ops[o]? = some op → op.verb = .call → op.isReturned = false →
    ¬w.Down op.ref.system → ∀ p ∈ op.parent, At w.ops p fun up => up.pc = .remote ∧ up.child = some o
  wired : ∀ (o : Nat) (op : Op), w.ops[o]? = some op → op.verb = .call → op.onWire = true → op.pc = .remote
  bare : ∀ (o : Nat) (op : Op), w.ops[o]? = some op → op.verb ≠ .call ∨ op.caller = none → op.ctx.callPath = []
  patient : ∀ (h : Nat) (host : Host Msg), w.hosts[h]? = some host → host.system.Patient
  up : ∀ (o : Nat) (op : Op), w.ops[o]? = some op → op.verb = .call → op.isReturned = false →
    op.onWire = true ∨ ¬w.Down op.ref.system → ∀ act ∈ op.caller, ¬w.Down act.system
  orderly : w.Orderly

theorem Down.next {h : Nat} (down : w.Down h) (enabled : Enabled w a) : (w.next a).Down h := by
  obtain ⟨host, found, dead⟩ := at_iff.mp down
  refine at_iff.mpr ⟨host, ?_, dead⟩
  rcases hosts_next enabled with ⟨node, incarnation, drainable, rfl⟩ | same | ⟨i, moving, _, found', alive, _, changed⟩
  · exact lookup_append_old found
  · rw [same]
    exact found
  · have other : i ≠ h := by
      rintro rfl
      rw [found] at found'
      cases found'
      rw [alive] at dead
      cases dead
    rw [changed, List.getElem?_modify_ne _ _ other]
    exact found

theorem down_cases {h : Nat} (enabled : Enabled w a) (down : (w.next a).Down h) : w.Down h ∨ a = .crash h := by
  obtain ⟨host', known, dead⟩ := at_iff.mp down
  rcases hosts_next enabled with ⟨node, incarnation, drainable, rfl⟩ | same | ⟨i, host, _, found, alive, moves, changed⟩
  · rcases lookup_append known with old | ⟨_, rfl⟩
    · exact .inl (at_iff.mpr ⟨host', old, dead⟩)
    · cases dead
  · exact .inl (at_iff.mpr ⟨host', same ▸ known, dead⟩)
  · rw [changed] at known
    rcases lookup_modify known with ⟨rfl, _, _, rfl⟩ | ⟨_, old⟩
    · rcases moves.alive with crash | same
      · exact .inr crash
      · rw [same, alive] at dead
        cases dead
    · exact .inl (at_iff.mpr ⟨host', old, dead⟩)

theorem Up.not_down {h : Nat} {p : Host Msg → Prop} (up : w.Up h p) : ¬w.Down h := by
  intro down
  obtain ⟨host, found, alive, _⟩ := up_iff.mp up
  rw [down.here found] at alive
  cases alive

theorem settled_next (ordered : w.Ordered) (enabled : Enabled w a) {r : Request Msg} (found : w.request act = some r)
    (settled : r.Settled) : ∃ r', (w.next a).request act = some r' ∧ r'.Settled := by
  obtain ⟨host, known, there⟩ := request_eq_some.mp found
  obtain ⟨host', known', r', there', settled'⟩ := system_next
    (P := fun s => ∃ r, s.request act.service act.request = some r ∧ r.Settled) ordered enabled
    (fun _ _ healthy allowed _ _ ⟨_, there, settled⟩ => System.settled_next healthy allowed there settled)
    known ⟨r, there, settled⟩
  exact ⟨r', request_eq_some.mpr ⟨host', known', there'⟩, settled'⟩

variable {host : Host Msg}

theorem Attentive.finishes (attentive : w.Attentive) (ordered : w.Ordered) (coherent : w.Coherent)
    (tidy : op.Tidy) (here : w.ops[o]? = some op) (call : op.verb = .call) {fault : Option Fault}
    (found : w.hosts[op.ref.system]? = some host) (finishes : Finishes host op fault) {k id : Nat}
    (posted : op.envelope = some (k, id)) : ∃ r, w.request ⟨op.ref.system, k, id⟩ = some r ∧ r.Settled := by
  have stands := (coherent.fits o op here).stands
  unfold Finishes at finishes
  split at finishes
  · next at_ => simp [tidy.unentered at_ rfl] at posted
  · next j c at_ =>
    obtain ⟨call, called, answers⟩ := at_iff.mp finishes
    obtain ⟨svc, there, answers⟩ := at_iff.mp answers
    simp only [Op.Stands, at_] at stands
    obtain ⟨_, _, _, found', there', _, _, called', _, named, envelope⟩ := stands
    rw [found] at found'
    cases found'
    rw [called] at called'
    cases called'
    rw [posted] at envelope
    cases envelope
    have returned : ∃ outcome, call.pc = .returned outcome := by
      unfold answer at answers
      split at answers <;> first | exact ⟨_, ‹_›⟩ | cases answers
    obtain ⟨outcome, returned⟩ := returned
    obtain ⟨r, sent, settled⟩ := (attentive.patient _ host found).settled
      (ordered.registered _ host found).coordinated called named returned
    exact ⟨r, request_eq_some.mpr ⟨host, found, sent⟩, settled⟩
  · next at_ =>
    simp only [Op.Stands, at_] at stands
    exact absurd call stands.1
  · cases finishes

section Step

variable (ordered : w.Ordered) (tidy : w.Tidy) (coherent : w.Coherent) (attentive : w.Attentive)
  (enabled : Enabled w a) (attends : w.Attends a)
include ordered tidy coherent attentive enabled in
theorem Attentive.settled_step : ∀ (o : Nat) (op : Op), (w.next a).ops[o]? = some op → op.verb = .call →
    op.isReturned = true → ∀ k id, op.envelope = some (k, id) →
    ∃ r, (w.next a).request ⟨op.ref.system, k, id⟩ = some r ∧ r.Settled := by
  have old : ∀ (o : Nat) (op : Op), w.ops[o]? = some op → op.verb = .call → op.isReturned = true →
      ∀ k id, op.envelope = some (k, id) → ∃ r, (w.next a).request ⟨op.ref.system, k, id⟩ = some r ∧ r.Settled := by
    intro o op here call returned k id posted
    obtain ⟨r, found, settled⟩ := attentive.settled o op here call returned k id posted
    exact settled_next ordered enabled found settled
  refine forall_next enabled old (fun _ _ _ _ _ _ _ _ _ _ _ _ returned => by cases returned) ?_ ?_
  · intro o op op' here moves call returned k id posted
    have unposted : ∀ {pc : OpPc}, op.pc = pc → pc.entered = false → op.envelope = some (k, id) → False := by
      intro pc at_ before posted
      rw [(tidy o op here).unentered at_ before] at posted
      cases posted
    cases moves with
    | find | allocate | admitCall | submit => cases returned
    | pass host j =>
      unfold Op.pass at returned
      split at returned <;> cases returned
    | refuse _ fault early =>
      have before : op.pc.entered = false := by
        cases at_ : op.pc <;> simp_all [OpPc.early, OpPc.entered]
      exact (unposted rfl before posted).elim
    | finish host fault found finishes =>
      obtain ⟨r, known, settled⟩ := attentive.finishes ordered coherent (tidy o op here) here call found finishes posted
      exact settled_next ordered enabled known settled
    | transmit peer at_ => exact (unposted at_ rfl posted).elim
    | reply o' child fault at_ => exact (unposted at_ rfl posted).elim
    | abandon fault at_ => exact (unposted at_ rfl posted).elim
  · intro o op op' child here delegates _
    cases delegates with
    | ownSystem => exact ⟨fun _ returned => (by cases returned), fun _ _ _ _ posted => (by cases posted)⟩
    | deliver => exact ⟨old o op here, fun _ _ _ _ posted => (by cases posted)⟩
include tidy enabled attends in
/-- An operation that another process works on stays where it is until that work has returned. -/
theorem away_next {p : Nat} {up : Op} (here : w.ops[o]? = some op) (going : op.isReturned = false)
    (alive : ¬w.Down op.ref.system) (there : w.ops[p]? = some up) (call : up.verb = .call) (at_ : up.pc = .remote)
    (works : up.child = some o) : (w.next a).ops[p]? = some up := by
  rcases ops_next enabled with same | ⟨_, _, _, _, _, _, _, _, _, _, _, appended⟩ | ⟨i, _, _, there', moves, changed⟩ |
    ⟨i, _, _, child, there', delegates, changed⟩
  · rw [same]
    exact there
  · rw [appended]
    exact lookup_append_old there
  · by_cases same : i = p
    · exfalso
      subst same
      rw [there] at there'
      cases there'
      cases moves with
      | find _ _ at_' | pass _ _ _ at_' | allocate _ _ _ _ _ at_' | admitCall _ _ _ _ _ _ _ at_' | submit _ _ _ _ _ _ at_'
      | transmit _ at_' =>
        rw [at_] at at_'
        cases at_'
      | refuse _ _ early =>
        rw [at_] at early
        cases early
      | finish _ _ _ finishes =>
        simp only [Finishes, at_] at finishes
      | reply o' child fault _ works' there' returned =>
        rw [works] at works'
        cases works'
        rw [here] at there'
        cases there'
        rw [Op.isReturned, returned] at going
        cases going
      | abandon =>
        rcases (((attends.2.here there) call).2 o works).here here with returned | down
        · rw [returned] at going
          cases going
        · exact alive down
    · rw [changed, List.getElem?_modify_ne _ _ same]
      exact there
  · have other : i ≠ p := by
      rintro rfl
      rw [there] at there'
      cases there'
      cases delegates with
      | ownSystem _ _ at_' =>
        rw [at_] at at_'
        cases at_'
      | deliver _ _ _ wired =>
        rw [(tidy i up there).once wired] at works
        cases works
    rw [changed]
    refine lookup_append_old ?_
    rw [List.getElem?_modify_ne _ _ other]
    exact there
include tidy coherent attentive enabled attends in
theorem Attentive.remote_step : ∀ (o : Nat) (op : Op), (w.next a).ops[o]? = some op → op.verb = .call →
    op.isReturned = false → ¬(w.next a).Down op.ref.system → ∀ p ∈ op.parent,
    At (w.next a).ops p fun up => up.pc = .remote ∧ up.child = some o := by
  have step : ∀ (o : Nat) (op op' : Op), w.ops[o]? = some op → op.Later op' → op'.verb = .call →
      op'.isReturned = false → ¬(w.next a).Down op'.ref.system → ∀ p ∈ op'.parent,
      At (w.next a).ops p fun up => up.pc = .remote ∧ up.child = some o := by
    intro o op op' here same call going alive p parent
    rw [same.verb] at call
    rw [same.ref] at alive
    rw [same.parent] at parent
    have going' := same.going going
    have alive' : ¬w.Down op.ref.system := fun down => alive (down.next enabled)
    obtain ⟨up, there, at_, works⟩ := at_iff.mp (attentive.remote o op here call going' alive' p parent)
    obtain ⟨_, there', worksFor⟩ := coherent.parent o op here p parent
    rw [there] at there'
    cases there'
    exact at_iff.mpr ⟨up, away_next tidy enabled attends here going' alive' there (worksFor.verb.mp call) at_ works,
      at_, works⟩
  refine forall_next enabled (fun o op here => step o op op here (.refl op))
    (fun _ _ _ _ _ _ _ _ _ _ _ _ _ _ _ parent => by cases parent)
    (fun o op op' here moves => step o op op' here ((tidy o op here).later moves)) ?_
  intro o op op' child here delegates there
  refine ⟨step o op op' here delegates.later, fun call _ _ p parent => ?_⟩
  obtain ⟨works, parent'⟩ := delegates.worksFor (coherent.outer here delegates.remote)
  obtain rfl : o = p := Option.some.inj (parent'.symm.trans parent)
  refine at_iff.mpr ⟨op', there, ?_⟩
  cases delegates with
  | ownSystem => exact ⟨rfl, rfl⟩
  | deliver _ _ _ wired => exact ⟨attentive.wired o op here (works.verb.mp call) wired, rfl⟩
include tidy attentive enabled attends in
theorem Attentive.wired_step : ∀ (o : Nat) (op : Op), (w.next a).ops[o]? = some op → op.verb = .call →
    op.onWire = true → op.pc = .remote := by
  refine forall_next enabled attentive.wired (fun _ _ _ _ _ _ _ _ _ _ _ _ wired => by cases wired) ?_ ?_
  · intro o op op' here moves call wired
    have dry : ∀ {pc : OpPc}, op.pc = pc → pc.away = false → op.onWire = true → False := by
      intro pc at_ inside wired
      rw [((tidy o op here).home at_ inside).1] at wired
      cases wired
    cases moves with
    | find _ _ at_ | allocate _ _ _ _ _ at_ | admitCall _ _ _ _ _ _ _ at_ | submit _ _ _ _ _ _ at_ =>
      exact (dry at_ rfl wired).elim
    | pass _ _ _ at_ =>
      refine (dry at_ rfl ?_).elim
      unfold Op.pass at wired
      split at wired <;> exact wired
    | refuse _ fault early =>
      have inside : op.pc.away = false := by
        cases at_ : op.pc <;> simp_all [OpPc.early, OpPc.away]
      exact (dry rfl inside wired).elim
    | finish _ _ _ finishes =>
      unfold Finishes at finishes
      split at finishes
      · next at_ => exact (dry at_ rfl wired).elim
      · next at_ => exact (dry at_ rfl wired).elim
      · next at_ => exact (dry at_ rfl wired).elim
      · cases finishes
    | transmit => exact if_pos call
    | reply _ _ _ _ works =>
      rw [(tidy o op here).once wired] at works
      cases works
    | abandon =>
      rw [((attends.2.here here) call).1] at wired
      cases wired
  · intro o op op' child here delegates _
    cases delegates <;> exact ⟨fun _ wired => (by cases wired), fun _ wired => (by cases wired)⟩
include tidy coherent attentive enabled attends in
theorem Attentive.bare_step : ∀ (o : Nat) (op : Op), (w.next a).ops[o]? = some op →
    op.verb ≠ .call ∨ op.caller = none → op.ctx.callPath = [] := by
  have step : ∀ (o : Nat) (op op' : Op), w.ops[o]? = some op → op.Later op' → op'.verb ≠ .call ∨ op'.caller = none →
      op'.ctx.callPath = [] := by
    intro o op op' here same free
    rw [same.verb, same.caller] at free
    rw [same.ctx]
    exact attentive.bare o op here free
  refine forall_next enabled (fun o op here => step o op op here (.refl op)) ?_
    (fun o op op' here moves => step o op op' here ((tidy o op here).later moves)) ?_
  · rintro i ref typed verb protocol fingerprint caller ctx noYield rfl _ free
    exact attends.2 free
  · intro o op op' child here delegates _
    refine ⟨step o op op' here delegates.later, fun free => ?_⟩
    obtain ⟨works, _⟩ := delegates.worksFor (coherent.outer here delegates.remote)
    rw [works.caller, Ne, works.verb] at free
    have empty := attentive.bare o op here free
    cases delegates <;> exact empty
include ordered attentive enabled attends in
theorem Attentive.patient_step (h : Nat) (host' : Host Msg) (known : (w.next a).hosts[h]? = some host') :
    host'.system.Patient := by
  rcases hosts_next enabled with ⟨node, incarnation, drainable, rfl⟩ | same | ⟨i, host, moved, found, _, moves, changed⟩
  · rcases lookup_append known with old | ⟨_, rfl⟩
    · exact attentive.patient h host' old
    · intro c call called
      simp [System.fresh] at called
  · rw [same] at known
    exact attentive.patient h host' known
  · rw [changed] at known
    rcases lookup_modify known with ⟨rfl, _, _, rfl⟩ | ⟨_, old⟩
    · refine (ordered.registered h host found).system_rule (P := System.Patient) moves ?_ (attentive.patient h host found)
      intro s act _ allowed causes first patient
      refine System.patient_next patient allowed ?_
      rintro c cause rfl
      obtain rfl := causes.internal rfl
      obtain ⟨_, found', _, unlisted⟩ := up_iff.mp attends.2
      rw [found] at found'
      cases found'
      rw [first ⟨rfl, rfl, rfl⟩]
      exact unlisted
    · exact attentive.patient h host' old
include attentive enabled attends in
theorem Attentive.stays_up (here : w.ops[o]? = some op) (call : op.verb = .call) (going : op.isReturned = false)
    (calls : act ∈ op.caller) (onward : op.onWire = true ∨ ¬(w.next a).Down op.ref.system) :
    ¬(w.next a).Down act.system := by
  intro down
  rcases down_cases enabled down with before | rfl
  · refine attentive.up o op here call going ?_ act calls before
    exact onward.imp_right fun alive down => alive (down.next enabled)
  · obtain ⟨dry, place⟩ := attends.2 op (List.mem_of_getElem? here) call going ⟨act, calls, rfl⟩
    rcases onward with wired | alive
    · rw [dry] at wired
      cases wired
    · rcases place with same | down'
      · exact alive (same ▸ down)
      · exact alive (down'.next enabled)
include tidy coherent attentive enabled attends in
theorem Attentive.up_step : ∀ (o : Nat) (op : Op), (w.next a).ops[o]? = some op → op.verb = .call →
    op.isReturned = false → op.onWire = true ∨ ¬(w.next a).Down op.ref.system →
    ∀ act ∈ op.caller, ¬(w.next a).Down act.system := by
  have step : ∀ (o : Nat) (op op' : Op), w.ops[o]? = some op → op.Later op' → (op'.onWire = true → op.onWire = true) →
      op'.verb = .call → op'.isReturned = false → op'.onWire = true ∨ ¬(w.next a).Down op'.ref.system →
      ∀ act ∈ op'.caller, ¬(w.next a).Down act.system := by
    intro o op op' here same wire call going onward act calls
    rw [same.verb] at call
    rw [same.ref] at onward
    rw [same.caller] at calls
    exact attentive.stays_up enabled attends here call (same.going going) calls (onward.imp_left wire)
  refine forall_next enabled (fun o op here => step o op op here (.refl op) id) ?_ ?_ ?_
  · rintro i ref typed verb protocol fingerprint caller ctx noYield rfl _ _ _ _ act calls down
    rcases down_cases enabled down with before | other
    · exact (enabled.2 act calls).2.2.not_down before
    · cases other
  · intro o op op' here moves
    have same := (tidy o op here).later moves
    cases moves with
    | transmit peer at_ =>
      obtain ⟨_, here', _, _, _, up⟩ := at_iff.mp enabled
      rw [here] at here'
      cases here'
      intro call going _ act calls
      refine attentive.stays_up enabled attends here call (Op.isReturned_at at_ nofun) calls (.inr fun down => ?_)
      rcases down_cases enabled down with before | other
      · exact up.not_down before
      · cases other
    | pass =>
      refine step o op _ here same fun wired => ?_
      unfold Op.pass at wired
      split at wired <;> exact wired
    | _ => exact step o op _ here same id
  · intro o op op' child here delegates _
    obtain ⟨works, _⟩ := delegates.worksFor (coherent.outer here delegates.remote)
    refine ⟨step o op op' here delegates.later ?_, fun call going onward act calls => ?_⟩
    · cases delegates <;> exact fun wired => (by cases wired)
    · have call' := works.verb.mp call
      rw [works.caller] at calls
      cases delegates with
      | ownSystem _ _ at_ =>
        exact attentive.stays_up enabled attends here call' (Op.isReturned_at at_ nofun) calls
          (onward.imp_left fun wired => (by cases wired))
      | deliver _ _ _ wired =>
        exact attentive.stays_up enabled attends here call'
          (Op.isReturned_at (attentive.wired o op here call' wired) nofun) calls (.inl wired)
include ordered tidy coherent attentive enabled attends in
theorem attentive_next : (w.next a).Attentive where
  settled := attentive.settled_step ordered tidy coherent enabled
  remote := attentive.remote_step tidy coherent enabled attends
  wired := attentive.wired_step tidy enabled attends
  bare := attentive.bare_step tidy coherent enabled attends
  patient := attentive.patient_step ordered enabled attends
  up := attentive.up_step tidy coherent enabled attends
  orderly := orderly_next ordered attentive.orderly attends.1 enabled

end Step

variable {actions : List (WorldAction Msg)}

theorem run_attentive (ran : (machine Msg).run {} actions = some w)
    (met : (machine Msg).Meets Attends {} actions) : w.Attentive := by
  have both : (machine Msg).Reachable {} w ∧ w.Attentive := by
    refine Machine.run_keeps_where
      (I := fun w : World Msg => (machine Msg).Reachable {} w ∧ w.Attentive) ?_ ran met ⟨.refl _, ?_⟩
    · rintro w a ⟨reached, attentive⟩ attends enabled
      exact ⟨reached.next enabled, attentive_next (reachable_ordered reached) (reachable_tidy reached)
        (reachable_coherent reached) attentive enabled attends⟩
    · constructor
      · intro o op here
        simp at here
      · intro o op here
        simp at here
      · intro o op here
        simp at here
      · intro o op here
        simp at here
      · intro h host known
        simp at known
      · intro o op here
        simp at here
      · intro h host known
        simp at known
  exact both.2

theorem Attentive.caller (attentive : w.Attentive) (coherent : w.Coherent) (here : w.ops[o]? = some op)
    (call : op.verb = .call) (calls : op.caller = some act) (going : op.isReturned = false)
    (alive : ¬w.Down op.ref.system) : w.Handling act := by
  cases parent : op.parent with
  | none => exact coherent.handling o op here parent going act calls
  | some p =>
    obtain ⟨up, there, works⟩ := coherent.parent o op here p parent
    obtain ⟨_, there', at_, _⟩ := at_iff.mp (attentive.remote o op here call going alive p parent)
    rw [there] at there'
    cases there'
    exact coherent.handling p up there works.outer (Op.isReturned_at at_ nofun) act (works.caller ▸ calls)

theorem Attentive.waiter (attentive : w.Attentive) (ordered : w.Ordered) (tidy : w.Tidy) (coherent : w.Coherent)
    {r : Request Msg} (found : w.request act = some r) (handling : r.pc.isHandling = true)
    (alive : ¬w.Down act.system) (called : r.ctx.callPath ≠ []) :
    ∃ waiting ctx, w.Waits waiting act ∧ w.Handling waiting ∧ ¬w.Down waiting.system ∧
      w.handlerContext waiting = some ctx ∧ r.ctx.callPath = ctx.callPath := by
  obtain ⟨o, op, here, system, posted⟩ := coherent.sent act r found
  obtain ⟨_, found', same⟩ := coherent.envelope here system posted
  rw [found] at found'
  cases found'
  have call : op.verb = .call := by
    by_contra sends
    exact called (same ▸ attentive.bare o op here (.inl sends))
  cases calls : op.caller with
  | none => exact absurd (same ▸ attentive.bare o op here (.inr calls)) called
  | some waiting =>
    obtain ⟨ctx, known, path, _⟩ := (coherent.fits o op here).path waiting calls
    have going : op.isReturned = false := by
      by_contra returned
      rw [Bool.not_eq_false] at returned
      obtain ⟨_, found', settled⟩ := attentive.settled o op here call returned _ _ posted
      rw [system, found] at found'
      cases found'
      obtain ⟨host, known, there⟩ := request_eq_some.mp found
      obtain ⟨m, box, there⟩ := System.request_eq_some.mp there
      exact ((((ordered.registered _ host known).healthy _ m box).1).handling there handling).1 settled
    have entered : op.pc.entered = true := by
      by_contra outside
      rw [Bool.not_eq_true] at outside
      rw [(tidy o op here).envelope outside] at posted
      cases posted
    rw [← system] at alive
    refine ⟨waiting, ctx, ?_, attentive.caller coherent here call calls going alive,
      attentive.up o op here call going (.inr alive) waiting calls, known, same ▸ path⟩
    have stands := (coherent.fits o op here).stands
    cases at_ : op.pc with
    | waiting j c =>
      refine ⟨o, op, j, c, here, call, calls, at_, system, posted, fun p parent => ?_⟩
      exact (attentive.remote o op here call going alive p parent).mono fun _ away => away.1
    | sending j id =>
      simp only [Op.Stands, at_] at stands
      exact absurd call stands.1
    | returned fault => simp [Op.isReturned, at_] at going
    | begin | found | checked | session | remote => simp [at_, OpPc.entered] at entered

/-- Every frame of a handler's path is its own or that of a handler that waits for it. -/
theorem Attentive.frames (attentive : w.Attentive) (ordered : w.Ordered) (tidy : w.Tidy) (coherent : w.Coherent)
    (inside : w.Handling act) (alive : ¬w.Down act.system) {ctx : Context}
    (known : w.handlerContext act = some ctx) {frame : CallFrame} (member : frame ∈ ctx.callPath) :
    ∃ waiting, Relation.ReflTransGen w.Waits waiting act ∧ w.Handling waiting ∧ ¬w.Down waiting.system ∧
      w.frame waiting = some frame := by
  -- along the chain of callers the path gets shorter
  induction length : ctx.callPath.length using Nat.strong_induction_on generalizing act ctx with
  | _ n ih =>
    obtain ⟨r, found, handling⟩ := inside
    obtain ⟨_, own, found', framed, path⟩ := handlerContext_path known
    rw [found] at found'
    cases found'
    rw [path, List.mem_append, List.mem_singleton] at member
    rcases member with before | rfl
    · obtain ⟨waiting, ctx', waits, inside', alive', known', same⟩ := attentive.waiter ordered tidy coherent found
        handling alive (List.ne_nil_of_mem before)
      have shorter : ctx'.callPath.length < n := by
        rw [← length, path, same]
        simp
      obtain ⟨first, chain, rest⟩ := ih _ shorter inside' alive' known' (same ▸ before) rfl
      exact ⟨first, chain.tail waits, rest⟩
    · exact ⟨act, .refl, ⟨r, found, handling⟩, alive, framed⟩

theorem Attentive.service (attentive : w.Attentive) (ordered : w.Ordered) {j h : Nat} {svc : Service}
    {frame : CallFrame} (found : w.hosts[h]? = some host) (alive : host.alive = true)
    (there : host.services[j]? = some svc) (running : svc.state = .running) (inside : w.Handling act)
    (up : ¬w.Down act.system) (framed : w.frame act = some frame) (node : frame.node = host.node) (name : frame.service = svc.name) :
    act.system = h ∧ svc.mailbox = some act.service := by
  obtain ⟨host', m, r, found', box, known, rfl⟩ := frame_eq_some.mp framed
  have alive' : host'.alive = true := by
    by_contra dead
    exact up (at_iff.mpr ⟨host', found', by simpa using dead⟩)
  have here : act.system = h := ordered.nodes _ _ host' host found' found alive' alive node
  subst here
  rw [found] at found'
  cases found'
  have registered := ordered.registered _ host found
  -- the mailbox belongs to a service of the same name, which is published since its loop goes on
  obtain ⟨i, owner, known', runs⟩ := registered.owned _ (lookup_lt box)
  obtain ⟨_, box', name', _⟩ := registered.mailbox i owner _ known' runs
  rw [box] at box'
  cases box'
  have open_ : m.done = false := by
    obtain ⟨r', found', handling⟩ := inside
    obtain ⟨_, found'', there'⟩ := request_eq_some.mp found'
    rw [found] at found''
    cases found''
    obtain ⟨_, box', there'⟩ := System.request_eq_some.mp there'
    rw [box] at box'
    cases box'
    exact (((registered.healthy _ m box).1).handling there' handling).2
  have orderly := attentive.orderly _ host found
  have published : owner.published = true := by
    by_contra gone
    rw [Bool.not_eq_true] at gone
    have exited := ((orderly i owner known').unpublished gone).2 _ runs
    rw [exited.here box] at open_
    cases open_
  obtain rfl := registered.named i j owner svc known' there published
    ((orderly j svc there).published ((orderly j svc there).running running)) (name'.symm.trans name)
  rw [there] at known'
  cases known'
  exact ⟨rfl, runs⟩

theorem check_cycle {svc : Service} {fault : Fault} (checked : host.check svc op = .error fault)
    (cycle : fault.is .callCycle = true) : svc.state = .running ∧ op.verb = .call ∧
      svc.opts.noInterleave = true ∧ callPathContains (some op.ctx) host.node svc.name = true := by
  cases state : svc.state with
  | reserved | stopping | stopped =>
    simp only [Host.check, Service.ready, state, bind, Except.bind, Except.error.injEq] at checked
    subst checked
    cases cycle
  | running =>
    have ready : svc.ready = .ok () := by simp [Service.ready, state]
    cases handled : svc.handler op.protocol with
    | error other =>
      simp only [Host.check, ready, handled, bind, Except.bind, Except.error.injEq] at checked
      subst checked
      unfold Service.handler at handled
      split at handled <;> cases handled
      cases cycle
    | ok entry =>
      rw [Host.check_eq ready handled] at checked
      split_ifs at checked with _ closes
      · cases checked
        cases cycle
      · exact ⟨rfl, closes.1, closes.2.2.1, closes.2.2.2⟩
      · cases checked
        cases cycle

def firstReturns : List (WorldAction Unit) :=
  [.mail 0 (.handlerReturned 0 0 (.message ())), .mail 0 (.finishTracked 0), .mail 0 (.report 0),
    .mail 0 (.doneEvent 0)].map (.internal 0)

def notified : List (WorldAction Unit) :=
  firstRuns ++
  [.begin 1 false .send "pong" none (some ⟨0, 0, 0⟩) ⟨some ⟨0, 0, 0⟩, [⟨"n", "a", "ping"⟩], none⟩ false, .lookup 1,
    .check 1 1, .submit 1 1 1 0] ++
  invoked 0 1 0 ++ [.finish 1 none] ++ firstReturns ++ callsBack "ping"

def timedOut : List (WorldAction Unit) :=
  firstRuns ++ callsSecond ++
  [.internal 0 (.admitted 0), .internal 0 (.expire 0 .timeout), .internal 0 (.cancel 0 .timeout),
    .internal 0 (.countTimeout 0), .finish 1 (some (.wrapped .callTimeout "service=b protocol=pong session=1"))] ++
  firstReturns ++ callsBack "ping"

/-- `ErrCallCycle` from a call of `a` although `a` has no activation. -/
def Spurious (w : World Unit) : Prop :=
  (At w.ops 2 fun op => op.caller = some ⟨0, 1, 0⟩ ∧ op.verb = .call ∧ op.pc = .found 0) ∧
  (At w.hosts 0 fun host => (At host.services 0 fun svc => svc.mailbox = some 0 ∧ svc.opts.noInterleave = true) ∧
    At host.system.mailboxes 0 fun m => m.current = none ∧ m.ready = [] ∧ m.suspended = [] ∧
      ∀ r ∈ m.requests, r.pc = .ended) ∧
  At (w.next (.check 2 0)).ops 2 fun op =>
    op.pc = .returned (some (.wrapped .callCycle "chain=n/a.ping -> n/b.pong -> n/a.ping"))

instance (w : World Unit) : Decidable (Spurious w) := inferInstanceAs (Decidable (_ ∧ _))

end World

end Skygo.Cluster
