import Skygo.Cluster.Registry

/-! The operations of the world and their steps.

One step begins an operation, moves one, or makes another process go on with one; the
rest stay. No operation changes what it was made for, takes back its envelope or moves
once it has returned.
-/

set_option autoImplicit false

namespace Skygo.Cluster

open Semantics Actor

variable {Msg : Type} {w w' : World Msg} {a : WorldAction Msg} {o : Nat} {op op' child : Op}

def OpPc.early : OpPc → Bool
  | .begin | .found _ | .checked _ => true
  | _ => false

inductive Op.Moves (w : World Msg) (o : Nat) (op : Op) : WorldAction Msg → Op → Prop where
  | find (host : Host Msg) (j : Nat) : op.pc = .begin → (op.typed = true → op.ref.isRemote = false) →
      w.hosts[op.ref.system]? = some host → host.lookup op.ref = .ok j →
      Moves w o op (.lookup o) { op with pc := .found j }
  | refuse (a : WorldAction Msg) (fault : Fault) : op.pc.early = true →
      Moves w o op a { op with pc := .returned (some fault) }
  | pass (host : Host Msg) (j : Nat) (svc : Service) : op.pc = .found j → w.hosts[op.ref.system]? = some host →
      host.services[j]? = some svc → host.check svc op = .ok () → Moves w o op (.check o j) (op.pass j)
  | allocate (host : Host Msg) (j k c : Nat) (svc : Service) : op.pc = .checked j → op.verb = .call →
      w.hosts[op.ref.system]? = some host → host.services[j]? = some svc → svc.mailbox = some k →
      c = host.system.calls.length → Moves w o op (.allocate o j k c) { op with pc := .session j c }
  | admitCall (host : Host Msg) (j k c id : Nat) (call : Call Msg) (m : ServiceRuntime Msg) : op.pc = .session j c →
      w.hosts[op.ref.system]? = some host → host.system.calls[c]? = some call → call.service = k →
      host.system.mailboxes[k]? = some m → id = m.requests.length →
      Moves w o op (.admitCall o j k c id) { op with pc := .waiting j c, envelope := some (k, id) }
  | submit (host : Host Msg) (j k id : Nat) (svc : Service) (m : ServiceRuntime Msg) : op.pc = .checked j →
      op.verb ≠ .call → w.hosts[op.ref.system]? = some host → host.services[j]? = some svc → svc.mailbox = some k →
      host.system.mailboxes[k]? = some m → id = m.requests.length →
      Moves w o op (.submit o j k id) { op with pc := .sending j id, envelope := some (k, id) }
  | finish (host : Host Msg) (fault : Option Fault) : w.hosts[op.ref.system]? = some host →
      World.Finishes host op fault → Moves w o op (.finish o fault) { op with pc := .returned fault }
  | transmit (peer : Nat) : op.pc = .begin → op.typed = true → op.ref.isRemote = true →
      Moves w o op (.transmit o peer)
        { op with onWire := true, pc := if op.verb = .call then .remote else .returned none }
  | reply (o' : Nat) (child : Op) (fault : Option Fault) : op.pc = .remote → op.child = some o' →
      w.ops[o']? = some child → child.pc = .returned fault →
      Moves w o op (.reply o o' fault) { op with pc := .returned fault }
  | abandon (fault : Fault) : op.pc = .remote → Moves w o op (.abandon o fault) { op with pc := .returned (some fault) }

inductive Op.Delegates (w : World Msg) (o : Nat) (op : Op) : Op → Op → Prop where
  | ownSystem (host : Host Msg) (target : RemoteTarget) : op.pc = .begin → op.typed = true →
      op.ref.remote = some target → w.hosts[op.ref.system]? = some host → target.node = host.node →
      target.incarnation = host.incarnation →
      Delegates w o op { op with pc := .remote, onWire := false, child := some w.ops.length }
        (op.arrive o op.ref.system target (withCallPath (some op.ctx) (callPath (some op.ctx))) .begin)
  | deliver (h : Nat) (host : Host Msg) (target : RemoteTarget) : op.onWire = true → op.ref.remote = some target →
      w.hosts[h]? = some host →
      Delegates w o op { op with onWire := false, child := some w.ops.length }
        (op.arrive o h target (withCallPath none (callPath (some op.ctx)))
          (if host.validateInboundTarget target then .begin else .returned (some (.bare .staleRef))))

def Op.fresh (ref : Ref) (typed : Bool) (verb : Verb) (protocol : String) (fingerprint : Option String)
    (caller : Option ActivationRef) (ctx : Context) (noYield : Bool) : Op where
  ref := ref
  typed := typed
  verb := verb
  protocol := protocol
  fingerprint := fingerprint
  ctx := ctx
  noYield := noYield
  caller := caller

namespace World

theorem append_modify_const {table : List Op} {i : Nat} {f g : Op → Op} {entry fresh : Op}
    (found : table[i]? = some entry) : (table.modify i f).modify i g ++ [fresh] =
      (table.modify i fun _ => g (f entry)) ++ [fresh] := by
  rw [List.modify_modify_eq, modify_const found]
  rfl

theorem ops_next (enabled : Enabled w a) :
    (w.next a).ops = w.ops ∨
    (∃ i ref typed verb protocol fingerprint caller ctx noYield,
      a = .begin i typed verb protocol fingerprint caller ctx noYield ∧ w.refs[i]? = some ref ∧
      (w.next a).ops = w.ops ++ [Op.fresh ref typed verb protocol fingerprint caller ctx noYield]) ∨
    (∃ o op op', w.ops[o]? = some op ∧ op.Moves w o a op' ∧ (w.next a).ops = w.ops.modify o fun _ => op') ∨
    ∃ o op op' child, w.ops[o]? = some op ∧ op.Delegates w o op' child ∧
      (w.next a).ops = (w.ops.modify o fun _ => op') ++ [child] := by
  have moved : ∀ {o : Nat} {op : Op} {f : Op → Op} {w' : World Msg}, w.ops[o]? = some op →
      w'.ops = w.ops.modify o f → op.Moves w o a (f op) →
      ∃ o op op', w.ops[o]? = some op ∧ op.Moves w o a op' ∧ w'.ops = w.ops.modify o fun _ => op' :=
    fun found changed moves => ⟨_, _, _, found, moves, changed.trans (modify_const found)⟩
  cases a with
  | begin i typed verb protocol fingerprint caller ctx noYield =>
    have known := List.getElem?_eq_getElem enabled.1
    refine .inr (.inl ⟨i, _, typed, verb, protocol, fingerprint, caller, ctx, noYield, rfl, known, ?_⟩)
    simp only [next, known]
    rfl
  | lookup o =>
    obtain ⟨op, here, starts, own, up⟩ := at_iff.mp enabled
    obtain ⟨host, found, _⟩ := up_iff.mp up
    simp only [next, withOp, withHost, here, found]
    refine .inr (.inr (.inl ?_))
    split
    · next j there =>
      refine moved here rfl (.find host j starts (fun typed => ?_) found there)
      simpa [typed] using own
    · next fault _ => exact moved here rfl (.refuse _ fault (by rw [starts]; rfl))
  | check o j =>
    obtain ⟨op, here, at_, up⟩ := at_iff.mp enabled
    obtain ⟨host, found, _, known⟩ := up_iff.mp up
    obtain ⟨svc, there, _⟩ := at_iff.mp known
    simp only [next, withOp, withHost, here, found, there]
    refine .inr (.inr (.inl ?_))
    split
    · next checked => exact moved here rfl (.pass host j svc at_ found there checked)
    · next fault _ => exact moved here rfl (.refuse _ fault (by rw [at_]; rfl))
  | yieldRefused o j fault =>
    obtain ⟨op, here, at_, _⟩ := at_iff.mp enabled
    exact .inr (.inr (.inl (moved here rfl (.refuse _ fault (by rw [at_]; rfl)))))
  | allocate o j k c =>
    obtain ⟨op, here, at_, calls, up⟩ := at_iff.mp enabled
    obtain ⟨host, found, _, known, last, _⟩ := up_iff.mp up
    obtain ⟨svc, there, runs⟩ := at_iff.mp known
    simp only [next, withOp, here]
    exact .inr (.inr (.inl (moved here rfl (.allocate host j k c svc at_ calls found there runs last))))
  | admitCall o j k c id =>
    obtain ⟨op, here, at_, up⟩ := at_iff.mp enabled
    obtain ⟨host, found, _, calls, box, _⟩ := up_iff.mp up
    obtain ⟨call, called, service⟩ := at_iff.mp calls
    obtain ⟨m, boxed, last⟩ := at_iff.mp box
    simp only [next, withOp, here]
    exact .inr (.inr (.inl (moved here rfl (.admitCall host j k c id call m at_ found called service boxed last))))
  | submit o j k id =>
    obtain ⟨op, here, at_, sends, up⟩ := at_iff.mp enabled
    obtain ⟨host, found, _, known, box, _⟩ := up_iff.mp up
    obtain ⟨svc, there, runs⟩ := at_iff.mp known
    obtain ⟨m, boxed, last⟩ := at_iff.mp box
    simp only [next, withOp, here]
    exact .inr (.inr (.inl (moved here rfl (.submit host j k id svc m at_ sends found there runs boxed last))))
  | finish o fault =>
    obtain ⟨op, here, up⟩ := at_iff.mp enabled
    obtain ⟨host, found, _, finishes⟩ := up_iff.mp up
    exact .inr (.inr (.inl (moved here rfl (.finish host fault found finishes))))
  | transmit o peer =>
    obtain ⟨op, here, starts, typed, away, up⟩ := at_iff.mp enabled
    obtain ⟨host, found, _⟩ := up_iff.mp up
    obtain ⟨target, remote⟩ := Option.isSome_iff_exists.mp away
    simp only [next, withOp, withHost, here, found, remote]
    split
    · next fault _ => exact .inr (.inr (.inl (moved here rfl (.refuse _ fault (by rw [starts]; rfl)))))
    · next own =>
      refine .inr (.inr (.inr ⟨o, op, _, _, here, .ownSystem host target starts typed remote found ?_ ?_, ?_⟩))
      · unfold Host.route at own
        split_ifs at own with _ _ node
        exact node
      · unfold Host.route at own
        split_ifs at own with _ _ _ incarnation
        simpa using incarnation
      · simp only [spawn, onOp, List.length_modify]
        exact append_modify_const here
    · exact .inr (.inr (.inl (moved here rfl (.transmit peer starts typed away))))
  | deliver o h =>
    obtain ⟨sent, up⟩ := enabled
    obtain ⟨op, here, wired, away⟩ := at_iff.mp sent
    obtain ⟨host, found, _⟩ := up_iff.mp up
    obtain ⟨target, remote⟩ := Option.isSome_iff_exists.mp away
    simp only [next, withOp, withHost, here, found, remote]
    refine .inr (.inr (.inr ⟨o, op, _, _, here, .deliver h host target wired remote found, ?_⟩))
    simp only [spawn, fromWirePath_toWirePath]
    rw [modify_const here]
  | reply o o' fault =>
    obtain ⟨waits, answers⟩ := enabled
    obtain ⟨op, here, away, child⟩ := at_iff.mp waits
    obtain ⟨_, there, returned⟩ := at_iff.mp answers
    exact .inr (.inr (.inl (moved here rfl (.reply o' _ fault away child there returned))))
  | abandon o fault =>
    obtain ⟨op, here, away⟩ := at_iff.mp enabled
    exact .inr (.inr (.inl (moved here rfl (.abandon fault away))))
  | reserve | resolve | resolveRemote =>
    left
    simp only [next, withHost]
    (repeat' split) <;> rfl
  | _ => exact .inl rfl

/-- Check the operations after a step: those there before, one that begins, one that moves, one that
goes on elsewhere. -/
theorem forall_next {P : Nat → Op → Prop} (enabled : Enabled w a)
    (kept : ∀ (i : Nat) (op : Op), w.ops[i]? = some op → P i op)
    (begins : ∀ i ref typed verb protocol fingerprint caller ctx noYield,
      a = .begin i typed verb protocol fingerprint caller ctx noYield → w.refs[i]? = some ref →
      P w.ops.length (Op.fresh ref typed verb protocol fingerprint caller ctx noYield))
    (moves : ∀ (o : Nat) (op op' : Op), w.ops[o]? = some op → op.Moves w o a op' → P o op')
    (delegates : ∀ (o : Nat) (op op' child : Op), w.ops[o]? = some op → op.Delegates w o op' child →
      (w.next a).ops[o]? = some op' → P o op' ∧ P w.ops.length child) :
    ∀ (i : Nat) (op : Op), (w.next a).ops[i]? = some op → P i op := by
  intro i op there
  rcases ops_next enabled with same | ⟨_, _, _, _, _, _, _, _, _, begun, known, appended⟩ |
    ⟨o, _, op', here, moved, changed⟩ | ⟨o, _, op', child, here, delegated, changed⟩
  · exact kept i op (same ▸ there)
  · rw [appended] at there
    rcases lookup_append there with old | ⟨rfl, rfl⟩
    · exact kept i op old
    · exact begins _ _ _ _ _ _ _ _ _ begun known
  · rw [changed] at there
    rcases lookup_modify there with ⟨rfl, _, _, rfl⟩ | ⟨_, old⟩
    · exact moves i _ op here moved
    · exact kept i op old
  · rw [changed] at there
    have both := delegates o _ op' child here delegated (by rw [changed, lookup_append_old (lookup_modify_self here)])
    rcases lookup_append there with modified | ⟨last, rfl⟩
    · rcases lookup_modify modified with ⟨rfl, _, _, rfl⟩ | ⟨_, old⟩
      · exact both.1
      · exact kept i op old
    · rw [last, List.length_modify]
      exact both.2

end World

structure Op.Later (op op' : Op) : Prop where
  ref : op'.ref = op.ref
  typed : op'.typed = op.typed
  verb : op'.verb = op.verb
  protocol : op'.protocol = op.protocol
  ctx : op'.ctx = op.ctx
  caller : op'.caller = op.caller
  parent : op'.parent = op.parent
  envelope : op.envelope = none ∨ op'.envelope = op.envelope
  returned : op.isReturned = true → op'.isReturned = true ∧ op'.envelope = op.envelope

theorem Op.Later.refl (op : Op) : op.Later op :=
  ⟨rfl, rfl, rfl, rfl, rfl, rfl, rfl, .inr rfl, fun returned => ⟨returned, rfl⟩⟩

theorem Op.Later.going (same : op.Later op') (going : op'.isReturned = false) : op.isReturned = false := by
  by_contra returned
  rw [Bool.not_eq_false] at returned
  rw [(same.returned returned).1] at going
  cases going

theorem Op.isReturned_false (here : op.pc.early = true) : op.isReturned = false := by
  cases at_ : op.pc <;> simp_all [Op.isReturned, OpPc.early]

theorem Op.isReturned_at {pc : OpPc} (here : op.pc = pc) (going : ∀ fault, pc ≠ .returned fault) :
    op.isReturned = false := by
  subst here
  unfold Op.isReturned
  split
  · next fault returned => exact absurd returned (going fault)
  · rfl

theorem World.Finishes.going {host : Host Msg} {fault : Option Fault} (finishes : World.Finishes host op fault) :
    op.isReturned = false := by
  unfold World.Finishes at finishes
  split at finishes
  · next at_ => exact Op.isReturned_at at_ (by simp)
  · next at_ => exact Op.isReturned_at at_ (by simp)
  · next at_ => exact Op.isReturned_at at_ (by simp)
  · cases finishes

def OpPc.entered : OpPc → Bool
  | .waiting _ _ | .sending _ _ | .returned _ => true
  | _ => false

def OpPc.away : OpPc → Bool
  | .remote | .returned _ => true
  | _ => false

/-- An operation has no envelope before it enters a mailbox, goes to another process once, and starts
over only as a notification. -/
structure Op.Tidy (op : Op) : Prop where
  envelope : op.pc.entered = false → op.envelope = none
  unsent : op.pc.away = false → op.onWire = false ∧ op.child = none
  once : op.onWire = true → op.child = none
  again : op.again = true → op.verb ≠ .call

namespace Op.Tidy

variable (tidy : op.Tidy)
include tidy

theorem unentered {pc : OpPc} (here : op.pc = pc) (before : pc.entered = false) : op.envelope = none :=
  tidy.envelope (by rw [here]; exact before)

theorem home {pc : OpPc} (here : op.pc = pc) (inside : pc.away = false) : op.onWire = false ∧ op.child = none :=
  tidy.unsent (by rw [here]; exact inside)

theorem moves (moves : op.Moves w o a op') : op'.Tidy := by
  cases moves with
  | find host j at_ => exact ⟨fun _ => tidy.unentered at_ rfl, fun _ => tidy.home at_ rfl, tidy.once, tidy.again⟩
  | pass host j svc at_ =>
    unfold Op.pass
    split
    · next notify => exact ⟨fun _ => tidy.unentered at_ rfl, fun _ => tidy.home at_ rfl, tidy.once, fun _ => notify.2⟩
    · exact ⟨fun _ => tidy.unentered at_ rfl, fun _ => tidy.home at_ rfl, tidy.once, tidy.again⟩
  | allocate host j k c svc at_ =>
    exact ⟨fun _ => tidy.unentered at_ rfl, fun _ => tidy.home at_ rfl, tidy.once, tidy.again⟩
  | admitCall host j k c id call m at_ => exact ⟨nofun, fun _ => tidy.home at_ rfl, tidy.once, tidy.again⟩
  | submit host j k id svc m at_ => exact ⟨nofun, fun _ => tidy.home at_ rfl, tidy.once, tidy.again⟩
  | transmit peer at_ =>
    refine ⟨fun _ => tidy.unentered at_ rfl, fun here => ?_, fun _ => (tidy.home at_ rfl).2, tidy.again⟩
    split at here <;> cases here
  | refuse | finish | reply | abandon => exact ⟨nofun, nofun, tidy.once, tidy.again⟩

theorem delegates (delegates : op.Delegates w o op' child) : op'.Tidy ∧ child.Tidy := by
  have fresh : ∀ {op : Op}, op.envelope = none → op.onWire = false → op.child = none → op.again = false → op.Tidy :=
    fun envelope wired child again => ⟨fun _ => envelope, fun _ => ⟨wired, child⟩, fun _ => child, by simp [again]⟩
  cases delegates with
  | ownSystem host target at_ =>
    exact ⟨⟨fun _ => tidy.unentered at_ rfl, nofun, nofun, tidy.again⟩, fresh rfl rfl rfl rfl⟩
  | deliver h host target wired =>
    refine ⟨⟨tidy.envelope, fun inside => ?_, nofun, tidy.again⟩, fresh rfl rfl rfl rfl⟩
    have unsent := (tidy.unsent inside).1
    rw [wired] at unsent
    cases unsent

end Op.Tidy

theorem Op.Later.go {pc : OpPc} {again onWire : Bool} {child : Option Nat} {envelope : Option (Nat × Nat)}
    (going : op.isReturned = false) (kept : op.envelope = none ∨ envelope = op.envelope) :
    op.Later { op with pc := pc, again := again, onWire := onWire, child := child, envelope := envelope } :=
  ⟨rfl, rfl, rfl, rfl, rfl, rfl, rfl, kept, fun returned => by simp [going] at returned⟩

theorem Op.Tidy.later (tidy : op.Tidy) (moves : op.Moves w o a op') : op.Later op' := by
  cases moves with
  | find host j at_ => exact .go (Op.isReturned_at at_ nofun) (.inr rfl)
  | refuse _ fault early => exact .go (Op.isReturned_false early) (.inr rfl)
  | pass host j svc at_ =>
    unfold Op.pass
    split <;> exact .go (Op.isReturned_at at_ nofun) (.inr rfl)
  | allocate host j k c svc at_ => exact .go (Op.isReturned_at at_ nofun) (.inr rfl)
  | admitCall host j k c id call m at_ => exact .go (Op.isReturned_at at_ nofun) (.inl (tidy.unentered at_ rfl))
  | submit host j k id svc m at_ => exact .go (Op.isReturned_at at_ nofun) (.inl (tidy.unentered at_ rfl))
  | finish host fault _ finishes => exact .go finishes.going (.inr rfl)
  | transmit peer at_ => exact .go (Op.isReturned_at at_ nofun) (.inr rfl)
  | reply o' child fault at_ => exact .go (Op.isReturned_at at_ nofun) (.inr rfl)
  | abandon fault at_ => exact .go (Op.isReturned_at at_ nofun) (.inr rfl)

theorem Op.Delegates.later (delegates : op.Delegates w o op' child) : op.Later op' := by
  cases delegates with
  | ownSystem host target at_ => exact .go (Op.isReturned_at at_ nofun) (.inr rfl)
  | deliver h host target wired =>
    exact ⟨rfl, rfl, rfl, rfl, rfl, rfl, rfl, .inr rfl, fun returned => ⟨returned, rfl⟩⟩

namespace World

def Tidy (w : World Msg) : Prop := ∀ (o : Nat) (op : Op), w.ops[o]? = some op → op.Tidy

theorem tidy_next (tidy : w.Tidy) (enabled : Enabled w a) : (w.next a).Tidy :=
  forall_next (P := fun _ op => op.Tidy) enabled tidy
    (fun _ _ _ _ _ _ _ _ _ _ _ => ⟨fun _ => rfl, fun _ => ⟨rfl, rfl⟩, nofun, nofun⟩)
    (fun o op _ here moves => (tidy o op here).moves moves)
    fun o op _ _ here delegates _ => (tidy o op here).delegates delegates

theorem reachable_tidy (reached : (machine Msg).Reachable {} w) : w.Tidy :=
  reached.invariant (by intro o op there; simp at there) fun _ _ tidy enabled => tidy_next tidy enabled

structure Later (w w' : World Msg) : Prop where
  hosts : Grows Host.Later w.hosts w'.hosts
  ops : Grows Op.Later w.ops w'.ops

theorem later_next (ordered : w.Ordered) (tidy : w.Tidy) (enabled : Enabled w a) : w.Later (w.next a) := by
  refine ⟨hosts_later ordered enabled, ?_⟩
  have changes : ∀ {o : Nat} {op op' : Op}, w.ops[o]? = some op → op.Later op' →
      Grows Op.Later w.ops (w.ops.modify o fun _ => op') := by
    intro o op op' here later
    refine .modify .refl o fun old was => ?_
    rw [here] at was
    cases was
    exact later
  rcases ops_next enabled with same | ⟨_, _, _, _, _, _, _, _, _, _, _, appended⟩ | ⟨o, _, op', here, moves, changed⟩ |
    ⟨o, _, op', child, here, delegates, changed⟩
  · rw [same]
    exact .refl .refl _
  · rw [appended]
    exact .append .refl _
  · rw [changed]
    exact changes here ((tidy o _ here).later moves)
  · rw [changed]
    intro i old was
    obtain ⟨later, there, kept⟩ := changes here delegates.later i old was
    exact ⟨later, lookup_append_old there, kept⟩

end World

end Skygo.Cluster
