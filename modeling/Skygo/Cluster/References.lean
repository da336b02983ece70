import Skygo.Cluster.CallCycle
import Skygo.Cluster.Lifecycle

/-! A reference leads to the service it was obtained for, and to no other.

Within a system the address does it, since addresses are never given out twice; between
processes it is the incarnation, which both sides compare. This needs that a remote reference
is used through a typed method, as `Call`, `Send` and `TrySend` themselves look a reference up
in the system that resolved it.
-/

set_option autoImplicit false

namespace Skygo.Cluster

open Semantics Actor

variable {Msg : Type} {w w' : World Msg} {a : WorldAction Msg} {o : Nat} {op op' child : Op} {ref : Ref}

def Ref.Denotes (w : World Msg) (ref : Ref) (host : Host Msg) (svc : Service) : Prop :=
  w.hosts[ref.origin.1]? = some host ∧ host.services[ref.origin.2]? = some svc ∧
  svc.address = ref.address ∧ svc.generation = ref.generation ∧ (ref.remote = none → ref.system = ref.origin.1) ∧
  ∀ target ∈ ref.remote, target.node = host.node ∧ target.incarnation = host.incarnation ∧
    target.address = ref.address ∧ target.generation = ref.generation

def Ref.Sound (w : World Msg) (ref : Ref) : Prop := ∃ host svc, ref.Denotes w host svc

theorem Ref.Sound.grow (sound : ref.Sound w) (later : w.Later w') : ref.Sound w' := by
  obtain ⟨host, svc, found, there, address, generation, own, remote⟩ := sound
  obtain ⟨host', found', kept⟩ := later.hosts _ host found
  obtain ⟨svc', there', same⟩ := kept.services _ svc there
  refine ⟨host', svc', found', there', same.address.trans address, same.generation.trans generation, own, ?_⟩
  rw [kept.node, kept.incarnation]
  exact remote

theorem Host.resolve_ok {host : Host Msg} {h : Nat} {name : String} (resolved : host.resolve h name = .ok ref) :
    ref.system = h ∧ ref.remote = none ∧ ref.origin.1 = h ∧ ∃ svc, host.services[ref.origin.2]? = some svc ∧
      svc.address = ref.address ∧ svc.generation = ref.generation := by
  unfold Host.resolve at resolved
  split at resolved
  · cases resolved
  · next j _ =>
    split at resolved
    · cases resolved
    · next svc there =>
      split_ifs at resolved
      cases resolved
      exact ⟨rfl, rfl, rfl, svc, there, rfl, rfl⟩

namespace World

def Proper (w : World Msg) (a : WorldAction Msg) : Prop :=
  w.StartsFresh a ∧
  match a with
  | .begin i typed _ _ _ _ _ _ => At w.refs i fun ref => ref.isRemote = true → typed = true
  | _ => True

instance (w : World Msg) (a : WorldAction Msg) : Decidable (w.Proper a) := by
  unfold Proper
  refine @instDecidableAnd _ _ _ ?_
  rcases a with _ | _ <;> dsimp only <;> infer_instance

structure Traced (w : World Msg) : Prop where
  refs : ∀ ref ∈ w.refs, ref.Sound w
  ops : ∀ (o : Nat) (op : Op), w.ops[o]? = some op → op.ref.Sound w ∨
    (op.parent.isSome = true ∧ op.isReturned = true ∧ op.envelope = none)
  typed : ∀ (o : Nat) (op : Op), w.ops[o]? = some op → op.ref.isRemote = true → op.typed = true

theorem refs_cases (enabled : Enabled w a) : (w.next a).refs = w.refs ∨
    ∃ ref : Ref, (w.next a).refs = w.refs ++ [ref] ∧ (ref.Sound w ∨ ref.Sound (w.next a)) := by
  cases a with
  | reserve h name opts =>
    obtain ⟨host, found, _⟩ := up_iff.mp enabled
    simp only [next, withHost, found]
    split
    · next host' ref reserved =>
      refine .inr ⟨ref, rfl, .inr ?_⟩
      unfold Host.reserve at reserved
      split_ifs at reserved
      cases reserved
      exact ⟨_, _, lookup_modify_self found, List.getElem?_concat_length, rfl, rfl, fun _ => rfl, nofun⟩
    · exact .inl rfl
  | resolve h name =>
    obtain ⟨host, found, _⟩ := up_iff.mp enabled
    simp only [next, withHost, found]
    split
    · next ref resolved =>
      obtain ⟨system, remote, origin, svc, there, address, generation⟩ := Host.resolve_ok resolved
      refine .inr ⟨ref, rfl, .inl ⟨host, svc, origin ▸ found, there, address, generation, fun _ => ?_, ?_⟩⟩
      · exact system.trans origin.symm
      · simp [remote]
    · exact .inl rfl
  | resolveRemote h h' name =>
    obtain ⟨host, found, _⟩ := up_iff.mp enabled.2
    simp only [next, withHost, found]
    split
    · next ref resolved =>
      obtain ⟨_, _, origin, svc, there, address, generation⟩ := Host.resolve_ok resolved
      split
      · exact .inl rfl
      · refine .inr ⟨_, rfl, .inl ⟨host, svc, origin ▸ found, there, address, generation, nofun, ?_⟩⟩
        rintro target ⟨⟩
        exact ⟨rfl, rfl, rfl, rfl⟩
    · exact .inl rfl
  | begin | lookup | check | allocate | admitCall | submit | transmit | deliver =>
    left
    simp only [next, withOp, withHost]
    (repeat' split) <;> rfl
  | _ => exact .inl rfl

theorem refs_next (enabled : Enabled w a) (later : w.Later (w.next a)) (known : ∀ ref ∈ w.refs, ref.Sound w) :
    ∀ ref ∈ (w.next a).refs, ref.Sound (w.next a) := by
  intro ref member
  rcases refs_cases enabled with same | ⟨fresh, appended, sound⟩
  · exact (known ref (same ▸ member)).grow later
  · rw [appended, List.mem_append, List.mem_singleton] at member
    rcases member with old | rfl
    · exact (known ref old).grow later
    · rcases sound with before | now
      · exact before.grow later
      · exact now

theorem Traced.delegates (traced : w.Traced) (ordered : w.Ordered) (coherent : w.Coherent)
    (here : w.ops[o]? = some op) (delegates : op.Delegates w o op' child) :
    child.ref.Sound w ∨ (child.parent.isSome = true ∧ child.isReturned = true ∧ child.envelope = none) := by
  have outer := coherent.outer here delegates.remote
  have sound : op.ref.Sound w := by
    rcases traced.ops o op here with sound | ⟨inner, _⟩
    · exact sound
    · simp [outer] at inner
  obtain ⟨host, svc, found, there, address, generation, _, targets⟩ := sound
  cases delegates with
  | ownSystem own target _ _ remote found' node incarnation =>
    obtain ⟨_, incarnation', address', generation'⟩ := targets target remote
    have same : op.ref.system = op.ref.origin.1 :=
      ordered.incarnations _ _ own host found' found (incarnation.symm.trans incarnation')
    exact .inl ⟨host, svc, found, there, address.trans address'.symm, generation.trans generation'.symm,
      fun _ => same, nofun⟩
  | deliver h own target _ remote found' =>
    obtain ⟨_, incarnation', address', generation'⟩ := targets target remote
    cases valid : own.validateInboundTarget target with
    | false => exact .inr ⟨rfl, rfl, rfl⟩
    | true =>
      simp only [Host.validateInboundTarget, Bool.and_eq_true, decide_eq_true_eq] at valid
      have same : h = op.ref.origin.1 :=
        ordered.incarnations _ _ own host found' found (valid.2.symm.trans incarnation')
      exact .inl ⟨host, svc, found, there, address.trans address'.symm, generation.trans generation'.symm,
        fun _ => same, nofun⟩

theorem traced_next (ordered : w.Ordered) (tidy : w.Tidy) (coherent : w.Coherent) (traced : w.Traced)
    (enabled : Enabled w a) (proper : w.Proper a) : (w.next a).Traced := by
  have later := later_next ordered tidy enabled
  have step : ∀ (o : Nat) (op op' : Op), w.ops[o]? = some op → op.Later op' → op'.ref.Sound (w.next a) ∨
      (op'.parent.isSome = true ∧ op'.isReturned = true ∧ op'.envelope = none) := by
    intro o op op' here same
    rw [same.ref, same.parent]
    rcases traced.ops o op here with sound | ⟨inner, returned, unposted⟩
    · exact .inl (sound.grow later)
    · obtain ⟨returned', kept⟩ := same.returned returned
      exact .inr ⟨inner, returned', kept.trans unposted⟩
  refine ⟨refs_next enabled later traced.refs, ?_, ?_⟩
  · refine forall_next enabled (fun o op here => step o op op here (.refl op)) ?_
      (fun o op op' here moves => step o op op' here ((tidy o op here).later moves)) ?_
    · intro i ref _ _ _ _ _ _ _ _ known
      exact .inl ((traced.refs ref (List.mem_of_getElem? known)).grow later)
    · intro o op op' child here delegates _
      refine ⟨step o op op' here delegates.later, ?_⟩
      rcases traced.delegates ordered coherent here delegates with sound | refused
      · exact .inl (sound.grow later)
      · exact .inr refused
  · have kept : ∀ (o : Nat) (op op' : Op), w.ops[o]? = some op → op.Later op' → op'.ref.isRemote = true →
        op'.typed = true := by
      intro o op op' here same
      rw [same.ref, same.typed]
      exact traced.typed o op here
    refine forall_next enabled (fun o op here => kept o op op here (.refl op)) ?_
      (fun o op op' here moves => kept o op op' here ((tidy o op here).later moves)) ?_
    · rintro i ref typed verb protocol fingerprint caller ctx noYield rfl known
      exact proper.2.here known
    · intro o op op' child here delegates _
      refine ⟨kept o op op' here delegates.later, fun away => ?_⟩
      have inner := (delegates.worksFor (coherent.outer here delegates.remote)).1.inner
      simp [Ref.isRemote, inner] at away

theorem Traced.posted (traced : w.Traced) (ordered : w.Ordered) (coherent : w.Coherent) (here : w.ops[o]? = some op)
    {k id : Nat} (posted : op.envelope = some (k, id)) :
    ∃ host svc, op.ref.Denotes w host svc ∧ op.ref.system = op.ref.origin.1 ∧ svc.mailbox = some k := by
  rcases traced.ops o op here with ⟨host, svc, denotes⟩ | ⟨_, _, unposted⟩
  case inr => simp [unposted] at posted
  obtain ⟨j, host', svc', found', there', letter⟩ := (coherent.fits o op here).posted k id posted
  have known := denotes
  obtain ⟨found, there, address, _, own, _⟩ := known
  have inner : op.ref.remote = none := by
    by_contra remote
    have away : op.ref.isRemote = true := Option.isSome_iff_ne_none.mpr remote
    rw [letter.names.own (traced.typed o op here away)] at away
    cases away
  have system := own inner
  rw [system, found] at found'
  cases found'
  -- the address is the number of the service
  have registered := ordered.registered _ host found
  have first := (registered.numbered _ svc there).1
  have second := (registered.numbered _ svc' there').1
  obtain rfl : j = op.ref.origin.2 := by
    have same : svc'.address = svc.address := letter.names.address.trans address.symm
    omega
  rw [there] at there'
  cases there'
  exact ⟨host, svc, denotes, system, letter.mailbox⟩

def Runs (w : World Msg) (o : Nat) (act : ActivationRef) : Prop :=
  ∃ (i : Nat) (op : Op), w.ops[i]? = some op ∧ (i = o ∨ op.parent = some o) ∧ op.ref.system = act.system ∧
    op.envelope = some (act.service, act.request)

theorem Traced.runs (traced : w.Traced) (ordered : w.Ordered) (coherent : w.Coherent) (here : w.ops[o]? = some op)
    {act : ActivationRef} (runs : w.Runs o act) :
    ∃ host svc, op.ref.Denotes w host svc ∧ act.system = op.ref.origin.1 ∧ svc.mailbox = some act.service := by
  obtain ⟨i, inner, there, via, system, posted⟩ := runs
  obtain ⟨host, svc, denotes, own, mailbox⟩ := traced.posted ordered coherent there posted
  rcases via with rfl | parent
  · rw [here] at there
    cases there
    exact ⟨host, svc, denotes, system.symm.trans own, mailbox⟩
  · obtain ⟨up, here', works⟩ := coherent.parent i inner there o parent
    rw [here] at here'
    cases here'
    have sound : op.ref.Sound w := by
      rcases traced.ops o op here with sound | ⟨under, _⟩
      · exact sound
      · simp [works.outer] at under
    obtain ⟨host', svc', found', there', rest⟩ := sound
    obtain ⟨found, there, _⟩ := denotes
    rw [works.origin] at found there
    rw [found] at found'
    cases found'
    rw [there] at there'
    cases there'
    exact ⟨host, svc, ⟨found, there, rest⟩, by rw [← system, own, works.origin], mailbox⟩

def Closed (before : World Msg) (h j : Nat) (w : World Msg) : Prop :=
  ∃ host svc, w.hosts[h]? = some host ∧ host.services[j]? = some svc ∧ svc.published = false ∧
    ∀ k ∈ svc.mailbox, ∀ id r, host.system.request k id = some r → r.Received →
      ∃ r, before.request ⟨h, k, id⟩ = some r ∧ r.Received

theorem closed_next {before : World Msg} {h j : Nat} (ordered : w.Ordered) (orderly : w.Orderly)
    (fresh : w.StartsFresh a) (enabled : Enabled w a) (closed : Closed before h j w) :
    Closed before h j (w.next a) := by
  obtain ⟨host, svc, found, there, gone, quiet⟩ := closed
  obtain ⟨host', found', kept⟩ := hosts_later ordered enabled h host found
  obtain ⟨svc', there', same⟩ := kept.services j svc there
  have known := orderly h host found j svc there
  refine ⟨host', svc', found', there', ?_, fun k runs id r' after received => ?_⟩
  · by_contra published
    rw [Bool.not_eq_false] at published
    rw [same.published published] at gone
    cases gone
  have runs' : svc.mailbox = some k := by
    rcases mailbox_next enabled found there found' there' with unchanged | rfl
    · exact unchanged.symm.trans runs
    · -- a service that was unpublished has been stopped before
      obtain ⟨_, found'', _, unstopped⟩ := up_iff.mp fresh
      rw [found] at found''
      cases found''
      rw [known.published (unstopped.here there)] at gone
      cases gone
  obtain ⟨_, found'', _, silent⟩ := system_next
    (P := fun s => At s.mailboxes k (·.done = true) ∧ ∀ r, s.request k id = some r → r.Received →
      ∃ r, before.request ⟨h, k, id⟩ = some r ∧ r.Received) ordered enabled
    (by
      rintro s act healthy allowed _ _ ⟨exited, silent⟩
      obtain ⟨m, box, done⟩ := at_iff.mp exited
      obtain ⟨m', box', _, _, still⟩ := System.mailbox_next allowed box
      refine ⟨at_iff.mpr ⟨m', box', still done⟩, fun r' after received => ?_⟩
      obtain ⟨r, earlier, received⟩ := System.received_next healthy allowed exited after received
      exact silent r earlier received)
    found ⟨(known.unpublished gone).2 k runs', quiet k runs' id⟩
  rw [found'] at found''
  cases found''
  exact silent r' after received

/-- In every run whose steps are all proper, an operation runs handlers only of the very service its
reference was obtained for, every envelope is that of an operation, and from when the service is
unpublished no operation through the reference is received. -/
theorem reference_safety {actions : List (WorldAction Msg)} (ran : (machine Msg).run {} actions = some w)
    (met : (machine Msg).Meets Proper {} actions) :
    (∀ (o : Nat) (op : Op) (act : ActivationRef), w.ops[o]? = some op → w.Runs o act →
      ∃ host svc, op.ref.Denotes w host svc ∧ act.system = op.ref.origin.1 ∧ svc.mailbox = some act.service) ∧
    (∀ (act : ActivationRef) (r : Request Msg), w.request act = some r → ∃ o, w.Runs o act) ∧
    ∀ (rest : List (WorldAction Msg)) (w' : World Msg), (machine Msg).run w rest = some w' →
      (machine Msg).Meets Proper w rest → ∀ (o : Nat) (op : Op) (act : ActivationRef) (r : Request Msg),
      w'.ops[o]? = some op →
      (At w.hosts op.ref.origin.1 fun host => At host.services op.ref.origin.2 (·.published = false)) →
      w'.Runs o act → w'.request act = some r → r.Received → ∃ r, w.request act = some r ∧ r.Received := by
  have step : ∀ (w : World Msg) (a : WorldAction Msg),
      (machine Msg).Reachable {} w ∧ w.Traced ∧ w.Orderly → w.Proper a → (machine Msg).Enabled w a →
      (machine Msg).Reachable {} (w.next a) ∧ (w.next a).Traced ∧ (w.next a).Orderly := by
    rintro w a ⟨reached, traced, orderly⟩ proper enabled
    have ordered := reachable_ordered reached
    exact ⟨reached.next enabled, traced_next ordered (reachable_tidy reached) (reachable_coherent reached) traced
      enabled proper, orderly_next ordered orderly proper.1 enabled⟩
  obtain ⟨reached, traced, orderly⟩ : (machine Msg).Reachable {} w ∧ w.Traced ∧ w.Orderly := by
    refine Machine.run_keeps_where (I := fun w : World Msg => (machine Msg).Reachable {} w ∧ w.Traced ∧ w.Orderly)
      step ran met ⟨.refl _, ⟨?_, ?_, ?_⟩, ?_⟩
    · intro ref member
      simp at member
    · intro o op here
      simp at here
    · intro o op here
      simp at here
    · intro h host found
      simp at found
  have coherent := reachable_coherent reached
  refine ⟨fun o op act here runs => traced.runs (reachable_ordered reached) coherent here runs,
    fun act r found => ?_, fun rest w' ran' met' o op act r here gone runs found received => ?_⟩
  · obtain ⟨o, op, here, system, posted⟩ := coherent.sent act r found
    exact ⟨o, o, op, here, .inl rfl, system, posted⟩
  · obtain ⟨host, known, serves⟩ := at_iff.mp gone
    obtain ⟨svc, there, gone⟩ := at_iff.mp serves
    obtain ⟨⟨reached', traced', _⟩, closed⟩ := Machine.run_keeps_where
      (I := fun now : World Msg => ((machine Msg).Reachable {} now ∧ now.Traced ∧ now.Orderly) ∧
        Closed w op.ref.origin.1 op.ref.origin.2 now)
      (by
        rintro now a ⟨invariants, closed⟩ proper enabled
        exact ⟨step now a invariants proper enabled,
          closed_next (reachable_ordered invariants.1) invariants.2.2 proper.1 enabled closed⟩)
      ran' met' ⟨⟨reached, traced, orderly⟩, host, svc, known, there, gone, fun k _ id r found received =>
        ⟨r, request_eq_some.mpr ⟨host, known, found⟩, received⟩⟩
    obtain ⟨_, _, ⟨known', there', _⟩, system, mailbox⟩ :=
      traced'.runs (reachable_ordered reached') (reachable_coherent reached') here runs
    obtain ⟨_, _, known'', there'', _, quiet⟩ := closed
    rw [known'] at known''
    cases known''
    rw [there'] at there''
    cases there''
    obtain ⟨_, found', there'⟩ := request_eq_some.mp found
    rw [system, known'] at found'
    cases found'
    obtain ⟨r, earlier, received'⟩ := quiet _ mailbox _ r there' received
    rw [← system] at earlier
    exact ⟨r, earlier, received'⟩

def resolved : List (WorldAction Unit) :=
  [.boot "m" 1 false, .reserve 0 "a" {}, .handle 0 0 ⟨"ping", none⟩, .start 0 0,
    .boot "n" 2 false, .reserve 1 "b" {}, .handle 1 0 ⟨"ping", some "f"⟩, .start 1 0, .resolveRemote 0 1 "b"]

def delivered : List (WorldAction Unit) :=
  resolved ++
  [.begin 2 true .send "ping" (some "f") none .background false, .transmit 0 2, .deliver 0 1, .lookup 1, .check 1 0,
    .lookup 1, .check 1 0, .submit 1 0 0 0] ++
  invoked 1 0 0

theorem reference_safety_delivered :
    ∃ op host svc, ((machine Unit).after {} delivered).ops[0]? = some op ∧ op.ref.isRemote = true ∧
      op.ref.Denotes ((machine Unit).after {} delivered) host svc ∧ 1 = op.ref.origin.1 ∧ svc.mailbox = some 0 := by
  have began : At ((machine Unit).after {} delivered).ops 0 fun op => op.ref.isRemote = true := by decide +kernel
  have arrived : At ((machine Unit).after {} delivered).ops 1 fun op => op.parent = some 0 ∧ op.ref.system = 1 ∧
      op.envelope = some (0, 0) := by
    decide +kernel
  obtain ⟨op, here, remote⟩ := at_iff.mp began
  obtain ⟨child, there, parent, system, posted⟩ := at_iff.mp arrived
  obtain ⟨host, svc, denotes, origin, mailbox⟩ :=
    (reference_safety (Machine.run_after (by decide +kernel)) (by decide +kernel)).1 0 op ⟨1, 0, 0⟩ here
      ⟨1, child, there, .inr parent, system, posted⟩
  exact ⟨op, host, svc, here, remote, denotes, origin, mailbox⟩

def misdirected : List (WorldAction Unit) :=
  resolved ++
  [.begin 2 false .send "ping" none none .background false, .lookup 0, .check 0 0, .submit 0 0 0 0] ++ invoked 0 0 0

def stoppedEarly : List (WorldAction Unit) :=
  [.boot "m" 1 false, .reserve 0 "a" {}, .handle 0 0 ⟨"ping", none⟩, .stop 0 0, .start 0 0,
    .begin 0 false .send "ping" none none .background false, .lookup 0, .check 0 0,
    .beginFinalize 0 0 .immediate, .unpublish 0 0]

/-- A handler of the wrong process runs, and one of a service unpublished before. -/
theorem reference_misled :
    ((machine Unit).Reachable {} ((machine Unit).after {} misdirected) ∧
      (At ((machine Unit).after {} misdirected).ops 0 fun op =>
        op.ref.remote = some ⟨"n", 2, "b", 1, 1⟩ ∧ op.ref.origin = (1, 0) ∧ op.ref.system = 0 ∧
        op.envelope = some (0, 0)) ∧
      At ((machine Unit).after {} misdirected).hosts 0 fun host => host.node = "m" ∧ host.incarnation = 1 ∧
        At host.system.mailboxes 0 fun m => m.name = "a" ∧ At m.requests 0 (·.invocations = 1)) ∧
    (machine Unit).Reachable {} ((machine Unit).after {} stoppedEarly) ∧
      (At ((machine Unit).after {} stoppedEarly).hosts 0 fun host =>
        At host.services 0 (·.published = false) ∧ At host.system.mailboxes 0 (·.requests = [])) ∧
      (machine Unit).Reachable {} ((machine Unit).after {} (stoppedEarly ++ .submit 0 0 0 0 :: invoked 0 0 0)) ∧
      At ((machine Unit).after {} (stoppedEarly ++ .submit 0 0 0 0 :: invoked 0 0 0)).hosts 0 fun host =>
        At host.services 0 (·.published = false) ∧
        At host.system.mailboxes 0 fun m => At m.requests 0 fun r =>
          r.admission = .returned none ∧ r.invocations = 1 := by
  refine ⟨⟨⟨_, Machine.run_after ?_⟩, ?_, ?_⟩, ⟨_, Machine.run_after ?_⟩, ?_, ⟨_, Machine.run_after ?_⟩, ?_⟩
  all_goals decide +kernel

end World

end Skygo.Cluster
