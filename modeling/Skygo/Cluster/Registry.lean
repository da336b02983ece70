import Skygo.Cluster.World

/-! The registry of a host: addresses, names and mailboxes of its services.

A step of the world moves at most one host, in one of a few ways. Every system of a
reachable world is a reachable system, so what was proved of one holds of all.
-/

set_option autoImplicit false

namespace Skygo.Cluster

open Semantics Actor

variable {Msg : Type} {h : Nat} {host host' : Host Msg} {w : World Msg}

inductive Service.Adjusts (host : Host Msg) (svc : Service) : Service → Prop where
  | register (entry : HandlerEntry) : Adjusts host svc (svc.register entry)
  | beginFinalize (kind : Finalizer) : kind ∈ svc.requested → Adjusts host svc (svc.beginFinalize kind)
  | unpublish : svc.finalizer = some .immediate ∨ (svc.finalizer = some .afterLoop ∧
      ∃ k ∈ svc.mailbox, At host.system.mailboxes k (·.done = true)) →
      Adjusts host svc { svc with published := false }
  | retire : svc.finalizer.isSome = true → svc.published = false →
      Adjusts host svc { svc with state := .stopped }

def World.Drives (w : World Msg) (h : Nat) (act : SystemAction Msg) : WorldAction Msg → Prop
  | .internal h' act' => h' = h ∧ act' = act ∧ isInternal act = true
  | .allocate o _ k _ => At w.ops o fun op => op.ref.system = h ∧ act = .allocate k op.inbound
  | .admitCall o _ _ c _ => At w.ops o fun op => op.ref.system = h ∧ act = .admitCall c op.ctx op.protocol
  | .submit o _ k _ => At w.ops o fun op => op.ref.system = h ∧
      act = .mail k (.submit op.ctx op.protocol 0 false (op.verb = .trySend))
  | _ => False

inductive Host.Moves (w : World Msg) (a : WorldAction Msg) (h : Nat) (host : Host Msg) : Host Msg → Prop where
  | flags (alive stopping : Bool) : (a = .crash h ∨ alive = host.alive) →
      Moves w a h host { host with alive := alive, stopping := stopping }
  | reserve (name : String) (opts : ServiceOptions) (host' : Host Msg) (ref : Ref) :
      host.reserve h name opts = .ok (host', ref) → Moves w a h host host'
  | adjust (j : Nat) (svc : Service) (f : Service → Service) : host.services[j]? = some svc →
      svc.Adjusts host (f svc) → Moves w a h host { host with services := host.services.modify j f }
  | start (j : Nat) (svc : Service) : a = .start h j → host.services[j]? = some svc → svc.state = .reserved →
      Moves w a h host (host.start j svc)
  | stop (j : Nat) (svc : Service) : a = .stop h j → host.services[j]? = some svc →
      Moves w a h host (host.stop j svc)
  | system (act : SystemAction Msg) : w.Drives h act a → System.Enabled host.system act →
      Moves w a h host { host with system := System.next host.system act }

variable {a : WorldAction Msg} {act : SystemAction Msg}

theorem World.Drives.other (drives : w.Drives h act a)
    (name : String) (opts : ServiceOptions) : act ≠ .start name opts := by
  rintro rfl
  cases a with
  | internal => cases drives.2.2
  | allocate | admitCall | submit =>
    obtain ⟨_, _, _, same⟩ := at_iff.mp drives
    cases same
  | _ => cases drives

theorem World.Drives.internal (drives : w.Drives h act a)
    (inner : isInternal act = true) : a = .internal h act := by
  cases a with
  | internal =>
    obtain ⟨rfl, rfl, _⟩ := drives
    rfl
  | allocate | admitCall | submit =>
    obtain ⟨_, _, _, rfl⟩ := at_iff.mp drives
    cases inner
  | _ => cases drives

def World.Causes (w : World Msg) (a : WorldAction Msg) (h : Nat) (act : SystemAction Msg) : Prop :=
  w.Drives h act a ∨ (∃ name opts, act = .start name opts) ∨ ∃ k, act = .mail k .cancel

theorem World.Causes.internal (causes : w.Causes a h act)
    (inner : isInternal act = true) : a = .internal h act := by
  rcases causes with drives | ⟨_, _, rfl⟩ | ⟨_, rfl⟩
  · exact drives.internal inner
  · cases inner
  · cases inner

theorem World.up_iff {p : Host Msg → Prop} :
    w.Up h p ↔ ∃ host, w.hosts[h]? = some host ∧ host.alive = true ∧ p host := at_iff

theorem hosts_next (enabled : World.Enabled w a) :
    (∃ node incarnation drainable, a = .boot node incarnation drainable) ∨
    (w.next a).hosts = w.hosts ∨
    ∃ h host host', w.hosts[h]? = some host ∧ host.alive = true ∧ host.Moves w a h host' ∧
      (w.next a).hosts = w.hosts.modify h fun _ => host' := by
  have moved : ∀ {h : Nat} {host : Host Msg} {f : Host Msg → Host Msg} {w' : World Msg}, w.hosts[h]? = some host →
      host.alive = true → w'.hosts = w.hosts.modify h f → host.Moves w a h (f host) →
      (∃ node incarnation drainable, a = .boot node incarnation drainable) ∨ w'.hosts = w.hosts ∨
      ∃ h host host', w.hosts[h]? = some host ∧ host.alive = true ∧ host.Moves w a h host' ∧
        w'.hosts = w.hosts.modify h fun _ => host' :=
    fun found alive changed moves =>
      .inr (.inr ⟨_, _, _, found, alive, moves, changed.trans (modify_const found)⟩)
  cases a with
  | boot node incarnation drainable => exact .inl ⟨node, incarnation, drainable, rfl⟩
  | crash h =>
    obtain ⟨host, found, alive, _⟩ := World.up_iff.mp enabled
    exact moved found alive rfl (.flags false host.stopping (.inl rfl))
  | shutdown h =>
    obtain ⟨host, found, alive, _⟩ := World.up_iff.mp enabled
    exact moved found alive rfl (.flags host.alive true (.inr rfl))
  | reserve h name opts =>
    obtain ⟨host, found, alive, _⟩ := World.up_iff.mp enabled
    simp only [World.next, World.withHost, found]
    split
    · next host' ref reserved => exact moved found alive rfl (.reserve name opts host' ref reserved)
    · exact .inr (.inl rfl)
  | handle h j entry =>
    obtain ⟨host, found, alive, known⟩ := World.up_iff.mp enabled
    obtain ⟨svc, there, _⟩ := at_iff.mp known
    exact moved found alive rfl (.adjust j svc _ there (.register entry))
  | start h j =>
    obtain ⟨host, found, alive, known⟩ := World.up_iff.mp enabled
    obtain ⟨svc, there, reserved⟩ := at_iff.mp known
    refine moved found alive rfl ?_
    simp only [there]
    exact .start j svc rfl there reserved
  | stop h j =>
    obtain ⟨host, found, alive, known⟩ := World.up_iff.mp enabled
    obtain ⟨svc, there, _⟩ := at_iff.mp known
    refine moved found alive rfl ?_
    simp only [there]
    exact .stop j svc rfl there
  | beginFinalize h j kind =>
    obtain ⟨host, found, alive, known⟩ := World.up_iff.mp enabled
    obtain ⟨svc, there, requested⟩ := at_iff.mp known
    exact moved found alive rfl (.adjust j svc _ there (.beginFinalize kind requested))
  | unpublish h j =>
    obtain ⟨host, found, alive, known⟩ := World.up_iff.mp enabled
    obtain ⟨svc, there, finalizing⟩ := at_iff.mp known
    exact moved found alive rfl (.adjust j svc _ there (.unpublish finalizing))
  | retire h j =>
    obtain ⟨host, found, alive, known⟩ := World.up_iff.mp enabled
    obtain ⟨svc, there, finalizing, unpublished⟩ := at_iff.mp known
    exact moved found alive rfl (.adjust j svc _ there (.retire finalizing unpublished))
  | internal h a =>
    obtain ⟨inner, known, _⟩ := enabled
    obtain ⟨host, found, alive, allowed⟩ := World.up_iff.mp known
    exact moved found alive rfl (.system a ⟨rfl, rfl, inner⟩ allowed)
  | allocate o j k c =>
    obtain ⟨op, here, _, _, known⟩ := at_iff.mp enabled
    obtain ⟨host, found, alive, _, _, allowed⟩ := World.up_iff.mp known
    simp only [World.next, World.withOp, here]
    exact moved found alive rfl (.system _ (at_iff.mpr ⟨op, here, rfl, rfl⟩) allowed)
  | admitCall o j k c id =>
    obtain ⟨op, here, _, known⟩ := at_iff.mp enabled
    obtain ⟨host, found, alive, _, _, allowed⟩ := World.up_iff.mp known
    simp only [World.next, World.withOp, here]
    exact moved found alive rfl (.system _ (at_iff.mpr ⟨op, here, rfl, rfl⟩) allowed)
  | submit o j k id =>
    obtain ⟨op, here, _, _, known⟩ := at_iff.mp enabled
    obtain ⟨host, found, alive, _, _, allowed⟩ := World.up_iff.mp known
    simp only [World.next, World.withOp, here]
    exact moved found alive rfl (.system _ (at_iff.mpr ⟨op, here, rfl, rfl⟩) allowed)
  | resolve | resolveRemote | begin | lookup | check | transmit | deliver =>
    right
    left
    simp only [World.next, World.withHost, World.withOp]
    (repeat' split) <;> rfl
  | yieldRefused | finish | reply | abandon => exact .inr (.inl rfl)

structure Service.Later (svc svc' : Service) : Prop where
  name : svc'.name = svc.name
  address : svc'.address = svc.address
  generation : svc'.generation = svc.generation
  opts : svc'.opts = svc.opts
  mailbox : ∀ k, svc.mailbox = some k → svc'.mailbox = some k
  published : svc'.published = true → svc.published = true

theorem Service.Later.refl (svc : Service) : svc.Later svc :=
  ⟨rfl, rfl, rfl, rfl, fun _ known => known, fun known => known⟩

structure Host.Later (host host' : Host Msg) : Prop where
  node : host'.node = host.node
  incarnation : host'.incarnation = host.incarnation
  services : Grows Service.Later host.services host'.services
  system : host.system.Later host'.system

theorem Host.Later.refl (host : Host Msg) : host.Later host :=
  ⟨rfl, rfl, .refl .refl _, .refl _⟩

/-- The registry invariant of host `h`: services are numbered in order, published names are
unique, and every mailbox runs one service. -/
structure Host.Registered (h : Nat) (host : Host Msg) : Prop where
  reached : ∃ drainable, (System.machine Msg).Reachable (System.fresh h drainable) host.system
  counters : host.nextAddress = host.services.length ∧ host.nextGeneration = host.services.length
  numbered : ∀ (j : Nat) (svc : Service), host.services[j]? = some svc → svc.address = j + 1 ∧
    svc.generation = j + 1 ∧ svc.opts.withDefaults = svc.opts
  named : ∀ (i j : Nat) (first second : Service), host.services[i]? = some first →
    host.services[j]? = some second → first.published = true → second.published = true →
    first.name = second.name → i = j
  mailbox : ∀ (j : Nat) (svc : Service) (k : Nat), host.services[j]? = some svc → svc.mailbox = some k →
    ∃ m, host.system.mailboxes[k]? = some m ∧ m.name = svc.name ∧ m.opts = svc.opts
  owned : ∀ k < host.system.mailboxes.length, ∃ (j : Nat) (svc : Service),
    host.services[j]? = some svc ∧ svc.mailbox = some k
  owner : ∀ (i j : Nat) (first second : Service) (k : Nat), host.services[i]? = some first →
    host.services[j]? = some second → first.mailbox = some k → second.mailbox = some k → i = j
  reserved : ∀ (j : Nat) (svc : Service), host.services[j]? = some svc → svc.state = .reserved →
    svc.mailbox = none

theorem Service.Adjusts.same {svc svc' : Service} (adjusts : svc.Adjusts host svc') :
    svc.Later svc' ∧ svc'.mailbox = svc.mailbox ∧ (svc'.state = .reserved → svc.state = .reserved) := by
  cases adjusts with
  | register entry =>
    unfold Service.register
    split <;> exact ⟨⟨rfl, rfl, rfl, rfl, fun _ known => known, fun known => known⟩, rfl, fun known => known⟩
  | beginFinalize kind =>
    exact ⟨⟨rfl, rfl, rfl, rfl, fun _ known => known, fun known => known⟩, rfl, fun known => known⟩
  | unpublish => exact ⟨⟨rfl, rfl, rfl, rfl, fun _ known => known, nofun⟩, rfl, fun known => known⟩
  | retire => exact ⟨⟨rfl, rfl, rfl, rfl, fun _ known => known, fun known => known⟩, rfl, nofun⟩

theorem Service.stop_same (svc : Service) :
    svc.Later svc.stop ∧ svc.stop.mailbox = svc.mailbox ∧ (svc.stop.state = .reserved → svc.state = .reserved) := by
  unfold Service.stop
  split
  · exact ⟨.refl svc, rfl, fun known => known⟩
  · exact ⟨⟨rfl, rfl, rfl, rfl, fun _ known => known, fun known => known⟩, rfl, fun known => known⟩
  · exact ⟨⟨rfl, rfl, rfl, rfl, fun _ known => known, fun known => known⟩, rfl, nofun⟩
  · exact ⟨⟨rfl, rfl, rfl, rfl, fun _ known => known, fun known => known⟩, rfl, fun known => known⟩

namespace Host.Registered

variable (registered : host.Registered h)
include registered

theorem coordinated : host.system.Coordinated := by
  obtain ⟨_, reached⟩ := registered.reached
  exact System.reachable_coordinated reached

theorem healthy : host.system.Healthy := by
  obtain ⟨_, reached⟩ := registered.reached
  exact System.reachable_healthy reached

theorem keep (counters : host'.nextAddress = host.nextAddress ∧ host'.nextGeneration = host.nextGeneration)
    (length : host'.services.length = host.services.length)
    (same : ∀ (i : Nat) (svc' : Service), host'.services[i]? = some svc' → ∃ svc, host.services[i]? = some svc ∧
      svc.Later svc' ∧ svc'.mailbox = svc.mailbox ∧ (svc'.state = .reserved → svc.state = .reserved))
    (reached : ∃ drainable, (System.machine Msg).Reachable (System.fresh h drainable) host'.system)
    (later : host.system.Later host'.system)
    (mailboxes : host'.system.mailboxes.length = host.system.mailboxes.length) : host'.Registered h where
  reached := reached
  counters := by
    rw [counters.1, counters.2, length]
    exact registered.counters
  numbered i svc' there := by
    obtain ⟨svc, was, kept, _⟩ := same i svc' there
    obtain ⟨address, generation, opts⟩ := registered.numbered i svc was
    exact ⟨kept.address.trans address, kept.generation.trans generation, by rw [kept.opts]; exact opts⟩
  named i i' first second there there' published published' alike := by
    obtain ⟨old, was, kept, _⟩ := same i first there
    obtain ⟨old', was', kept', _⟩ := same i' second there'
    exact registered.named i i' old old' was was' (kept.published published) (kept'.published published')
      (kept.name.symm.trans (alike.trans kept'.name))
  mailbox i svc' k there runs := by
    obtain ⟨svc, was, kept, box, _⟩ := same i svc' there
    obtain ⟨m, known, name, opts⟩ := registered.mailbox i svc k was (box.symm.trans runs)
    obtain ⟨m', known', name', opts', _⟩ := later.mailboxes k m known
    exact ⟨m', known', by rw [name', name, kept.name], by rw [opts', opts, kept.opts]⟩
  owned k inside := by
    obtain ⟨i, svc, was, runs⟩ := registered.owned k (mailboxes ▸ inside)
    have there : i < host'.services.length := length ▸ lookup_lt was
    obtain ⟨_, was', _, box, _⟩ := same i _ (List.getElem?_eq_getElem there)
    rw [was] at was'
    cases was'
    exact ⟨i, _, List.getElem?_eq_getElem there, box.trans runs⟩
  owner i i' first second k there there' runs runs' := by
    obtain ⟨old, was, _, box, _⟩ := same i first there
    obtain ⟨old', was', _, box', _⟩ := same i' second there'
    exact registered.owner i i' old old' k was was' (box.symm.trans runs) (box'.symm.trans runs')
  reserved i svc' there state := by
    obtain ⟨svc, was, _, box, kept⟩ := same i svc' there
    exact box.trans (registered.reserved i svc was (kept state))

omit registered in
theorem change {j : Nat} {svc : Service} {f : Service → Service} (found : host.services[j]? = some svc)
    (kept : svc.Later (f svc) ∧ (f svc).mailbox = svc.mailbox ∧
      ((f svc).state = .reserved → svc.state = .reserved)) (i : Nat) (svc' : Service)
    (there : (host.services.modify j f)[i]? = some svc') : ∃ svc, host.services[i]? = some svc ∧
      svc.Later svc' ∧ svc'.mailbox = svc.mailbox ∧ (svc'.state = .reserved → svc.state = .reserved) := by
  rcases lookup_modify there with ⟨rfl, old, was, rfl⟩ | ⟨_, was⟩
  · rw [found] at was
    cases was
    exact ⟨svc, found, kept⟩
  · exact ⟨svc', was, .refl svc', rfl, fun known => known⟩

end Host.Registered

structure Host.Reaches (h : Nat) (host : Host Msg) (s : System Msg) : Prop where
  reached : ∃ drainable, (System.machine Msg).Reachable (System.fresh h drainable) s
  later : host.system.Later s

theorem Host.Reaches.next {s : System Msg} {a : SystemAction Msg} (reaches : host.Reaches h s)
    (enabled : System.Enabled s a) : host.Reaches h (System.next s a) := by
  obtain ⟨drainable, reached⟩ := reaches.reached
  refine ⟨⟨drainable, reached.next enabled⟩, reaches.later.trans ?_⟩
  exact System.later_next (System.reachable_coordinated reached) enabled

namespace Host.Registered

variable (registered : host.Registered h)
include registered

theorem reaches : host.Reaches h host.system := ⟨registered.reached, .refl _⟩

theorem moves_reserve {name : String} {opts : ServiceOptions} {ref : Ref}
    (reserved : host.reserve h name opts = .ok (host', ref)) :
    host'.Registered h ∧ host.Later host' := by
  unfold Host.reserve at reserved
  split_ifs at reserved with _ _ taken
  cases reserved
  have unused : ∀ svc ∈ host.services, svc.published = true → svc.name ≠ name := by
    simpa [Host.byName] using taken
  obtain ⟨address, generation⟩ := registered.counters
  refine ⟨⟨registered.reached, ?_, ?_, ?_, ?_, ?_, ?_, ?_⟩, ⟨rfl, rfl, .append .refl _, .refl _⟩⟩
  · simp [address, generation]
  · exact forall_append registered.numbered
      ⟨by simp [address], by simp [generation], opts.withDefaults_settled.1⟩
  · intro i j first second there there' published published' same
    refine unique_append (R := fun a b => a.published = true ∧ b.published = true ∧ a.name = b.name)
      (fun _ _ both => ⟨both.2.1, both.1, both.2.2.symm⟩) (fun i j a b old old' both => ?_) (fun a member both => ?_)
      there there' ⟨published, published', same⟩
    · exact registered.named i j a b old old' both.1 both.2.1 both.2.2
    · exact unused a member both.1 both.2.2
  · intro j svc k there runs
    rcases lookup_append there with old | ⟨_, rfl⟩
    · exact registered.mailbox j svc k old runs
    · cases runs
  · intro k inside
    obtain ⟨j, svc, old, runs⟩ := registered.owned k inside
    exact ⟨j, svc, lookup_append_old old, runs⟩
  · intro i j first second k there there' runs runs'
    rcases lookup_append there with old | ⟨_, rfl⟩ <;> rcases lookup_append there' with old' | ⟨_, rfl⟩
    · exact registered.owner i j first second k old old' runs runs'
    · cases runs'
    · cases runs
    · cases runs
  · exact forall_append registered.reserved fun _ => rfl

/-- The runtime that `Start` makes is the new mailbox, whether or not its context is canceled. -/
theorem start_system (svc : Service) {j : Nat} : host.Reaches h (host.start j svc).system ∧
    (host.start j svc).system.mailboxes.length = host.system.mailboxes.length + 1 ∧
    ∃ m, (host.start j svc).system.mailboxes[host.system.mailboxes.length]? = some m ∧ m.name = svc.name ∧
      m.opts = svc.opts.withDefaults := by
  have started := registered.reaches.next (a := .start svc.name svc.opts) trivial
  have last : (System.next host.system (.start svc.name svc.opts)).mailboxes[host.system.mailboxes.length]? =
      some (.start svc.name svc.opts host.system.drainable) := by
    simp [System.next]
  simp only [Host.start]
  split
  · have enabled := System.cancel_enabled (lookup_lt last)
    refine ⟨started.next enabled, ?_, ?_⟩
    · rw [System.mailboxes_length enabled nofun]
      simp [System.next]
    · obtain ⟨m, there, name, opts, _⟩ := System.mailbox_next enabled last
      exact ⟨m, there, name, opts⟩
  · exact ⟨started, by simp [System.next], _, last, rfl, rfl⟩

theorem moves_start {j : Nat} {svc : Service} (found : host.services[j]? = some svc)
    (reserved : svc.state = .reserved) :
    (host.start j svc).Registered h ∧ host.Later (host.start j svc) := by
  obtain ⟨reaches, length, m, there, name, opts⟩ := registered.start_system svc (j := j)
  have idle := registered.reserved j svc found reserved
  have grows : Grows Service.Later host.services (host.start j svc).services := by
    refine .modify .refl j fun old was => ⟨rfl, rfl, rfl, rfl, fun k runs => ?_, fun known => known⟩
    rw [found] at was
    cases was
    rw [idle] at runs
    cases runs
  -- a service of the host is the started one, with the new mailbox, or an old one
  have cases_ : ∀ {i : Nat} {svc' : Service}, (host.start j svc).services[i]? = some svc' →
      (i = j ∧ svc' = { svc with state := .running, mailbox := some host.system.mailboxes.length }) ∨
      (i ≠ j ∧ host.services[i]? = some svc') := by
    intro i svc' here
    rcases lookup_modify here with ⟨rfl, old, was, rfl⟩ | old
    · rw [found] at was
      cases was
      exact .inl ⟨rfl, rfl⟩
    · exact .inr old
  have older : ∀ {i : Nat} {svc' : Service} {k : Nat}, host.services[i]? = some svc' → svc'.mailbox = some k →
      k < host.system.mailboxes.length := by
    intro i svc' k here runs
    obtain ⟨_, box, _⟩ := registered.mailbox i svc' k here runs
    exact lookup_lt box
  refine ⟨⟨reaches.reached, ?_, ?_, ?_, ?_, ?_, ?_, ?_⟩, ⟨rfl, rfl, grows, reaches.later⟩⟩
  · simpa [Host.start] using registered.counters
  · intro i svc' here
    rcases cases_ here with ⟨rfl, rfl⟩ | ⟨_, old⟩
    · exact registered.numbered i svc found
    · exact registered.numbered i svc' old
  · intro i i' first second here here' published published' same
    rcases cases_ here with ⟨rfl, rfl⟩ | ⟨_, old⟩ <;> rcases cases_ here' with ⟨rfl, rfl⟩ | ⟨_, old'⟩
    · rfl
    · exact registered.named i i' svc second found old' published published' same
    · exact registered.named i i' first svc old found published published' same
    · exact registered.named i i' first second old old' published published' same
  · intro i svc' k here runs
    rcases cases_ here with ⟨rfl, rfl⟩ | ⟨_, old⟩
    · cases runs
      exact ⟨m, there, name, opts.trans (registered.numbered i svc found).2.2⟩
    · obtain ⟨m, box, name, opts⟩ := registered.mailbox i svc' k old runs
      obtain ⟨m', box', name', opts', _⟩ := reaches.later.mailboxes k m box
      exact ⟨m', box', name'.trans name, opts'.trans opts⟩
  · intro k inside
    by_cases last : k = host.system.mailboxes.length
    · exact ⟨j, _, lookup_modify_self found, by rw [last]⟩
    · obtain ⟨i, svc', old, runs⟩ := registered.owned k (by omega)
      obtain ⟨svc'', here, kept⟩ := grows i svc' old
      exact ⟨i, svc'', here, kept.mailbox k runs⟩
  · intro i i' first second k here here' runs runs'
    rcases cases_ here with ⟨rfl, rfl⟩ | ⟨_, old⟩ <;> rcases cases_ here' with ⟨rfl, rfl⟩ | ⟨_, old'⟩
    · rfl
    · cases runs
      exact absurd (older old' runs') (Nat.lt_irrefl _)
    · cases runs'
      exact absurd (older old runs) (Nat.lt_irrefl _)
    · exact registered.owner i i' first second k old old' runs runs'
  · intro i svc' here state
    rcases cases_ here with ⟨rfl, rfl⟩ | ⟨_, old⟩
    · cases state
    · exact registered.reserved i svc' old state

theorem moves_stop {j : Nat} {svc : Service} (found : host.services[j]? = some svc) :
    (host.stop j svc).Registered h ∧ host.Later (host.stop j svc) := by
  have system : host.Reaches h (host.stop j svc).system ∧
      (host.stop j svc).system.mailboxes.length = host.system.mailboxes.length := by
    simp only [Host.stop]
    split
    · next k _ runs =>
      obtain ⟨_, box, _⟩ := registered.mailbox j svc k found runs
      have enabled := System.cancel_enabled (lookup_lt box)
      exact ⟨registered.reaches.next enabled, System.mailboxes_length enabled nofun⟩
    · exact ⟨registered.reaches, rfl⟩
  have kept := svc.stop_same
  refine ⟨registered.keep ⟨rfl, rfl⟩ (List.length_modify ..) (change found kept) system.1.reached system.1.later
    system.2, ⟨rfl, rfl, ?_, system.1.later⟩⟩
  refine .modify .refl j fun old was => ?_
  rw [found] at was
  cases was
  exact kept.1

theorem moves {a : WorldAction Msg} (moves : host.Moves w a h host') : host'.Registered h ∧ host.Later host' := by
  cases moves with
  | flags alive stopping =>
    exact ⟨registered.keep ⟨rfl, rfl⟩ rfl (fun _ svc there => ⟨svc, there, .refl svc, rfl, fun known => known⟩)
      registered.reached (.refl _) rfl, ⟨rfl, rfl, .refl .refl _, .refl _⟩⟩
  | reserve name opts host' ref reserved => exact registered.moves_reserve reserved
  | adjust j svc f found adjusts =>
    refine ⟨registered.keep ⟨rfl, rfl⟩ (List.length_modify ..) (change found adjusts.same) registered.reached
      (.refl _) rfl, ⟨rfl, rfl, ?_, .refl _⟩⟩
    refine .modify .refl j fun old was => ?_
    rw [found] at was
    cases was
    exact adjusts.same.1
  | start j svc _ found reserved => exact registered.moves_start found reserved
  | stop j svc _ found => exact registered.moves_stop found
  | system act drives enabled =>
    have reaches := registered.reaches.next enabled
    exact ⟨registered.keep ⟨rfl, rfl⟩ rfl (fun _ svc there => ⟨svc, there, .refl svc, rfl, fun known => known⟩)
      reaches.reached reaches.later (System.mailboxes_length enabled drives.other),
      ⟨rfl, rfl, .refl .refl _, reaches.later⟩⟩

end Host.Registered

/-- A move of a host takes its system through steps that keep `P`. The step the world drives comes
first. -/
theorem Host.Registered.system_rule {P : System Msg → Prop} (registered : host.Registered h)
    (moves : host.Moves w a h host')
    (keeps : ∀ (s : System Msg) (act : SystemAction Msg), s.Healthy → System.Enabled s act →
      w.Causes a h act → (w.Drives h act a → s = host.system) → P s → P (System.next s act))
    (holds : P host.system) : P host'.system := by
  have healthy := registered.healthy
  cases moves with
  | flags => exact holds
  | reserve name opts host' ref reserved =>
    unfold Host.reserve at reserved
    split_ifs at reserved
    cases reserved
    exact holds
  | adjust => exact holds
  | start j svc starts found reserved =>
    subst starts
    have started := keeps _ (.start svc.name svc.opts) healthy trivial (.inr (.inl ⟨_, _, rfl⟩)) nofun holds
    simp only [Host.start]
    split
    · refine keeps _ _ (System.healthy_next healthy _ trivial) (System.cancel_enabled ?_)
        (.inr (.inr ⟨_, rfl⟩)) nofun started
      simp [System.next]
    · exact started
  | stop j svc _ found =>
    simp only [Host.stop]
    split
    · next k _ runs =>
      obtain ⟨_, box, _⟩ := registered.mailbox j svc k found runs
      exact keeps _ _ healthy (System.cancel_enabled (lookup_lt box)) (.inr (.inr ⟨_, rfl⟩)) (fun _ => rfl) holds
    · exact holds
  | system act drives enabled => exact keeps _ act healthy enabled (.inl drives) (fun _ => rfl) holds

namespace World

structure Ordered (w : World Msg) : Prop where
  registered : ∀ (h : Nat) (host : Host Msg), w.hosts[h]? = some host → host.Registered h
  incarnations : ∀ (h h' : Nat) (host host' : Host Msg), w.hosts[h]? = some host → w.hosts[h']? = some host' →
    host.incarnation = host'.incarnation → h = h'
  nodes : ∀ (h h' : Nat) (host host' : Host Msg), w.hosts[h]? = some host → w.hosts[h']? = some host' →
    host.alive = true → host'.alive = true → host.node = host'.node → h = h'

theorem registered_fresh (h : Nat) (node : String) (incarnation : Nat) (drainable : Bool) :
    Host.Registered h { node := node, incarnation := incarnation, system := System.fresh h drainable : Host Msg } where
  reached := ⟨drainable, .refl _⟩
  counters := ⟨rfl, rfl⟩
  numbered _ _ there := by simp at there
  named _ _ _ _ there := by simp at there
  mailbox _ _ _ there := by simp at there
  owned k inside := absurd inside (Nat.not_lt_zero k)
  owner _ _ _ _ _ there := by simp at there
  reserved _ _ there := by simp at there

theorem Ordered.boot (ordered : w.Ordered) {node : String} {incarnation : Nat} {drainable : Bool}
    (enabled : Enabled w (.boot node incarnation drainable)) :
    (w.next (.boot node incarnation drainable)).Ordered := by
  refine ⟨fun h host there => ?_, fun h h' host host' there there' same => ?_,
    fun h h' host host' there there' alive alive' same => ?_⟩
  · exact forall_append ordered.registered (registered_fresh ..) h host there
  · exact unique_append (R := fun a b => a.incarnation = b.incarnation) (fun _ _ => Eq.symm) ordered.incarnations enabled.1 there there' same
  · refine unique_append (R := fun a b => a.alive = true ∧ b.alive = true ∧ a.node = b.node)
      (fun _ _ both => ⟨both.2.1, both.1, both.2.2.symm⟩) (fun i j a b old old' both => ?_) (fun a member both => ?_)
      there there' ⟨alive, alive', same⟩
    · exact ordered.nodes i j a b old old' both.1 both.2.1 both.2.2
    · exact enabled.2 a member both.1 both.2.2

theorem Ordered.moves (ordered : w.Ordered) {w' : World Msg} (found : w.hosts[h]? = some host)
    (alive : host.alive = true) {a : WorldAction Msg} (moves : host.Moves w a h host')
    (changed : w'.hosts = w.hosts.modify h fun _ => host') : w'.Ordered := by
  obtain ⟨registered, later⟩ := (ordered.registered h host found).moves moves
  -- each host is where it was, on the same node, and up only if it was up
  have back : ∀ {i : Nat} {there : Host Msg}, w'.hosts[i]? = some there → ∃ old, w.hosts[i]? = some old ∧
      there.Registered i ∧ there.incarnation = old.incarnation ∧ there.node = old.node ∧
      (there.alive = true → old.alive = true) := by
    intro i there known
    rw [changed] at known
    rcases lookup_modify known with ⟨rfl, _, _, rfl⟩ | ⟨_, was⟩
    · exact ⟨host, found, registered, later.incarnation, later.node, fun _ => alive⟩
    · exact ⟨there, was, ordered.registered i there was, rfl, rfl, fun up => up⟩
  refine ⟨fun i there known => ?_, fun i i' there there' known known' same => ?_,
    fun i i' there there' known known' up up' same => ?_⟩
  · obtain ⟨_, _, registered, _⟩ := back known
    exact registered
  · obtain ⟨old, was, _, incarnation, _⟩ := back known
    obtain ⟨old', was', _, incarnation', _⟩ := back known'
    exact ordered.incarnations i i' old old' was was' (incarnation.symm.trans (same.trans incarnation'))
  · obtain ⟨old, was, _, _, node, above⟩ := back known
    obtain ⟨old', was', _, _, node', above'⟩ := back known'
    exact ordered.nodes i i' old old' was was' (above up) (above' up') (node.symm.trans (same.trans node'))

theorem ordered_next (ordered : w.Ordered) {a : WorldAction Msg} (enabled : Enabled w a) : (w.next a).Ordered := by
  rcases hosts_next enabled with ⟨node, incarnation, drainable, rfl⟩ | same | ⟨h, host, host', found, alive, moves, changed⟩
  · exact ordered.boot enabled
  · exact ⟨by rw [same]; exact ordered.registered, by rw [same]; exact ordered.incarnations,
      by rw [same]; exact ordered.nodes⟩
  · exact ordered.moves found alive moves changed

theorem reachable_ordered (reached : (machine Msg).Reachable {} w) : w.Ordered := by
  refine reached.invariant ⟨?_, ?_, ?_⟩ fun _ _ ordered enabled => ordered_next ordered enabled
  · intro h host there
    simp at there
  · intro h h' host host' there
    simp at there
  · intro h h' host host' there
    simp at there

theorem hosts_later (ordered : w.Ordered) {a : WorldAction Msg} (enabled : Enabled w a) :
    Grows Host.Later w.hosts (w.next a).hosts := by
  rcases hosts_next enabled with ⟨node, incarnation, drainable, rfl⟩ | same | ⟨h, host, host', found, _, moves, changed⟩
  · exact .append .refl _
  · rw [same]
    exact .refl .refl _
  · rw [changed]
    refine .modify .refl h fun old was => ?_
    rw [found] at was
    cases was
    exact ((ordered.registered h host found).moves moves).2

theorem system_next {P : System Msg → Prop} {a : WorldAction Msg} (ordered : w.Ordered) (enabled : Enabled w a)
    (keeps : ∀ (s : System Msg) (act : SystemAction Msg), s.Healthy → System.Enabled s act →
      w.Causes a h act → (w.Drives h act a → s = host.system) → P s → P (System.next s act))
    (found : w.hosts[h]? = some host) (holds : P host.system) :
    ∃ host', (w.next a).hosts[h]? = some host' ∧ P host'.system := by
  rcases hosts_next enabled with ⟨node, incarnation, drainable, rfl⟩ | same | ⟨i, _, host', known, _, moves, changed⟩
  · exact ⟨host, lookup_append_old found, holds⟩
  · exact ⟨host, by rw [same]; exact found, holds⟩
  · by_cases here : i = h
    · subst here
      rw [found] at known
      cases known
      refine ⟨host', by rw [changed, lookup_modify_self found], ?_⟩
      exact (ordered.registered i host found).system_rule moves keeps holds
    · refine ⟨host, ?_, holds⟩
      rw [changed, List.getElem?_modify_ne _ _ here]
      exact found

end World

end Skygo.Cluster
