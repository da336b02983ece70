import Skygo.Transport.NodePeers

/-! Where the live peers are, and which step of `peerFor` loses one. -/

set_option autoImplicit false

attribute [-instance] instBooleanRingBool

namespace Skygo.Transport

open Semantics

namespace Node

variable {s : Node} {a j k f w : Nat} {endpoint : String}

structure Tidy (s : Node) : Prop where
  closing : ∀ (j : Nat) (slot : PeerSlot), s.slots[j]? = some slot → slot.state = .closing →
    slot.endpoint = "" ∨ slot.connecting = none
  handed : ∀ k, s.Handed k → k < s.peers.length

theorem Sound.lodged_lt (sound : s.Sound) {slot : PeerSlot} (lies : s.slots[j]? = some slot) (held : slot.peer = some k) :
    k < s.peers.length := by
  obtain ⟨_, found, _⟩ := at_iff.mp (sound.slots j slot lies k held)
  exact lookup_lt found

section Tidy

variable {t : Node} {action : Action}

theorem closing_next (tidy : s.Tidy) (steps : s.Steps action t) (j : Nat) (later : PeerSlot)
    (after : t.slots[j]? = some later) (closing : later.state = .closing) : later.endpoint = "" ∨ later.connecting = none := by
  rcases slot_origin steps after with ⟨slot, lies, moves⟩ | ⟨-, node, rfl⟩
  · have before := tidy.closing j slot lies
    clear tidy
    cases moves <;> grind
  · cases closing

theorem hands_next (enabled : s.Enabled action) (steps : s.Steps action t)
    (held : At t.attempts a fun attempt => attempt.place = .dialed (some k) ∨ attempt.place = .discarding (some k)) :
    (At s.attempts a fun attempt => attempt.place = .dialed (some k) ∨ attempt.place = .discarding (some k)) ∨
      k < t.peers.length := by
  obtain ⟨later, has, place⟩ := at_iff.mp held
  rcases attempt_origin enabled steps has with ⟨attempt, was, moves⟩ | made
  · cases moves <;> grind
  · cases made
    simp at place

theorem lists_next (enabled : s.Enabled action) (steps : s.Steps action t)
    (listed : At t.sweeps w fun sweep => k ∈ sweep.peers) :
    (At s.sweeps w fun sweep => k ∈ sweep.peers) ∨ ∃ (j : Nat) (slot : PeerSlot), s.slots[j]? = some slot ∧ slot.peer = some k := by
  obtain ⟨later, has, member⟩ := at_iff.mp listed
  rcases sweep_origin enabled steps has with ⟨sweep, was, moves⟩ | ⟨-, called⟩
  · cases moves with
    | detaches j todo peers conns slot place _ lies =>
      rcases List.mem_append.mp member with old | mine
      · exact .inl (at_iff.mpr ⟨sweep, was, by simpa [Sweep.peers, place] using old⟩)
      · exact .inr ⟨j, slot, lies, Option.mem_toList.mp mine⟩
    | _ => grind
  · simp [Sweep.peers, called] at member

theorem tidy_next (sound : s.Sound) (tidy : s.Tidy) (enabled : s.Enabled action) : (s.next action).Tidy where
  closing := closing_next tidy (next_steps s action)
  handed k handed := by
    have steps := next_steps s action
    have grows := (sizes_next steps).2.2.2.1
    rcases handed with ⟨a, held⟩ | ⟨w, listed⟩
    · rcases hands_next enabled steps held with was | below
      · exact Nat.lt_of_lt_of_le (tidy.handed k (.inl ⟨a, was⟩)) grows
      · exact below
    · rcases lists_next enabled steps listed with was | ⟨j, slot, lies, held⟩
      · exact Nat.lt_of_lt_of_le (tidy.handed k (.inr ⟨w, was⟩)) grows
      · exact Nat.lt_of_lt_of_le (sound.lodged_lt lies held) grows

end Tidy

theorem turn_returns {expired : Bool} (enabled : s.Enabled (.turn f j endpoint expired))
    (returns : (s.next (.turn f j endpoint expired)).FindAt f (.returned (some k))) :
    At s.slots j fun slot => slot.peer = some k ∧
      At s.peers k fun handle => handle.closed = false ∧ handle.endpoint = endpoint := by
  have steps := next_steps s (.turn f j endpoint expired)
  generalize s.next (.turn f j endpoint expired) = t at *
  cases steps <;> grind

theorem turn_gives (expired : Bool) {find : PeerFor} {slot : PeerSlot} (found : s.finds[f]? = some find)
    (lies : s.slots[j]? = some slot) (held : slot.peer = some k)
    (live : At s.peers k fun handle => handle.closed = false ∧ handle.endpoint = endpoint) :
    (s.next (.turn f j endpoint expired)).FindAt f (.returned (some k)) := by
  have gives : slot.peer.filter (fun k => At s.peers k fun handle => handle.closed = false ∧ handle.endpoint = endpoint) =
      some k := Option.filter_eq_some_iff.mpr ⟨held, by simpa using live⟩
  simp only [next, found, lies, turn, gives]
  exact at_iff.mpr ⟨_, lookup_modify_self found, rfl⟩

/-- What is promised of the outbound peers. -/
structure Accounted (s : Node) : Prop where
  /-- A live peer is that of a slot of the manager, or in hand. -/
  placed : ∀ k, (At s.peers k fun handle => handle.closed = false) →
    (∃ j, At s.slots j fun slot => slot.peer = some k ∧ j ∈ s.manager slot.node ∧
      At s.peers k fun handle => handle.remoteNode = slot.node) ∨ s.Handed k
  /-- `peerFor` returns a peer of the node's endpoint, or of one that a `Reload` is just replacing. -/
  current : ∀ f j endpoint expired k, s.Enabled (.turn f j endpoint expired) →
    (s.next (.turn f j endpoint expired)).FindAt f (.returned (some k)) →
    At s.peers k fun handle => (At s.finds f fun find => handle.remoteNode = find.node) ∧
      (s.registry.endpoint handle.remoteNode = handle.endpoint ∨
        ∃ w, At s.sweeps w fun sweep => sweep.Replaces handle.remoteNode handle.endpoint)
  /-- After `closeAll`, a live peer is with a goroutine that will close it. -/
  closing : (∃ w, At s.sweeps w Sweep.Swept) → ∀ k, (At s.peers k fun handle => handle.closed = false) →
    (∃ w, At s.sweeps w fun sweep => k ∈ sweep.peers) ∨
      ∃ a, At s.attempts a fun attempt => attempt.place = .discarding (some k) ∨
        attempt.place = .dialed (some k) ∧ At s.slots attempt.slot fun slot => Discards a attempt slot = true

theorem Sound.accounted (sound : s.Sound) : s.Accounted where
  placed k live := by
    obtain ⟨handle, found, live⟩ := at_iff.mp live
    rcases sound.placed k handle found live with ⟨j, lodged⟩ | handed
    · obtain ⟨slot, lies, held⟩ := at_iff.mp lodged
      obtain ⟨-, same, owned⟩ := (sound.slots j slot lies k held).here found
      exact .inl ⟨j, at_iff.mpr ⟨slot, lies, held, owned.1, at_iff.mpr ⟨handle, found, same⟩⟩⟩
    · exact .inr handed
  current f j endpoint expired k enabled returns := by
    obtain ⟨slot, lies, held, known⟩ := at_iff.mp (turn_returns enabled returns)
    obtain ⟨handle, found, -, same⟩ := at_iff.mp known
    obtain ⟨find, there, _, _, on⟩ := sound.find_at enabled
    obtain ⟨-, remote, owned⟩ := (sound.slots j slot lies k held).here found
    refine at_iff.mpr ⟨handle, found, at_iff.mpr ⟨find, there, remote.trans (on.here lies)⟩, ?_⟩
    rw [remote]
    exact owned.2.2.2
  closing swept k live := by
    obtain ⟨w, swept⟩ := swept
    obtain ⟨sweep, has, swept⟩ := at_iff.mp swept
    obtain ⟨handle, found, live⟩ := at_iff.mp live
    -- No slot has a peer any more, and none is about to get one.
    have taken : ∀ {j node endpoint}, ¬ s.Owned j node endpoint := fun owned => swept.takes (owned.2.1 w sweep has)
    rcases sound.placed k handle found live with ⟨j, lodged⟩ | ⟨a, hands⟩ | listed
    · obtain ⟨slot, lies, held⟩ := at_iff.mp lodged
      exact absurd ((sound.slots j slot lies k held).here found).2.2 taken
    · refine .inr ⟨a, ?_⟩
      obtain ⟨attempt, there, dialed | discarding⟩ := at_iff.mp hands
      · obtain ⟨slot, lies, _, fits⟩ := at_iff.mp (sound.attempts a attempt there).2
        simp only [Fits, dialed] at fits
        refine at_iff.mpr ⟨attempt, there, .inr ⟨dialed, at_iff.mpr ⟨slot, lies, ?_⟩⟩⟩
        have differs : slot.endpoint ≠ attempt.endpoint := fun same => taken (fits.2.2.1 same)
        simp [Discards, differs]
      · exact at_iff.mpr ⟨attempt, there, .inl discarding⟩
    · exact .inl listed

def connected (s : Node) (f a : Nat) (attempt : Attempt) : Node :=
  { (((s.setFind f (.waiting attempt.slot attempt.endpoint a)).setAttempt a .announcing).setSlot attempt.slot fun slot =>
      { slot with connecting := none, peer := some s.peers.length, state := .ready, everConnected := true }) with
    peers := s.peers ++ [{ slot := attempt.slot, remoteNode := attempt.node, endpoint := attempt.endpoint }] }

theorem run_connected {attempt : Attempt} {slot : PeerSlot} (has : s.attempts[a]? = some attempt)
    (lies : s.slots[attempt.slot]? = some slot) (going : s.stopping = false)
    (enabled : s.Enabled (.launch f attempt.slot attempt.endpoint a)) (own : slot.connecting = some a)
    (matched : slot.endpoint = attempt.endpoint) (stays : slot.state ≠ .closing) :
    machine.run s [.launch f attempt.slot attempt.endpoint a, .dial a true, .settle a (some s.peers.length)] =
      some (s.connected f a attempt) := by
  let started := (s.setFind f (.waiting attempt.slot attempt.endpoint a)).setAttempt a .dialing
  let dialed : Node := { started.setAttempt a (.dialed (some s.peers.length)) with
    peers := s.peers ++ [{ slot := attempt.slot, remoteNode := attempt.node, endpoint := attempt.endpoint }] }
  have first : s.next (.launch f attempt.slot attempt.endpoint a) = started := by
    simp only [next, going]
    rfl
  have lookup : started.attempts[a]? = some { attempt with place := .dialing } := lookup_modify_self has
  have second : started.next (.dial a true) = dialed := by
    simp only [next, lookup]
    rfl
  have later : dialed.attempts[a]? = some { attempt with place := .dialed (some s.peers.length) } :=
    (lookup_modify_self lookup).trans rfl
  have keeps : Discards a { attempt with place := .dialed (some s.peers.length) } slot = false := by
    simp [Discards, own, matched, stays]
  have third : dialed.next (.settle a (some s.peers.length)) = s.connected f a attempt := by
    have there : dialed.slots[attempt.slot]? = some slot := lies
    simp only [next, later, there, settle, keeps]
    simp only [dialed, started, connected, setAttempt, setSlot, setFind, List.modify_modify_eq]
    rfl
  refine Machine.run_cons.mpr ⟨enabled, ?_⟩
  show machine.run (s.next (.launch f attempt.slot attempt.endpoint a)) _ = _
  rw [first]
  refine Machine.run_cons.mpr ⟨at_iff.mpr ⟨_, lookup, rfl⟩, ?_⟩
  show machine.run (started.next (.dial a true)) _ = _
  rw [second]
  refine Machine.run_cons.mpr ⟨at_iff.mpr ⟨_, later, rfl⟩, ?_⟩
  show machine.run (dialed.next (.settle a (some s.peers.length))) _ = _
  rw [third]
  rfl

section Connected

variable {attempt : Attempt} {slot : PeerSlot}

theorem connected_slot (lies : s.slots[attempt.slot]? = some slot) :
    At (s.connected f a attempt).slots attempt.slot fun slot => slot.peer = some s.peers.length :=
  at_iff.mpr ⟨_, lookup_modify_self lies, rfl⟩

theorem connected_peer (s : Node) (f a : Nat) (attempt : Attempt) :
    (s.connected f a attempt).peers[s.peers.length]? =
      some { slot := attempt.slot, remoteNode := attempt.node, endpoint := attempt.endpoint } :=
  List.getElem?_concat_length ..

theorem orphaned (sound : s.Sound) (tidy : s.Tidy) (has : s.attempts[a]? = some attempt)
    (lies : s.slots[attempt.slot]? = some slot) (same : slot.node = attempt.node)
    (gone : attempt.slot ∉ s.manager attempt.node) : ¬ (s.connected f a attempt).Accounted := by
  intro accounted
  rcases accounted.placed s.peers.length (at_iff.mpr ⟨_, connected_peer s f a attempt, rfl⟩) with ⟨j, lodged⟩ | handed
  · obtain ⟨other, found, held, kept, _⟩ := at_iff.mp lodged
    rcases lookup_modify found with ⟨rfl, old, there, rfl⟩ | ⟨_, there⟩
    · obtain rfl := Option.some.inj (lies.symm.trans there)
      exact gone (same ▸ kept)
    · exact absurd (sound.lodged_lt there held) (Nat.lt_irrefl _)
  · refine absurd (tidy.handed s.peers.length ?_) (Nat.lt_irrefl _)
    rcases handed with ⟨b, held⟩ | listed
    · obtain ⟨other, found, mine⟩ := at_iff.mp held
      rcases lookup_modify found with ⟨rfl, old, there, rfl⟩ | ⟨_, there⟩
      · simp at mine
      · exact .inl ⟨b, at_iff.mpr ⟨other, there, mine⟩⟩
    · exact .inr listed

/-- A peer of an endpoint that was replaced is returned by the call that had it dialed. -/
theorem stale {find : PeerFor} (has : s.attempts[a]? = some attempt) (lies : s.slots[attempt.slot]? = some slot)
    (found : s.finds[f]? = some find) (unlocked : s.nodeLocked = false)
    (replaced : s.registry.endpoint attempt.node ≠ attempt.endpoint) :
    ∃ t, machine.run (s.connected f a attempt) [.announce a, .resume f attempt.slot attempt.endpoint a] = some t ∧
      ¬ t.Accounted := by
  let t := ((s.connected f a attempt).next (.announce a)).next (.resume f attempt.slot attempt.endpoint a)
  refine ⟨t, Machine.run_cons.mpr ⟨at_iff.mpr ⟨_, lookup_modify_self has, rfl⟩, Machine.run_cons.mpr ⟨⟨?_, ?_⟩, rfl⟩⟩, ?_⟩
  · exact at_iff.mpr ⟨_, lookup_modify_self found, rfl⟩
  · exact at_iff.mpr ⟨_, lookup_modify_self (lookup_modify_self has), rfl⟩
  · intro accounted
    have registry : t.registry = s.registry := by
      dsimp only [t, next, setFind, setAttempt, connected, setSlot]
    have sweeps : t.sweeps = s.sweeps := by
      dsimp only [t, next, setFind, setAttempt, connected, setSlot]
    have looping := lookup_modify_self (f := fun find : PeerFor =>
        { find with place := .looping attempt.slot attempt.endpoint })
      (lookup_modify_self (f := fun find : PeerFor =>
        { find with place := .waiting attempt.slot attempt.endpoint a }) found)
    obtain ⟨later, on, held⟩ := at_iff.mp (connected_slot (f := f) (a := a) lies)
    have returns := turn_gives (s := t) false looping on held
      (at_iff.mpr ⟨_, connected_peer s f a attempt, rfl, rfl⟩)
    obtain ⟨handle, there, -, valid⟩ := at_iff.mp (accounted.current f attempt.slot attempt.endpoint false s.peers.length
      (at_iff.mpr ⟨_, looping, rfl⟩) returns)
    obtain rfl := Option.some.inj ((connected_peer s f a attempt).symm.trans there)
    rcases valid with current | ⟨w, replaces⟩
    · rw [registry] at current
      exact replaced current
    · obtain ⟨sweep, mine, going⟩ := at_iff.mp replaces
      rw [sweeps] at mine
      have free := List.any_eq_false.mp unlocked sweep (List.mem_of_getElem? mine)
      simp [going.holdsNode] at free

end Connected

/-- A call that starts an attempt too late loses the peer, or returns one that is stale. -/
theorem Sound.loses (sound : s.Sound) (tidy : s.Tidy) (enabled : s.Enabled (.launch f j endpoint a))
    (late : ¬ s.Prompt (.launch f j endpoint a)) :
    ∃ later t, machine.run s (.launch f j endpoint a :: later) = some t ∧ ¬ t.Accounted := by
  obtain ⟨find, found, _, ⟨known, -⟩, reserved⟩ := sound.find_at enabled.1
  obtain ⟨attempt, has, rfl, node, rfl, place⟩ := at_iff.mp reserved
  simp only [Prompt, not_forall] at late
  obtain ⟨going, on, late⟩ := late
  obtain ⟨slot, lies, matched⟩ := at_iff.mp on
  obtain ⟨same, fits⟩ := (sound.attempts a attempt has).2.here lies
  simp only [Fits, place] at fits
  have stays : slot.state ≠ .closing := by
    intro closing
    rcases tidy.closing attempt.slot slot lies closing with empty | idle
    · exact known (matched ▸ empty)
    · simp [fits.1] at idle
  have ran := run_connected has lies going enabled fits.1 matched stays
  by_cases kept : attempt.slot ∈ s.manager attempt.node
  · have replaced : s.registry.endpoint attempt.node ≠ attempt.endpoint := fun current =>
      late (at_iff.mpr ⟨find, found, node ▸ kept, node ▸ current⟩)
    obtain ⟨t, goes, fails⟩ := stale (f := f) has lies found enabled.2 replaced
    exact ⟨_, t, Machine.run_append.mpr ⟨_, ran, goes⟩, fails⟩
  · exact ⟨_, _, ran, orphaned sound tidy has lies same kept⟩

theorem tidy_initial (nodeID : String) (connectionsPerPeer : Nat) (registry : Snapshot) :
    (initial nodeID connectionsPerPeer registry).Tidy := by
  constructor <;> simp [initial, Handed, At]

/-- In every run whose calls of `peerFor` start their attempts promptly, the outbound peers are accounted for in every
state; and a run that goes on to start one too late comes to a state in which they are not. -/
theorem peers_accounted (nodeID : String) (connectionsPerPeer : Nat) (registry : Snapshot) (actions : List Action)
    (s : Node) (ran : machine.run (initial nodeID connectionsPerPeer registry) actions = some s)
    (prompt : machine.Meets Prompt (initial nodeID connectionsPerPeer registry) actions) :
    s.Accounted ∧
      ∀ action, s.Enabled action → ¬ s.Prompt action →
        ∃ later t, machine.run s (action :: later) = some t ∧ ¬ t.Accounted := by
  have both : s.Sound ∧ s.Tidy := by
    refine Machine.run_keeps_where (I := fun s => s.Sound ∧ s.Tidy) ?_ ran prompt
      ⟨sound_initial .., tidy_initial ..⟩
    exact fun s action holds prompt enabled => ⟨sound_next holds.1 prompt enabled, tidy_next holds.1 holds.2 enabled⟩
  refine ⟨both.1.accounted, fun action enabled late => ?_⟩
  cases action with
  | launch f j endpoint a => exact both.1.loses both.2 enabled late
  | _ => exact absurd trivial late

def pair : Node := initial "a" 1 [("a", "a:1"), ("b", "b:1")]

def replacedInTime : List Action :=
  [.peerFor "b" 0, .look 0, .locate 0 false, .pick 0 "b:1", .turn 0 0 "b:1" true, .launch 0 0 "b:1" 0, .dial 0 true,
    .settle 0 (some 0), .announce 0, .resume 0 0 "b:1" 0, .turn 0 0 "b:1" true,
    .reload [("a", "a:1"), ("b", "b:2")], .enter 0, .lockManager 0 [], .detach 0 0 [0] [] [], .unlockManager 0 [0] [],
    .close 0, .peerClosed 0, .closed 0 0 [] [], .leave 0 [], .finish 0,
    .peerFor "b" 0, .look 1, .locate 1 false, .pick 1 "b:2", .turn 1 1 "b:2" true, .launch 1 1 "b:2" 1, .dial 1 true,
    .settle 1 (some 1), .announce 1, .resume 1 1 "b:2" 1, .turn 1 1 "b:2" true]

theorem peers_accounted_replaced :
    (machine.after pair replacedInTime).FindAt 1 (.returned (some 1)) ∧
      (At (machine.after pair replacedInTime).peers 1 fun handle => handle.closed = false ∧ handle.endpoint = "b:2") ∧
      (machine.after pair replacedInTime).Accounted :=
  ⟨by decide +kernel, by decide +kernel,
    (peers_accounted "a" 1 _ replacedInTime _ (Machine.run_after (by decide +kernel)) (by decide +kernel)).1⟩

def dialedAfterReload : List Action :=
  [.peerFor "b" 0, .look 0, .locate 0 false, .pick 0 "b:1",
    .reload [("a", "a:1"), ("b", "b:2")], .enter 0, .lockManager 0 [], .detach 0 0 [0] [] [], .unlockManager 0 [] [],
    .leave 0 [], .finish 0,
    .turn 0 0 "b:1" true, .launch 0 0 "b:1" 0, .dial 0 true, .settle 0 (some 0), .announce 0, .resume 0 0 "b:1" 0,
    .turn 0 0 "b:1" true,
    .stop, .enter 1, .lockManager 1 [], .unlockManager 1 [] [], .leave 1 [], .finish 1]

theorem dialed_after_reload :
    ∃ s, machine.run pair dialedAfterReload = some s ∧ s.SweepAt 0 (.returned true) ∧ s.SweepAt 1 (.returned true) ∧
      s.registry.endpoint "b" = "b:2" ∧ s.FindAt 0 (.returned (some 0)) ∧
      (At s.peers 0 fun handle => handle.closed = false ∧ handle.remoteNode = "b" ∧ handle.endpoint = "b:1") ∧
      ¬ s.Accounted := by
  refine ⟨_, Machine.run_after (by decide +kernel), by decide +kernel, by decide +kernel, by decide +kernel,
    by decide +kernel, by decide +kernel, fun accounted => ?_⟩
  have swept : At (machine.after pair dialedAfterReload).sweeps 1 fun sweep =>
      sweep.isReload = false ∧ sweep.place = .returned true := by decide +kernel
  have idle : ∀ sweep ∈ (machine.after pair dialedAfterReload).sweeps, sweep.peers = [] := by decide +kernel
  have past : ∀ attempt ∈ (machine.after pair dialedAfterReload).attempts, attempt.place = .finished := by decide +kernel
  rcases accounted.closing ⟨1, swept.mono fun sweep known => ⟨known.1, by simp [known.2]⟩⟩ 0 (by decide +kernel) with
    ⟨w, listed⟩ | ⟨a, hands⟩
  · obtain ⟨sweep, found, member⟩ := at_iff.mp listed
    simp [idle sweep (List.mem_of_getElem? found)] at member
  · obtain ⟨attempt, found, mine⟩ := at_iff.mp hands
    simp [past attempt (List.mem_of_getElem? found)] at mine

end Node

end Skygo.Transport
