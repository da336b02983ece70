import Skygo.Transport.NodeAccounted

/-! The lanes of a node while nothing is reloaded or stopped: one attempt at a time on a slot, and one live peer.

From the section of `peerFor` that makes the channel to the section of `connectSlot` that clears it, an attempt is in
flight. After that it only has its channel to close.
-/

set_option autoImplicit false

attribute [-instance] instBooleanRingBool

namespace Skygo.Transport

open Semantics

def AttemptPlace.left : AttemptPlace → Nat
  | .reserved _ => 4
  | .dialing => 3
  | .dialed _ => 2
  | .announcing => 1
  | _ => 0

namespace Node

variable {s t : Node} {a j k f : Nat} {endpoint : String} {slot : PeerSlot} {attempt : Attempt} {action : Action}

def Action.keepsLanes : Action → Bool
  | .reload _ | .stop => false
  | _ => true

def Claims (a : Nat) (attempt : Attempt) (slot : PeerSlot) : Prop :=
  slot.connecting = some a ∧ slot.endpoint = attempt.endpoint ∧ slot.state = .connecting ∧ slot.peer = none

def OnLane (s : Node) (find : PeerFor) : Prop :=
  match find.place with
  | .located endpoint => endpoint = s.registry.endpoint find.node
  | .looping j endpoint | .starting j endpoint _ | .waiting j endpoint _ =>
    endpoint = s.registry.endpoint find.node ∧ (s.manager find.node)[find.index]? = some j
  | .aborting _ _ | .aborted _ => False
  | _ => True

structure Flies (s : Node) (a : Nat) (attempt : Attempt) : Prop where
  claims : attempt.place.inFlight = true → At s.slots attempt.slot (Claims a attempt)
  caller : ∀ f, attempt.place = .reserved f → s.FindAt f (.starting attempt.slot attempt.endpoint a)
  course : attempt.place.inFlight = true ∨ attempt.place = .announcing ∨ attempt.place = .finished

structure Lanes (s : Node) : Prop where
  sweeps : s.sweeps = []
  going : s.stopping = false
  finds : ∀ (f : Nat) (find : PeerFor), s.finds[f]? = some find → s.OnLane find
  attempts : ∀ (a : Nat) (attempt : Attempt), s.attempts[a]? = some attempt → s.Flies a attempt
  slots : ∀ (j : Nat) (slot : PeerSlot), s.slots[j]? = some slot → ∀ a, slot.connecting = some a →
    At s.attempts a fun attempt => attempt.slot = j ∧ attempt.place.inFlight = true

attribute [grind] Action.keepsLanes Claims OnLane

namespace Lanes

theorem unlocked (lanes : s.Lanes) : s.nodeLocked = false := by simp [nodeLocked, lanes.sweeps]

theorem not_discards (lanes : s.Lanes) (has : s.attempts[a]? = some attempt) (flying : attempt.place.inFlight = true)
    (lies : s.slots[attempt.slot]? = some slot) : Discards a attempt slot = false := by
  obtain ⟨connecting, endpoint, state, -⟩ := ((lanes.attempts a attempt has).claims flying).here lies
  simp [Discards, connecting, endpoint, state]

theorem prompt (lanes : s.Lanes) (action : Action) (enabled : s.Enabled action) : s.Prompt action := by
  cases action with
  | launch f j endpoint a =>
    obtain ⟨find, found, place⟩ := at_iff.mp enabled.1
    have lane := lanes.finds f find found
    rw [OnLane, place] at lane
    exact fun _ _ => at_iff.mpr ⟨find, found, List.mem_of_getElem? lane.2, lane.1.symm⟩
  | _ => trivial

end Lanes

theorem sweeps_next (lanes : s.Lanes) (keeps : action.keepsLanes = true) (enabled : s.Enabled action)
    (steps : s.Steps action t) : t.sweeps = [] ∧ t.stopping = false ∧ t.registry = s.registry := by
  have sweeps := lanes.sweeps
  have going := lanes.going
  clear lanes
  cases steps with
  | plain => cases action <;> grind
  | _ => grind

theorem lane_next (lanes : s.Lanes) (steps : s.Steps action t) {node : String} {i : Nat}
    (lane : (s.manager node)[i]? = some j) : (t.manager node)[i]? = some j := by
  rcases manager_moves steps with same | ⟨made, empty, -, manager⟩ | ⟨w, sweep, peers, conns, has, -, -⟩
  · rwa [same]
  · rw [manager, Function.update_of_ne]
    · exact lane
    · rintro rfl
      simp [empty] at lane
  · simp [lanes.sweeps] at has

theorem onLane_next (lanes : s.Lanes) (keeps : action.keepsLanes = true) (enabled : s.Enabled action)
    (steps : s.Steps action t) (f : Nat) (find : PeerFor) (found : t.finds[f]? = some find) : t.OnLane find := by
  have registry := (sweeps_next lanes keeps enabled steps).2.2
  rcases find_origin enabled steps found with ⟨old, was, moves⟩ | ⟨-, called⟩
  · have before := lanes.finds f old was
    have lane (i j : Nat) (lane : (s.manager old.node)[i]? = some j) := lane_next lanes steps lane
    have going := lanes.going
    clear lanes
    unfold OnLane at before ⊢
    rw [registry]
    cases moves with
    | same => cases here : find.place <;> grind
    | _ => grind
  · simp [OnLane, called]

/-- With the registry's endpoint, what `peerFor` does not return is closed: the slot has no peer once that is forgotten. -/
theorem Lanes.forgotten (lanes : s.Lanes) (sound : s.Sound) {find : PeerFor} (found : s.finds[f]? = some find)
    (place : find.place = .looping j endpoint) (lies : s.slots[j]? = some slot)
    (others : ∀ k handle, (s.forget slot).peer = some k → s.peers[k]? = some handle → handle.endpoint ≠ endpoint) :
    (s.forget slot).peer = none := by
  have known := sound.finds f find found
  have lane := lanes.finds f find found
  simp only [Finds, OnLane, place] at known lane
  cases held : (s.forget slot).peer with
  | none => rfl
  | some k =>
    have had : slot.peer = some k := by grind
    obtain ⟨handle, there, -, -, owned⟩ := at_iff.mp (sound.slots j slot lies k had)
    have current := owned.current lanes.unlocked
    rw [known.2.here lies, ← lane.1] at current
    exact absurd current.symm (others k handle held there)

theorem claims_next (lanes : s.Lanes) (sound : s.Sound) (enabled : s.Enabled action) (steps : s.Steps action t)
    (has : t.attempts[a]? = some attempt) (flying : attempt.place.inFlight = true) :
    At t.slots attempt.slot (Claims a attempt) := by
  rcases attempt_origin enabled steps has with ⟨old, was, moved⟩ | made
  · have flew : old.place.inFlight = true := by
      cases moved with
      | launches f j endpoint starting =>
        obtain ⟨find, found, -, -, reserved⟩ := sound.find_at starting
        simp [(reserved.here was).2.2.2, AttemptPlace.inFlight]
      | _ => grind
    have same : attempt.slot = old.slot ∧ attempt.endpoint = old.endpoint := by cases moved <;> exact ⟨rfl, rfl⟩
    obtain ⟨slot, lies, claims⟩ := at_iff.mp ((lanes.attempts a old was).claims flew)
    obtain ⟨later, after, moves⟩ := slot_moves steps lies
    have sweeps := lanes.sweeps
    refine at_iff.mpr ⟨later, same.1 ▸ after, ?_⟩
    clear lanes sound moved
    cases moves <;> grind
  · cases made with
    | mk f j endpoint expired find slot found there idle others peers lies =>
      have place := At.here enabled found
      exact at_iff.mpr ⟨_, lies, rfl, rfl, rfl, lanes.forgotten sound found place there others⟩

section

variable (lanes : s.Lanes) (enabled : s.Enabled action) (steps : s.Steps action t)
include lanes enabled steps

theorem caller_next (has : t.attempts[a]? = some attempt) (f : Nat) (place : attempt.place = .reserved f) :
    t.FindAt f (.starting attempt.slot attempt.endpoint a) := by
  rcases attempt_origin enabled steps has with ⟨old, was, moved⟩ | made
  · cases moved with
    | same =>
      obtain ⟨find, found, starting⟩ := at_iff.mp ((lanes.attempts a attempt was).caller f place)
      obtain ⟨later, after, moves⟩ := find_moves enabled steps found
      have going := lanes.going
      clear lanes
      cases moves <;> grind
    | _ => cases place
  · cases made
    cases place
    assumption

theorem course_next (has : t.attempts[a]? = some attempt) :
    attempt.place.inFlight = true ∨ attempt.place = .announcing ∨ attempt.place = .finished := by
  rcases attempt_origin enabled steps has with ⟨old, was, moved⟩ | made
  · have before := (lanes.attempts a old was).course
    have lane := lanes.finds
    cases moved with
    | discards peer slot place lies gone =>
      rw [lanes.not_discards was (by rw [place]; rfl) lies] at gone
      cases gone
    | _ =>
      clear lanes
      grind
  · cases made
    exact .inl rfl

theorem channel_next (j : Nat)
    (later : PeerSlot) (after : t.slots[j]? = some later) (a : Nat) (connecting : later.connecting = some a) :
    At t.attempts a fun attempt => attempt.slot = j ∧ attempt.place.inFlight = true := by
  have kept (slot : PeerSlot) (lies : s.slots[j]? = some slot) (connects : slot.connecting = some a) :
      At t.attempts a fun attempt => attempt.slot = j ∧ attempt.place.inFlight = true := by
    obtain ⟨attempt, has, rfl, flying⟩ := at_iff.mp (lanes.slots j slot lies a connects)
    obtain ⟨next, there, moved⟩ := attempt_moves enabled steps has
    have lane := lanes.finds
    refine at_iff.mpr ⟨next, there, ?_⟩
    cases moved with
    | discards peer slot place lies gone =>
      rw [lanes.not_discards has flying lies] at gone
      cases gone
    | _ =>
      clear lanes
      grind
  rcases slot_origin steps after with ⟨slot, lies, moves⟩ | ⟨-, node, rfl⟩
  · have kept := kept slot lies
    clear lanes
    cases moves <;> grind
  · cases connecting

end

theorem lanes_next (lanes : s.Lanes) (sound : s.Sound) (keeps : action.keepsLanes = true)
    (enabled : s.Enabled action) : (s.next action).Lanes := by
  have steps := next_steps s action
  obtain ⟨sweeps, going, -⟩ := sweeps_next lanes keeps enabled steps
  refine ⟨sweeps, going, onLane_next lanes keeps enabled steps, fun a attempt has => ?_, channel_next lanes enabled steps⟩
  exact ⟨claims_next lanes sound enabled steps has, caller_next lanes enabled steps has,
    course_next lanes enabled steps has⟩

section Channels

def closes (a : Nat) (_ : Node) : Action → Nat
  | .announce b | .abortDone _ b => if b = a then 1 else 0
  | _ => 0

def isDone (a : Nat) (s : Node) : Nat :=
  match s.attempts[a]? with
  | some attempt => if attempt.place = .finished then 1 else 0
  | none => 0

theorem isDone_next (lanes : s.Lanes) (sound : s.Sound) (enabled : s.Enabled action) :
    isDone a (s.next action) = isDone a s + closes a s action := by
  have steps := next_steps s action
  have lane := lanes.finds
  have closing : (∃ f, action = .abortDone f a) ∨ action = .announce a ∨ closes a s action = 0 := by
    cases action <;> grind [closes]
  rcases closing with ⟨f, rfl⟩ | rfl | none
  · obtain ⟨find, found, place⟩ := at_iff.mp enabled
    have off := lane f find found
    simp [OnLane, place] at off
  · obtain ⟨attempt, has, place⟩ := at_iff.mp enabled
    simp [isDone, closes, next, setAttempt, has, place]
  · rw [none]
    generalize s.next action = t at steps
    cases has : s.attempts[a]? with
    | some attempt =>
      obtain ⟨later, after, moved⟩ := attempt_moves enabled steps has
      have own (f : Nat) (find : PeerFor) (found : s.finds[f]? = some find) := sound.owner has found
      clear lanes sound
      cases moved <;> grind [isDone, closes]
    | none =>
      cases after : t.attempts[a]? with
      | none => simp [isDone, has, after]
      | some later =>
        rcases attempt_origin enabled steps after with ⟨old, was, -⟩ | made
        · cases has.symm.trans was
        · cases made
          simp [isDone, after]

end Channels

theorem Lanes.advances (lanes : s.Lanes) (has : s.attempts[a]? = some attempt) (unfinished : attempt.place ≠ .finished) :
    ∃ action, action.keepsLanes = true ∧ s.Enabled action ∧
      ∃ later, (s.next action).attempts[a]? = some later ∧ later.place.left < attempt.place.left := by
  have flies := lanes.attempts a attempt has
  cases place : attempt.place with
  | reserved f =>
    refine ⟨.launch f attempt.slot attempt.endpoint a, rfl, ⟨flies.caller f place, lanes.unlocked⟩,
      { attempt with place := .dialing }, ?_, ?_⟩
    · simp only [next, lanes.going, Bool.false_eq_true, if_false]
      exact lookup_modify_self has
    · simp [AttemptPlace.left]
  | dialing =>
    refine ⟨.dial a false, rfl, at_iff.mpr ⟨attempt, has, place⟩, { attempt with place := .dialed none }, ?_, ?_⟩
    · simp only [next, has, Node.dial, Bool.false_eq_true, if_false]
      exact lookup_modify_self has
    · simp [AttemptPlace.left]
  | dialed peer =>
    have flying : attempt.place.inFlight = true := by simp [place, AttemptPlace.inFlight]
    obtain ⟨slot, lies, -⟩ := at_iff.mp (flies.claims flying)
    refine ⟨.settle a peer, rfl, at_iff.mpr ⟨attempt, has, place⟩, { attempt with place := .announcing }, ?_, ?_⟩
    · simp only [next, has, lies, Node.settle, lanes.not_discards has flying lies, Bool.false_eq_true, if_false]
      cases peer <;> exact lookup_modify_self has
    · simp [AttemptPlace.left]
  | announcing =>
    exact ⟨.announce a, rfl, at_iff.mpr ⟨attempt, has, place⟩, _, lookup_modify_self has, by simp [AttemptPlace.left]⟩
  | finished => exact absurd place unfinished
  | abandoned | discarding =>
    have course := flies.course
    simp [place, AttemptPlace.inFlight] at course

theorem lanes_run {actions : List Action} (keeps : ∀ action ∈ actions, action.keepsLanes = true)
    (ran : machine.run s actions = some t) (lanes : s.Lanes) (sound : s.Sound) : t.Lanes ∧ t.Sound := by
  induction actions generalizing s with
  | nil =>
    cases ran
    exact ⟨lanes, sound⟩
  | cons action rest ih =>
    obtain ⟨enabled, ran⟩ := Machine.run_cons.mp ran
    have first := keeps action (List.mem_cons_self ..)
    exact ih (fun later member => keeps later (List.mem_cons_of_mem _ member)) ran
      (lanes_next lanes sound first enabled) (sound_next sound (lanes.prompt action enabled) enabled)

theorem isDone_run {actions : List Action} (keeps : ∀ action ∈ actions, action.keepsLanes = true)
    (ran : machine.run s actions = some t) (lanes : s.Lanes) (sound : s.Sound) :
    isDone a t = isDone a s + machine.tally (closes a) s actions := by
  induction actions generalizing s with
  | nil =>
    cases ran
    rfl
  | cons action rest ih =>
    obtain ⟨enabled, ran⟩ := Machine.run_cons.mp ran
    have first := keeps action (List.mem_cons_self ..)
    have later := ih (fun other member => keeps other (List.mem_cons_of_mem _ member)) ran
      (lanes_next lanes sound first enabled) (sound_next sound (lanes.prompt action enabled) enabled)
    have now : isDone a (machine.next s action) = isDone a s + closes a s action := isDone_next lanes sound enabled
    rw [later, now, Machine.tally]
    omega

theorem finishes (n : Nat) (lanes : s.Lanes) (sound : s.Sound) (has : s.attempts[a]? = some attempt)
    (near : attempt.place.left ≤ n) :
    ∃ actions t, (∀ action ∈ actions, action.keepsLanes = true) ∧ machine.run s actions = some t ∧
      t.AttemptAt a .finished := by
  induction n generalizing s attempt with
  | zero =>
    -- an attempt with nothing left to do has closed its channel
    refine ⟨[], s, fun _ member => (by cases member), rfl, at_iff.mpr ⟨attempt, has, ?_⟩⟩
    by_contra unfinished
    obtain ⟨_, _, _, _, _, nearer⟩ := lanes.advances has unfinished
    omega
  | succ n ih =>
    by_cases done : attempt.place = .finished
    · exact ⟨[], s, fun _ member => (by cases member), rfl, at_iff.mpr ⟨attempt, has, done⟩⟩
    · obtain ⟨action, keeps, enabled, later, has', nearer⟩ := lanes.advances has done
      obtain ⟨actions, t, all, ran, finished⟩ := ih (lanes_next lanes sound keeps enabled)
        (sound_next sound (lanes.prompt action enabled) enabled) has' (by omega)
      refine ⟨action :: actions, t, fun other member => ?_, Machine.run_cons.mpr ⟨enabled, ran⟩, finished⟩
      rcases List.mem_cons.mp member with rfl | rest
      · exact keeps
      · exact all other rest

structure SingleFlight (s : Node) : Prop where
  /-- The attempt in flight is the one whose channel the slot has. -/
  flight : ∀ (j : Nat) (slot : PeerSlot), s.slots[j]? = some slot → ∀ a, slot.connecting = some a ↔
    At s.attempts a fun attempt => attempt.slot = j ∧ attempt.place.inFlight = true
  /-- Any other attempt has at most its channel to close. -/
  past : ∀ (a : Nat) (attempt : Attempt), s.attempts[a]? = some attempt → attempt.place.inFlight = false →
    attempt.place = .announcing ∨ attempt.place = .finished
  peer : ∀ (k k' : Nat) (handle handle' : PeerHandle), s.peers[k]? = some handle → s.peers[k']? = some handle' →
    handle.closed = false → handle'.closed = false → handle.slot = handle'.slot → k = k'
  /-- A call of `peerFor` that is about to succeed returns the live peer that the slot of its node and lane has. -/
  returns : ∀ (action : Action) (f k : Nat), s.Enabled action → ¬s.FindAt f (.returned (some k)) →
    (s.next action).FindAt f (.returned (some k)) →
    At s.finds f fun find => ∃ j, (s.manager find.node)[find.index]? = some j ∧
      (At s.slots j fun slot => slot.peer = some k) ∧
      At s.peers k fun handle => handle.closed = false ∧ handle.endpoint = s.registry.endpoint find.node

theorem Lanes.live (lanes : s.Lanes) (sound : s.Sound) {handle : PeerHandle} (found : s.peers[k]? = some handle)
    (live : handle.closed = false) :
    At s.slots handle.slot fun slot => slot.peer = some k ∨ (slot.peer = none ∧ ∃ a, slot.connecting = some a ∧
      At s.attempts a fun attempt => attempt.place = .dialed (some k)) := by
  rcases sound.placed k handle found live with ⟨j, lodged⟩ | ⟨a, hands⟩ | ⟨w, listed⟩
  · obtain ⟨other, there, held⟩ := at_iff.mp lodged
    obtain ⟨rfl, -⟩ := (sound.slots j other there k held).here found
    exact at_iff.mpr ⟨other, there, .inl held⟩
  · obtain ⟨attempt, has, place⟩ := at_iff.mp hands
    have flies := lanes.attempts a attempt has
    have dialed : attempt.place = .dialed (some k) := by
      rcases place with dialed | discarding
      · exact dialed
      · have course := flies.course
        simp [discarding, AttemptPlace.inFlight] at course
    obtain ⟨other, there, -, fits⟩ := at_iff.mp (sound.attempts a attempt has).2
    simp only [Fits, dialed] at fits
    have same : handle.slot = attempt.slot := ((fits.2.2.2 k rfl).here found).1
    exact at_iff.mpr ⟨other, same ▸ there, .inr ⟨fits.2.1, a, fits.1, at_iff.mpr ⟨attempt, has, dialed⟩⟩⟩
  · simp [At, lanes.sweeps] at listed

theorem succeeds (enabled : s.Enabled action)
    (before : ¬s.FindAt f (.returned (some k))) (after : (s.next action).FindAt f (.returned (some k))) :
    ∃ j endpoint expired, action = .turn f j endpoint expired := by
  obtain ⟨later, found, returned⟩ := at_iff.mp after
  rcases find_origin enabled (next_steps s action) found with ⟨old, was, moves⟩ | ⟨-, called⟩
  · cases moves with
    | same => exact absurd (at_iff.mpr ⟨later, was, returned⟩) before
    | finds j endpoint expired => exact ⟨j, endpoint, expired, rfl⟩
    | _ => cases returned
  · cases called.symm.trans returned

theorem Lanes.singleFlight (lanes : s.Lanes) (sound : s.Sound) : s.SingleFlight where
  flight j slot lies a := by
    refine ⟨lanes.slots j slot lies a, fun known => ?_⟩
    obtain ⟨attempt, has, rfl, flying⟩ := at_iff.mp known
    exact (((lanes.attempts a attempt has).claims flying).here lies).1
  past a attempt has landed := by
    rcases (lanes.attempts a attempt has).course with flying | past
    · rw [landed] at flying
      cases flying
    · exact past
  peer k k' handle handle' found found' live live' same := by
    obtain ⟨slot, lies, mine⟩ := at_iff.mp (lanes.live sound found live)
    have yours := (lanes.live sound found' live').here (same ▸ lies)
    rcases mine with held | ⟨free, a, connecting, dialed⟩ <;> rcases yours with held' | ⟨free', b, connecting', dialed'⟩
    · exact Option.some.inj (held.symm.trans held')
    · cases held.symm.trans free'
    · cases free.symm.trans held'
    · -- one slot, one channel, one attempt
      cases connecting.symm.trans connecting'
      obtain ⟨attempt, has, place⟩ := at_iff.mp dialed
      cases place.symm.trans (dialed'.here has)
      rfl
  returns action f k enabled before after := by
    obtain ⟨j, endpoint, expired, rfl⟩ := succeeds enabled before after
    obtain ⟨find, found, place⟩ := at_iff.mp enabled
    have lane := lanes.finds f find found
    rw [OnLane, place] at lane
    obtain ⟨slot, lies, held, live⟩ := at_iff.mp (turn_returns enabled after)
    rw [lane.1] at live
    exact at_iff.mpr ⟨find, found, j, lane.2, at_iff.mpr ⟨slot, lies, held⟩, live⟩

theorem lanes_initial (nodeID : String) (connectionsPerPeer : Nat) (registry : Snapshot) :
    (initial nodeID connectionsPerPeer registry).Lanes where
  sweeps := rfl
  going := rfl
  finds _ _ found := by cases found
  attempts _ _ has := by cases has
  slots _ _ lies := by cases lies

/-- While nothing is reloaded or stopped: one attempt in flight and one live peer on a slot, `peerFor` returns the slot's
peer, and the channel of every attempt is closed by one step, which can always still come. -/
theorem single_flight (nodeID : String) (connectionsPerPeer : Nat) (registry : Snapshot) (actions : List Action)
    (keeps : ∀ action ∈ actions, action.keepsLanes = true)
    (ran : machine.run (initial nodeID connectionsPerPeer registry) actions = some s) :
    s.SingleFlight ∧
      (∀ a, machine.tally (closes a) (initial nodeID connectionsPerPeer registry) actions = isDone a s) ∧
      ∀ (a : Nat) (attempt : Attempt), s.attempts[a]? = some attempt →
        ∃ later t, (∀ action ∈ later, action.keepsLanes = true) ∧ machine.run s later = some t ∧
          t.AttemptAt a .finished := by
  obtain ⟨lanes, sound⟩ := lanes_run keeps ran (lanes_initial ..) (sound_initial ..)
  refine ⟨lanes.singleFlight sound, fun a => ?_, fun a attempt has => finishes _ lanes sound has (Nat.le_refl _)⟩
  have counted := isDone_run (a := a) keeps ran (lanes_initial ..) (sound_initial ..)
  rw [counted, show isDone a (initial nodeID connectionsPerPeer registry) = 0 from rfl, Nat.zero_add]

def sharedDial : List Action :=
  [.peerFor "b" 0, .peerFor "b" 1, .look 0, .look 1, .locate 0 false, .locate 1 false, .pick 0 "b:1", .pick 1 "b:1",
    .turn 0 0 "b:1" true, .turn 1 0 "b:1" true, .launch 0 0 "b:1" 0, .dial 0 true, .settle 0 (some 0), .announce 0,
    .resume 0 0 "b:1" 0, .resume 1 0 "b:1" 0, .turn 0 0 "b:1" true, .turn 1 0 "b:1" true]

theorem single_flight_shared :
    ∃ s, machine.run pair sharedDial = some s ∧ s.SingleFlight ∧ machine.tally (closes 0) pair sharedDial = 1 ∧
      s.FindAt 0 (.returned (some 0)) ∧ s.FindAt 1 (.returned (some 0)) := by
  have ran := Machine.run_after (by decide +kernel : (machine.run pair sharedDial).isSome = true)
  obtain ⟨single, closed, -⟩ := single_flight "a" 1 [("a", "a:1"), ("b", "b:1")] sharedDial (by decide) ran
  exact ⟨_, ran, single, (closed 0).trans (by decide +kernel), by decide +kernel, by decide +kernel⟩

end Node

end Skygo.Transport
