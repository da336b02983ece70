import Skygo.Transport.NodeSound

/-! Every live peer is in a slot of the manager or in the hands of the goroutine that will put it there or close it,
as long as `peerFor` starts no attempt on a slot that was taken away or with an endpoint that was replaced. -/

set_option autoImplicit false

attribute [-instance] instBooleanRingBool

namespace Skygo.Transport

open Semantics

namespace Node

variable {s t : Node} {a j k f w : Nat} {endpoint : String}

variable {action : Action}

attribute [grind] Sweep.Stops Sweep.Spares Sweep.Replaces

theorem stopping_next (sound : s.Sound) (enabled : s.Enabled action) (steps : s.Steps action t) (w : Nat) (sweep : Sweep)
    (found : t.sweeps[w]? = some sweep) (stops : sweep.Stops) : t.stopping = true := by
  rcases sweep_origin enabled steps found with ⟨old, was, moves⟩ | ⟨-, called⟩
  · have before := sound.stopping w old was
    have kept := stopping_kept steps
    clear sound
    cases moves <;> grind
  · exact absurd called stops.2.1

theorem notified_next (sound : s.Sound) (enabled : s.Enabled action) (steps : s.Steps action t) (k : Nat)
    (handle : PeerHandle) (found : t.peers[k]? = some handle) (notified : handle.notified = true) : handle.closed = true := by
  rcases peer_origin steps found with ⟨old, was, moves⟩ | ⟨-, a, attempt, -, -, -, rfl⟩
  · cases moves with
    | same => exact sound.notified k handle was notified
    | closes => rfl
    | notifies => exact (At.here enabled was).1
  · cases notified

theorem node_next (steps : s.Steps action t) {node : String} {j : Nat} (on : At s.slots j fun slot => slot.node = node) :
    At t.slots j fun slot => slot.node = node := by
  obtain ⟨slot, lies, rfl⟩ := at_iff.mp on
  obtain ⟨later, after, moves⟩ := slot_moves steps lies
  exact at_iff.mpr ⟨later, after, moves.node⟩

theorem fresh_slot (s : Node) (node : String) {n : Nat} (below : n < s.connectionsPerPeer) :
    (s.slots ++ List.replicate s.connectionsPerPeer { node := node })[s.slots.length + n]? = some { node := node } := by
  grind

theorem manager_next (sound : s.Sound) (steps : s.Steps action t) (node : String) (j : Nat) (member : j ∈ t.manager node) :
    At t.slots j fun slot => slot.node = node := by
  have kept (member : j ∈ s.manager node) := node_next steps (sound.manager node j member)
  rcases manager_moves steps with same | ⟨made, -, slots, manager⟩ | ⟨w, sweep, peers, conns, -, -, manager⟩
  · exact kept (same ▸ member)
  · rw [manager, Function.update_apply] at member
    split at member
    · next here =>
      obtain ⟨n, below, rfl⟩ := List.mem_map.mp member
      rw [slots]
      exact at_iff.mpr ⟨_, fresh_slot s made (List.mem_range.mp below), here.symm⟩
    · exact kept member
  · grind

theorem Finds.mono {f : Nat} {find : PeerFor} (known : s.Finds f find)
    (slots : ∀ j, (At s.slots j fun slot => slot.node = find.node) → At t.slots j fun slot => slot.node = find.node)
    (attempts : ∀ (a : Nat) (attempt : Attempt), find.place.reserves = some a → s.attempts[a]? = some attempt →
      t.attempts[a]? = some attempt) : t.Finds f find := by
  unfold Finds at known ⊢
  cases place : find.place <;> grind

variable {attempt : Attempt}

theorem Sound.owner (sound : s.Sound) {find : PeerFor} (has : s.attempts[a]? = some attempt)
    (found : s.finds[f]? = some find) (reserves : find.place.reserves = some a) : attempt.place.owner = some f := by
  have known := sound.finds f find found
  unfold Finds at known
  clear sound
  cases place : find.place <;> grind

theorem reserved_next (sound : s.Sound) (enabled : s.Enabled action) (steps : s.Steps action t)
    {find : PeerFor} (found : s.finds[f]? = some find) (still : t.finds[f]? = some find)
    (reserves : find.place.reserves = some a) (has : s.attempts[a]? = some attempt) :
    t.attempts[a]? = some attempt := by
  have mine := sound.owner has found reserves
  have own (g : Nat) (find : PeerFor) (found : s.finds[g]? = some find) := sound.owner has found
  obtain ⟨later, after, moves⟩ := attempt_moves enabled steps has
  clear sound
  cases moves <;> grind

theorem Sound.find_at (sound : s.Sound) {place : FindPlace} (there : s.FindAt f place) :
    ∃ find, s.finds[f]? = some find ∧ find.place = place ∧ s.Finds f { find with place := place } := by
  obtain ⟨find, found, rfl⟩ := at_iff.mp there
  exact ⟨find, found, rfl, sound.finds f find found⟩

theorem finds_next (sound : s.Sound) (enabled : s.Enabled action) (steps : s.Steps action t) (f : Nat) (find : PeerFor)
    (found : t.finds[f]? = some find) : t.Finds f find := by
  rcases find_origin enabled steps found with ⟨old, was, moves⟩ | ⟨-, called⟩
  · have known := sound.finds f old was
    have on (j : Nat) (on : At s.slots j fun slot => slot.node = find.node) := node_next steps on
    cases moves with
    | same =>
      exact known.mono (fun _ => node_next steps) fun _ _ reserves has =>
        reserved_next sound enabled steps was found reserves has
    | picks j endpoint place lane =>
      simp only [Finds, place] at known ⊢
      exact ⟨known, manager_next sound steps old.node j (List.mem_of_getElem? lane)⟩
    | looks | finds | fails => trivial
    | _ =>
      clear sound
      simp only [Finds] at known ⊢
      grind
  · simp [Finds, called]

variable {handle : PeerHandle}

section

variable (sound : s.Sound) (enabled : s.Enabled action) (steps : s.Steps action t) (found : s.peers[k]? = some handle)
  (live : handle.closed = false)
include sound enabled steps found live

/-- A peer leaves its slot when it is closed, or for a sweep that will close it. -/
theorem lodged_next (lodged : At s.slots j fun slot => slot.peer = some k) :
    (At t.slots j fun slot => slot.peer = some k) ∨ ∃ w, At t.sweeps w fun sweep => k ∈ sweep.peers := by
  obtain ⟨slot, lies, held⟩ := at_iff.mp lodged
  obtain ⟨later, after, moves⟩ := slot_moves steps lies
  cases moves with
  | detaches w todo peers conns sweeps =>
    obtain ⟨sweep, has, place⟩ := at_iff.mp enabled.1
    right
    exact ⟨w, by clear sound; grind⟩
  | fails a attempt has | lodges a _ attempt has =>
    have fits := sound.attempts a attempt has
    clear sound
    grind
  | _ =>
    clear sound
    grind

theorem held_next
    (held : At s.attempts a fun attempt => attempt.place = .dialed (some k) ∨ attempt.place = .discarding (some k)) :
    (At t.attempts a fun attempt => attempt.place = .dialed (some k) ∨ attempt.place = .discarding (some k)) ∨
      t.Lodged k := by
  obtain ⟨attempt, has, held⟩ := at_iff.mp held
  obtain ⟨later, after, moves⟩ := attempt_moves enabled steps has
  have notified := sound.notified k
  have own (f : Nat) (find : PeerFor) (found : s.finds[f]? = some find) := sound.owner has found
  clear sound
  cases moves with
  | settles peer slot place lies keeps lodges => exact .inr ⟨attempt.slot, by grind⟩
  | discarded peer place gone =>
    have gone := gone k
    grind
  | _ => grind

theorem listed_next (listed : At s.sweeps w fun sweep => k ∈ sweep.peers) : At t.sweeps w fun sweep => k ∈ sweep.peers := by
  obtain ⟨sweep, has, listed⟩ := at_iff.mp listed
  obtain ⟨later, after, moves⟩ := sweep_moves enabled steps has
  have notified := sound.notified k
  clear sound
  cases moves <;> grind

end

theorem placed_next (sound : s.Sound) (enabled : s.Enabled action) (steps : s.Steps action t) (k : Nat)
    (handle : PeerHandle) (found : t.peers[k]? = some handle) (live : handle.closed = false) : t.Lodged k ∨ t.Handed k := by
  rcases peer_origin steps found with ⟨old, was, moves⟩ | ⟨-, a, attempt, -, -, dialed, -⟩
  · have open_ : old.closed = false := by cases moves <;> first | exact live | cases live
    rcases sound.placed k old was open_ with ⟨j, lodged⟩ | ⟨a, held⟩ | ⟨w, listed⟩
    · exact (lodged_next sound enabled steps was open_ lodged).imp (fun there => ⟨j, there⟩) .inr
    · rcases held_next sound enabled steps was open_ held with there | lodged
      · exact .inr (.inl ⟨a, there⟩)
      · exact .inl lodged
    · exact .inr (.inr ⟨w, listed_next sound enabled steps was open_ listed⟩)
  · exact .inr (.inl ⟨a, dialed.mono fun _ place => .inl place⟩)

theorem manager_same (steps : s.Steps action t) (node : String) (j : Nat) (kept : j ∈ s.manager node)
    (unlocks : ∀ w peers conns, action ≠ .unlockManager w peers conns) : j ∈ t.manager node := by
  rcases manager_moves steps with same | ⟨made, empty, -, manager⟩ | ⟨w, sweep, peers, conns, -, is, -⟩
  · rwa [same]
  · rw [manager, Function.update_of_ne]
    · exact kept
    · rintro rfl
      simp [empty] at kept
  · exact absurd is (unlocks w peers conns)

variable {slot later : PeerSlot}

theorem spares_next (enabled : s.Enabled action) (steps : s.Steps action t)
    (lies : s.slots[j]? = some slot) (after : t.slots[j]? = some later) (uses : later.peer ≠ none ∨ later.endpoint = endpoint)
    (owned : s.Owned j slot.node endpoint) (w : Nat) (sweep : Sweep) (found : t.sweeps[w]? = some sweep) :
    sweep.Spares slot.node j := by
  obtain ⟨kept, spared, known, -⟩ := owned
  rcases sweep_origin enabled steps found with ⟨old, was, moves⟩ | ⟨-, called⟩
  · have spared := spared w old was
    cases moves with
    | locks conns =>
      have covered : j ∈ s.covered old ↔ old.covers slot.node = true := by
        simp only [Node.covered, List.mem_filter, List.mem_range, decide_eq_true_eq, at_iff]
        grind
      grind
    | _ => grind
  · simp [Sweep.Spares, called]

theorem Owned.current {node : String} (owned : s.Owned j node endpoint) (unlocked : s.nodeLocked = false) :
    s.registry.endpoint node = endpoint := by
  rcases owned.2.2.2 with current | ⟨w, replaces⟩
  · exact current
  · obtain ⟨sweep, found, going⟩ := at_iff.mp replaces
    have free := List.any_eq_false.mp unlocked sweep (List.mem_of_getElem? found)
    simp [going.holdsNode] at free

theorem current_next (enabled : s.Enabled action) (steps : s.Steps action t) {slot : PeerSlot}
    (owned : s.Owned j slot.node endpoint) :
    t.registry.endpoint slot.node = endpoint ∨ ∃ w, At t.sweeps w fun sweep => sweep.Replaces slot.node endpoint := by
  rcases registry_moves steps with same | ⟨w, sweep, rfl, has, kind, entered⟩
  · rw [same]
    obtain ⟨-, spared, -, before⟩ := owned
    refine before.imp_right ?_
    rintro ⟨w, replaces⟩
    obtain ⟨sweep, has, replaces⟩ := at_iff.mp replaces
    obtain ⟨later, after, moves⟩ := sweep_moves enabled steps has
    have spared := spared w sweep has
    exact ⟨w, at_iff.mpr ⟨later, after, by cases moves <;> grind⟩⟩
  · have current := owned.current enabled.2
    have known := owned.2.2.1
    by_cases same : t.registry.endpoint slot.node = endpoint
    · exact .inl same
    · -- the peers of an endpoint that the snapshot replaces are the sweep's
      have differs : slot.node ∈ RegistryManager.changed s.registry t.registry :=
        RegistryManager.mem_changed (by rwa [current]) (by rwa [current])
      exact .inr ⟨w, entered.mono fun later mine => by grind⟩

theorem owned_next (enabled : s.Enabled action) (steps : s.Steps action t)
    (lies : s.slots[j]? = some slot) (after : t.slots[j]? = some later) (uses : later.peer ≠ none ∨ later.endpoint = endpoint)
    (owned : s.Owned j slot.node endpoint) : t.Owned j slot.node endpoint := by
  refine ⟨?_, spares_next enabled steps lies after uses owned, owned.2.2.1, current_next enabled steps owned⟩
  by_cases unlocks : ∃ w peers conns, action = .unlockManager w peers conns
  · obtain ⟨w, peers, conns, rfl⟩ := unlocks
    obtain ⟨sweep, has, place⟩ := at_iff.mp enabled
    have spared := owned.2.1 w sweep has
    have kept := owned.1
    cases steps with
    | still => exact kept
    | plain =>
      simp only [next, has, unlock]
      grind
  · exact manager_same steps _ j owned.1 fun w peers conns is => unlocks ⟨w, peers, conns, is⟩

theorem slots_next (sound : s.Sound) (enabled : s.Enabled action) (steps : s.Steps action t) (j : Nat) (later : PeerSlot)
    (after : t.slots[j]? = some later) (k : Nat) (held : later.peer = some k) :
    At t.peers k fun handle => handle.slot = j ∧ handle.remoteNode = later.node ∧ t.Owned j later.node handle.endpoint := by
  obtain ⟨slot, lies, node, origin⟩ := peer_next steps after held
  rw [← node]
  have kept {endpoint : String} (owned : s.Owned j slot.node endpoint) :=
    owned_next enabled steps lies after (.inl (by simp [held])) owned
  have before : At s.peers k fun handle =>
      handle.slot = j ∧ handle.remoteNode = slot.node ∧ s.Owned j slot.node handle.endpoint := by
    rcases origin with had | ⟨a, attempt, rfl, has, rfl, keeps⟩
    · exact sound.slots j slot lies k had
    · obtain ⟨same, fits⟩ := (sound.attempts a attempt has).2.here lies
      simp only [Fits, At.here enabled has] at fits
      refine (fits.2.2.2 k rfl).mono fun handle mine => ⟨mine.1, mine.2.1.trans same.symm, ?_⟩
      rw [same, mine.2.2]
      exact fits.2.2.1 (by grind)
  refine (peers_next steps).at_mono before fun handle after same mine => ?_
  rw [same.1, same.2.1, same.2.2]
  exact ⟨mine.1, mine.2.1, kept mine.2.2⟩

theorem attempt_next (enabled : s.Enabled action) (steps : s.Steps action t)
    (has : t.attempts[a]? = some attempt) :
    (∃ old, s.attempts[a]? = some old ∧ old.slot = attempt.slot ∧ old.node = attempt.node ∧ old.endpoint = attempt.endpoint) ∨
      ∃ f find expired, action = .turn f attempt.slot attempt.endpoint expired ∧ s.finds[f]? = some find ∧
        attempt.node = find.node := by
  rcases attempt_origin enabled steps has with ⟨old, was, moves⟩ | made
  · exact .inl ⟨old, was, by cases moves <;> exact ⟨rfl, rfl, rfl⟩⟩
  · cases made with
    | mk f j endpoint expired find slot found => exact .inr ⟨f, find, expired, rfl, found, rfl⟩

/-- With the node's mutex free and no `Stop`, a slot of the manager may hold a peer of the node's endpoint. -/
theorem Sound.owned (sound : s.Sound) (unlocked : s.nodeLocked = false) (going : s.stopping = false) {node : String}
    (known : endpoint ≠ "") (kept : j ∈ s.manager node) (current : s.registry.endpoint node = endpoint) :
    s.Owned j node endpoint := by
  refine ⟨kept, fun w sweep found => ?_, known, .inl current⟩
  have free : sweep.holdsNode = false := by
    simpa using List.any_eq_false.mp unlocked sweep (List.mem_of_getElem? found)
  exact Sweep.spares_of node j free fun stops => by simp [sound.stopping w sweep found stops] at going

/-- `peerFor` starts an attempt only if its slot was detached since it made the channel, or the manager still has the
slot and the registry still gives the endpoint. -/
def Prompt (s : Node) : Action → Prop
  | .launch f j endpoint _ => s.stopping = false → (At s.slots j fun slot => slot.endpoint = endpoint) →
      At s.finds f fun find => j ∈ s.manager find.node ∧ s.registry.endpoint find.node = endpoint
  | _ => True

instance (s : Node) (a : Action) : Decidable (s.Prompt a) := by
  rcases a with _ | _ <;> dsimp only [Prompt] <;> infer_instance

theorem Sound.starts (sound : s.Sound) (enabled : s.Enabled (.launch f j endpoint a)) (prompt : s.Prompt (.launch f j endpoint a))
    (going : s.stopping = false) {slot : PeerSlot} (has : s.attempts[a]? = some attempt)
    (lies : s.slots[attempt.slot]? = some slot) :
    slot.peer = none ∧ (slot.endpoint = attempt.endpoint → s.Owned attempt.slot attempt.node attempt.endpoint) := by
  obtain ⟨find, found, _, ⟨known, on⟩, reserved⟩ := sound.find_at enabled.1
  obtain ⟨rfl, node, rfl, place⟩ := reserved.here has
  obtain ⟨same, fits⟩ := (sound.attempts a attempt has).2.here lies
  simp only [Fits, place] at fits
  have attached : slot.endpoint = attempt.endpoint →
      attempt.slot ∈ s.manager find.node ∧ s.registry.endpoint find.node = attempt.endpoint := fun matched =>
    (prompt going (at_iff.mpr ⟨slot, lies, matched⟩)).here found
  refine ⟨fits.2.1.elim (fun matched => ?_) id, fun matched => ?_⟩
  · -- A peer in the slot would be of the endpoint that the attempt is for.
    by_contra held
    obtain ⟨k, held⟩ := Option.ne_none_iff_exists'.mp held
    obtain ⟨handle, lookup, -, -, mine⟩ := at_iff.mp (sound.slots attempt.slot slot lies k held)
    refine (fits.2.2 k held).here lookup ?_
    rw [← mine.current enabled.2, same, node, (attached matched).2]
  · obtain ⟨kept, current⟩ := attached matched
    exact sound.owned enabled.2 going known (node ▸ kept) (node ▸ current)

theorem connecting_next (sound : s.Sound) (enabled : s.Enabled action) (steps : s.Steps action t)
    {later : PeerSlot} (has : t.attempts[a]? = some attempt) (after : t.slots[attempt.slot]? = some later)
    (flying : attempt.place.inFlight = true) : later.connecting = some a := by
  rcases attempt_origin enabled steps has with ⟨old, was, moved⟩ | made
  · obtain ⟨slot, lies, -⟩ := at_iff.mp (sound.attempts a old was).2
    have before : slot.connecting = some a := by
      refine sound.connecting was lies ?_
      cases moved with
      | launches f j endpoint starting =>
        obtain ⟨find, found, -, -, reserved⟩ := sound.find_at starting
        simp [(reserved.here was).2.2.2, AttemptPlace.inFlight]
      | _ => grind
    have same : attempt.slot = old.slot := by cases moved <;> rfl
    obtain ⟨next, there, moves⟩ := slot_moves steps lies
    cases after.symm.trans (same ▸ there)
    clear sound moved
    cases moves <;> grind
  · cases made with
    | mk f j endpoint expired find slot _ _ _ _ _ lies =>
      cases lies.symm.trans after
      rfl

theorem empty_next (sound : s.Sound) (enabled : s.Enabled action) (prompt : s.Prompt action)
    (steps : s.Steps action t) {later : PeerSlot} (has : t.attempts[a]? = some attempt)
    (after : t.slots[attempt.slot]? = some later) (begun : attempt.place.begun = true) : later.peer = none := by
  have flying : attempt.place.inFlight = true := by cases here : attempt.place <;> grind
  have connecting := connecting_next sound enabled steps has after flying
  rcases attempt_origin enabled steps has with ⟨old, was, moved⟩ | made
  · obtain ⟨slot, lies, -⟩ := at_iff.mp (sound.attempts a old was).2
    have before : slot.peer = none := by
      cases moved with
      | launches f j endpoint starting going => exact (sound.starts enabled prompt going was lies).1
      | same | dials | dialFails => exact sound.empty was lies (by grind)
      | _ => cases begun
    have same : attempt.slot = old.slot := by cases moved <;> rfl
    obtain ⟨next, there, moves⟩ := slot_moves steps lies
    cases after.symm.trans (same ▸ there)
    clear sound moved
    cases moves <;> grind
  · cases made
    cases begun

theorem begun_next (steps : s.Steps action t) (has : t.attempts[a]? = some attempt)
    (begun : attempt.place.begun = true) (enabled : s.Enabled action) :
    ∃ old, s.attempts[a]? = some old ∧ old.slot = attempt.slot ∧ old.node = attempt.node ∧ old.endpoint = attempt.endpoint ∧
      (old.place.begun = true ∨ ∃ f j endpoint, action = .launch f j endpoint a ∧ s.stopping = false) := by
  rcases attempt_origin enabled steps has with ⟨old, was, moves⟩ | made
  · exact ⟨old, was, by cases moves <;> grind⟩
  · cases made
    cases begun

theorem endpoint_next (steps : s.Steps action t) (lies : s.slots[j]? = some slot)
    (after : t.slots[j]? = some later) (connecting : slot.connecting ≠ none) (known : endpoint ≠ "")
    (matched : later.endpoint = endpoint) : slot.endpoint = endpoint := by
  obtain ⟨next, there, moves⟩ := slot_moves steps lies
  cases after.symm.trans there
  cases moves <;> grind

theorem owns_next (sound : s.Sound) (enabled : s.Enabled action) (prompt : s.Prompt action)
    (steps : s.Steps action t) {later : PeerSlot} (has : t.attempts[a]? = some attempt)
    (after : t.slots[attempt.slot]? = some later) (begun : attempt.place.begun = true)
    (matched : later.endpoint = attempt.endpoint) : t.Owned attempt.slot attempt.node attempt.endpoint := by
  obtain ⟨old, was, same, node, endpoint, origin⟩ := begun_next steps has begun enabled
  obtain ⟨known, on⟩ := sound.attempts a old was
  obtain ⟨slot, lies, sited, fits⟩ := at_iff.mp on
  rw [← endpoint] at matched
  rw [← same] at after
  have before (connecting : slot.connecting = some a) := endpoint_next steps lies after (by simp [connecting]) known matched
  have owned : s.Owned old.slot old.node old.endpoint := by
    rcases origin with begun | ⟨f, j, e, rfl, going⟩
    · unfold Fits at fits
      cases here : old.place <;> grind
    · obtain ⟨find, found, _, -, reserved⟩ := sound.find_at enabled.1
      refine (sound.starts enabled prompt going was lies).2 (before (sound.connecting was lies ?_))
      rw [(reserved.here was).2.2.2]
      rfl
  rw [← same, ← node, ← endpoint, ← sited]
  rw [← sited] at owned
  exact owned_next enabled steps lies after (.inr matched) owned

theorem slot_next (steps : s.Steps action t) (lies : s.slots[j]? = some slot)
    (after : t.slots[j]? = some later) (connecting : slot.connecting = some a) (goes : ∀ peer, action ≠ .settle a peer) :
    later.peer = none ∨ (later.peer = slot.peer ∧ later.endpoint = slot.endpoint) := by
  obtain ⟨next, there, moves⟩ := slot_moves steps lies
  cases after.symm.trans there
  cases moves <;> grind

theorem reserves_next (sound : s.Sound) (enabled : s.Enabled action) (steps : s.Steps action t)
    {later : PeerSlot} (has : t.attempts[a]? = some attempt) (after : t.slots[attempt.slot]? = some later)
    (place : attempt.place = .reserved f) : (later.endpoint = attempt.endpoint ∨ later.peer = none) ∧
      ∀ k, later.peer = some k → At t.peers k fun handle => handle.endpoint ≠ attempt.endpoint := by
  rcases attempt_origin enabled steps has with ⟨old, was, moved⟩ | made
  · cases moved with
    | same =>
      obtain ⟨slot, lies, -, fits⟩ := at_iff.mp (sound.attempts a attempt was).2
      simp only [Fits, place] at fits
      have goes (peer : Option Nat) (is : action = .settle a peer) : False := by
        subst is
        have dialed := At.here enabled was
        cases place.symm.trans dialed
      rcases slot_next steps lies after fits.1 goes with gone | ⟨peer, endpoint⟩
      · exact ⟨.inr gone, by simp [gone]⟩
      · rw [peer, endpoint]
        refine ⟨fits.2.1, fun k held => (peers_next steps).at_mono (fits.2.2 k held) fun _ _ same differs => ?_⟩
        rw [same.2.2]
        exact differs
    | _ => cases place
  · cases made with
    | mk f j endpoint expired find slot _ there _ others peers lies =>
      cases lies.symm.trans after
      refine ⟨.inl rfl, fun k held => ?_⟩
      have had : slot.peer = some k := by grind
      obtain ⟨handle, found, -⟩ := at_iff.mp (sound.slots j slot there k had)
      rw [peers]
      exact at_iff.mpr ⟨handle, found, others k handle held found⟩

theorem dialed_next (sound : s.Sound) (enabled : s.Enabled action) (steps : s.Steps action t)
    (has : t.attempts[a]? = some attempt) (place : attempt.place = .dialed (some k)) :
    At t.peers k fun handle =>
      handle.slot = attempt.slot ∧ handle.remoteNode = attempt.node ∧ handle.endpoint = attempt.endpoint := by
  rcases attempt_origin enabled steps has with ⟨old, was, moved⟩ | made
  · cases moved with
    | same =>
      obtain ⟨slot, -, -, fits⟩ := at_iff.mp (sound.attempts a attempt was).2
      simp only [Fits, place] at fits
      refine (peers_next steps).at_mono (fits.2.2.2 k rfl) fun handle later same mine => ?_
      rw [same.1, same.2.1, same.2.2]
      exact mine
    | dials dialing peers =>
      cases place
      rw [peers]
      exact at_iff.mpr ⟨_, List.getElem?_concat_length .., rfl, rfl, rfl⟩
    | _ => cases place
  · cases made
    cases place

theorem attempts_next (sound : s.Sound) (enabled : s.Enabled action) (prompt : s.Prompt action) (steps : s.Steps action t)
    (a : Nat) (attempt : Attempt) (has : t.attempts[a]? = some attempt) : attempt.endpoint ≠ "" ∧
      At t.slots attempt.slot fun slot => slot.node = attempt.node ∧ t.Fits a attempt slot := by
  have sited : attempt.endpoint ≠ "" ∧ At s.slots attempt.slot fun slot => slot.node = attempt.node := by
    rcases attempt_next enabled steps has with ⟨old, was, slot, node, endpoint⟩ | ⟨f, find, expired, rfl, found, node⟩
    · rw [← slot, ← node, ← endpoint]
      exact (sound.attempts a old was).imp_right fun on => on.mono fun _ mine => mine.1
    · have known := sound.finds f find found
      simp only [Finds, At.here enabled found] at known
      rw [node]
      exact known
  refine ⟨sited.1, ?_⟩
  obtain ⟨later, after, node⟩ := at_iff.mp (node_next steps sited.2)
  refine at_iff.mpr ⟨later, after, node, ?_⟩
  have connecting := connecting_next sound enabled steps has after
  have empty := empty_next sound enabled prompt steps has after
  have owns := owns_next sound enabled prompt steps has after
  unfold Fits
  cases place : attempt.place with
  | reserved f => exact ⟨connecting (by rw [place]; rfl), reserves_next sound enabled steps has after place⟩
  | dialing => 
    simp only [place] at connecting empty owns
    exact ⟨connecting rfl, empty rfl, owns rfl⟩
  | dialed peer =>
    refine ⟨connecting (by rw [place]; rfl), empty (by rw [place]; rfl), owns (by rw [place]; rfl), ?_⟩
    rintro k rfl
    exact dialed_next sound enabled steps has place
  | _ => trivial

theorem sound_next (sound : s.Sound) (prompt : s.Prompt action) (enabled : s.Enabled action) :
    (s.next action).Sound where
  manager := manager_next sound (next_steps s action)
  finds := finds_next sound enabled (next_steps s action)
  attempts := attempts_next sound enabled prompt (next_steps s action)
  slots := slots_next sound enabled (next_steps s action)
  notified := notified_next sound enabled (next_steps s action)
  placed := placed_next sound enabled (next_steps s action)
  stopping := stopping_next sound enabled (next_steps s action)

end Node

end Skygo.Transport
