import Skygo.Transport.NodeSteps

/-! What a slot holds: its peer, and the connection attempt that may give it one. -/

set_option autoImplicit false

attribute [-instance] instBooleanRingBool

namespace Skygo.Transport

open Semantics

namespace RegistryManager

theorem mem_changed {old next : Snapshot} {nodeID : String} (known : old.endpoint nodeID ≠ "")
    (differs : next.endpoint nodeID ≠ old.endpoint nodeID) : nodeID ∈ changed old next := by
  have listed : nodeID ∈ old.map Prod.fst := by
    by_contra absent
    refine known ?_
    have none : old.reverse.lookup nodeID = none := by
      rw [List.lookup_eq_none_iff]
      intro entry member
      simp only [bne_iff_ne, ne_eq]
      rintro rfl
      exact absent (List.mem_map.mpr ⟨entry, List.mem_reverse.mp member, rfl⟩)
    simp [Snapshot.endpoint, none]
  refine List.mem_append_left _ (List.mem_filter.mpr ⟨listed, ?_⟩)
  simp [differs]

end RegistryManager

namespace Sweep

def Spares (sweep : Sweep) (node : String) (j : Nat) : Prop :=
  match sweep.place with
  | .called | .entered _ | .returned false => True
  | .detaching todo _ _ => sweep.covers node = true → j ∈ todo
  | .closing _ _ | .revoking _ | .returned true => sweep.isReload = true

/-- A `Reload` that has installed its snapshot, and not yet closed the peers of the endpoint it replaces. -/
def Replaces (sweep : Sweep) (node endpoint : String) : Prop :=
  sweep.isReload = true ∧ sweep.covers node = true ∧ sweep.before.endpoint node = endpoint ∧
  match sweep.place with
  | .entered _ | .detaching _ _ _ => True
  | _ => False

def Stops (sweep : Sweep) : Prop :=
  sweep.isReload = false ∧ sweep.place ≠ .called ∧ sweep.place ≠ .returned false

def Swept (sweep : Sweep) : Prop :=
  sweep.isReload = false ∧
  match sweep.place with
  | .closing _ _ | .revoking _ | .returned true => True
  | _ => False

theorem Swept.takes {sweep : Sweep} {node : String} {j : Nat} (swept : sweep.Swept) : ¬ sweep.Spares node j := by
  obtain ⟨stop, past⟩ := swept
  unfold Spares
  split at past <;> simp_all

theorem Replaces.holdsNode {sweep : Sweep} {node endpoint : String} (replaces : sweep.Replaces node endpoint) :
    sweep.holdsNode = true := by
  obtain ⟨reload, -, -, under⟩ := replaces
  cases place : sweep.place <;> simp_all [Sweep.holdsNode]

/-- Only a `Stop` under way and a `Reload` that holds the node's mutex take slots away. -/
theorem spares_of {sweep : Sweep} (node : String) (j : Nat) (unlocked : sweep.holdsNode = false) (going : ¬ sweep.Stops) :
    sweep.Spares node j := by
  cases reload : sweep.isReload with
  | true => cases place : sweep.place <;> simp_all [Spares, Sweep.holdsNode]
            split <;> simp_all
  | false => cases place : sweep.place <;> simp_all [Spares, Stops]

end Sweep

/-- The attempt that a call of `peerFor` has made, and neither started nor announced as given up. -/
def FindPlace.reserves : FindPlace → Option Nat
  | .starting _ _ a | .aborting _ a | .aborted a => some a
  | _ => none

def AttemptPlace.owner : AttemptPlace → Option Nat
  | .reserved f | .abandoned f => some f
  | _ => none

def AttemptPlace.inFlight : AttemptPlace → Bool
  | .reserved _ | .dialing | .dialed _ => true
  | _ => false

def AttemptPlace.begun : AttemptPlace → Bool
  | .dialing | .dialed _ => true
  | _ => false

attribute [grind] FindPlace.reserves AttemptPlace.owner AttemptPlace.inFlight AttemptPlace.begun

namespace Node

variable {s t : Node} {a j k f w : Nat} {node endpoint : String}

/-- The slot may hold a peer of this endpoint: it is the manager's, and the endpoint is the node's or about to be
replaced by a `Reload` that will come to this slot. -/
def Owned (s : Node) (j : Nat) (node endpoint : String) : Prop :=
  j ∈ s.manager node ∧
  (∀ (w : Nat) (sweep : Sweep), s.sweeps[w]? = some sweep → sweep.Spares node j) ∧
  endpoint ≠ "" ∧
  (s.registry.endpoint node = endpoint ∨ ∃ w, At s.sweeps w fun sweep => sweep.Replaces node endpoint)

def Fits (s : Node) (a : Nat) (attempt : Attempt) (slot : PeerSlot) : Prop :=
  match attempt.place with
  | .reserved _ =>
    slot.connecting = some a ∧ (slot.endpoint = attempt.endpoint ∨ slot.peer = none) ∧
      ∀ k, slot.peer = some k → At s.peers k fun handle => handle.endpoint ≠ attempt.endpoint
  | .dialing =>
    slot.connecting = some a ∧ slot.peer = none ∧
      (slot.endpoint = attempt.endpoint → s.Owned attempt.slot attempt.node attempt.endpoint)
  | .dialed peer =>
    slot.connecting = some a ∧ slot.peer = none ∧
      (slot.endpoint = attempt.endpoint → s.Owned attempt.slot attempt.node attempt.endpoint) ∧
      ∀ k ∈ peer, At s.peers k fun handle =>
        handle.slot = attempt.slot ∧ handle.remoteNode = attempt.node ∧ handle.endpoint = attempt.endpoint
  | _ => True

def Finds (s : Node) (f : Nat) (find : PeerFor) : Prop :=
  match find.place with
  | .located endpoint => endpoint ≠ ""
  | .looping j endpoint | .waiting j endpoint _ => endpoint ≠ "" ∧ At s.slots j fun slot => slot.node = find.node
  | .starting j endpoint a =>
    (endpoint ≠ "" ∧ At s.slots j fun slot => slot.node = find.node) ∧
      At s.attempts a fun attempt =>
        attempt.slot = j ∧ attempt.node = find.node ∧ attempt.endpoint = endpoint ∧ attempt.place = .reserved f
  | .aborting j a => At s.attempts a fun attempt => attempt.slot = j ∧ attempt.place = .reserved f
  | .aborted a => At s.attempts a fun attempt => attempt.place = .abandoned f
  | _ => True

def Lodged (s : Node) (k : Nat) : Prop := ∃ j, At s.slots j fun slot => slot.peer = some k

/-- `connectSlot`, `closeChanged` or `closeAll` has the peer in hand. -/
def Handed (s : Node) (k : Nat) : Prop :=
  (∃ a, At s.attempts a fun attempt => attempt.place = .dialed (some k) ∨ attempt.place = .discarding (some k)) ∨
    ∃ w, At s.sweeps w fun sweep => k ∈ sweep.peers

structure Sound (s : Node) : Prop where
  manager : ∀ node, ∀ j ∈ s.manager node, At s.slots j fun slot => slot.node = node
  finds : ∀ (f : Nat) (find : PeerFor), s.finds[f]? = some find → s.Finds f find
  attempts : ∀ (a : Nat) (attempt : Attempt), s.attempts[a]? = some attempt →
    attempt.endpoint ≠ "" ∧ At s.slots attempt.slot fun slot => slot.node = attempt.node ∧ s.Fits a attempt slot
  slots : ∀ (j : Nat) (slot : PeerSlot), s.slots[j]? = some slot → ∀ k, slot.peer = some k →
    At s.peers k fun handle => handle.slot = j ∧ handle.remoteNode = slot.node ∧ s.Owned j slot.node handle.endpoint
  notified : ∀ (k : Nat) (handle : PeerHandle), s.peers[k]? = some handle → handle.notified = true → handle.closed = true
  placed : ∀ (k : Nat) (handle : PeerHandle), s.peers[k]? = some handle → handle.closed = false →
    s.Lodged k ∨ s.Handed k
  stopping : ∀ (w : Nat) (sweep : Sweep), s.sweeps[w]? = some sweep → sweep.Stops → s.stopping = true

attribute [grind] Lodged Handed Finds Fits

theorem sound_initial (nodeID : String) (connectionsPerPeer : Nat) (registry : Snapshot) :
    (initial nodeID connectionsPerPeer registry).Sound := by
  constructor <;> simp [initial]

theorem same_refl (handle : PeerHandle) : handle.Same handle := ⟨rfl, rfl, rfl⟩

variable {attempt : Attempt}

theorem Sound.connecting (sound : s.Sound) {slot : PeerSlot} (has : s.attempts[a]? = some attempt)
    (lies : s.slots[attempt.slot]? = some slot) (flying : attempt.place.inFlight = true) : slot.connecting = some a := by
  have fits := ((sound.attempts a attempt has).2.here lies).2
  clear sound
  grind

theorem Sound.empty (sound : s.Sound) {slot : PeerSlot} (has : s.attempts[a]? = some attempt)
    (lies : s.slots[attempt.slot]? = some slot) (begun : attempt.place.begun = true) : slot.peer = none := by
  have fits := ((sound.attempts a attempt has).2.here lies).2
  clear sound
  grind

end Node

end Skygo.Transport
