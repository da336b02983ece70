import Skygo.Transport.NodeSound

/-! A peer that `peerFor` returned is that of a slot that was connected once, whatever happens to the slot later. -/

set_option autoImplicit false

attribute [-instance] instBooleanRingBool

namespace Skygo.Transport

open Semantics

def PeerSlot.Ages (before after : PeerSlot) : Prop := before.everConnected = true → after.everConnected = true

namespace Node

variable {s t : Node} {a j k f : Nat}

def Used (s : Node) (k : Nat) : Prop :=
  At s.peers k fun handle => At s.slots handle.slot fun slot => slot.everConnected = true

theorem Used.mono (used : s.Used k) (peers : Grows PeerHandle.Same s.peers t.peers)
    (slots : Grows PeerSlot.Ages s.slots t.slots) : t.Used k :=
  peers.at_mono used fun _ _ same known => same.1 ▸ slots.at_mono known fun _ _ ages => ages

structure Grounded (s : Node) : Prop where
  slots : ∀ (j : Nat) (slot : PeerSlot), s.slots[j]? = some slot → ∀ k, slot.peer = some k →
    slot.everConnected = true ∧ At s.peers k fun handle => handle.slot = j
  attempts : ∀ (a : Nat) (attempt : Attempt), s.attempts[a]? = some attempt → ∀ k, attempt.place = .dialed (some k) →
    At s.peers k fun handle => handle.slot = attempt.slot
  finds : ∀ (f : Nat) (find : PeerFor), s.finds[f]? = some find → ∀ k, find.place = .returned (some k) → s.Used k

theorem ages_refl (slot : PeerSlot) : slot.Ages slot := id

variable {action : Action}

theorem ages_next (steps : s.Steps action t) : Grows PeerSlot.Ages s.slots t.slots := by
  intro j slot lies
  obtain ⟨later, after, moves⟩ := slot_moves steps lies
  exact ⟨later, after, by unfold PeerSlot.Ages; cases moves <;> grind⟩

theorem everConnected_next (grounded : s.Grounded) (steps : s.Steps action t) {later : PeerSlot}
    (after : t.slots[j]? = some later) (held : later.peer = some k) : later.everConnected = true := by
  rcases slot_origin steps after with ⟨slot, lies, moves⟩ | ⟨-, node, rfl⟩
  · have before := grounded.slots j slot lies k
    clear grounded
    cases moves <;> grind
  · cases held

theorem dialed_slot_next (grounded : s.Grounded) (enabled : s.Enabled action) (steps : s.Steps action t) {attempt : Attempt}
    (has : t.attempts[a]? = some attempt) (place : attempt.place = .dialed (some k)) :
    At t.peers k fun handle => handle.slot = attempt.slot := by
  rcases attempt_origin enabled steps has with ⟨old, was, moves⟩ | made
  · cases moves with
    | same => exact (peers_next steps).at_mono (grounded.attempts a attempt was k place) fun _ _ same here => same.1.trans here
    | dials dialing peers =>
      cases place
      rw [peers]
      exact at_iff.mpr ⟨_, List.getElem?_concat_length .., rfl⟩
    | _ => cases place
  · cases made
    cases place

theorem returned_next (enabled : s.Enabled action) (steps : s.Steps action t) {find : PeerFor}
    (found : t.finds[f]? = some find) (returned : find.place = .returned (some k)) :
    s.finds[f]? = some find ∨ ∃ (j : Nat) (slot : PeerSlot), s.slots[j]? = some slot ∧ slot.peer = some k := by
  rcases find_origin enabled steps found with ⟨old, was, moves⟩ | ⟨-, called⟩
  · cases moves with
    | same => exact .inl was
    | finds j endpoint expired slot k _ lies held =>
      cases returned
      exact .inr ⟨j, slot, lies, held⟩
    | _ => cases returned
  · cases called.symm.trans returned

theorem grounded_next (grounded : s.Grounded) (enabled : s.Enabled action) : (s.next action).Grounded where
  slots j later after k held := by
    have steps := next_steps s action
    refine ⟨everConnected_next grounded steps after held, ?_⟩
    obtain ⟨slot, lies, -, had | ⟨a, attempt, rfl, has, rfl, -⟩⟩ := peer_next steps after held
    · exact (peers_next steps).at_mono (grounded.slots j slot lies k had).2 fun _ _ same here => same.1.trans here
    · obtain ⟨_, again, place⟩ := at_iff.mp enabled
      cases has.symm.trans again
      exact (peers_next steps).at_mono (grounded.attempts a attempt has k place) fun _ _ same here => same.1.trans here
  attempts _ _ has _ place := dialed_slot_next grounded enabled (next_steps s action) has place
  finds f find found k returned := by
    have steps := next_steps s action
    have used : s.Used k := by
      rcases returned_next enabled steps found returned with was | ⟨j, slot, lies, held⟩
      · exact grounded.finds f find was k returned
      · obtain ⟨ever, here⟩ := grounded.slots j slot lies k held
        exact here.mono fun handle on => on ▸ at_iff.mpr ⟨slot, lies, ever⟩
    exact used.mono (peers_next steps) (ages_next steps)

theorem grounded_reachable {nodeID : String} {connectionsPerPeer : Nat} {registry : Snapshot}
    (reach : machine.Reachable (initial nodeID connectionsPerPeer registry) s) : s.Grounded :=
  reach.invariant (I := Grounded) (by constructor <;> simp [initial]) fun _ _ grounded enabled =>
    grounded_next grounded enabled

structure Later (s t : Node) : Prop where
  peers : Grows PeerHandle.Same s.peers t.peers
  slots : Grows PeerSlot.Ages s.slots t.slots

theorem Later.refl (s : Node) : Later s s := ⟨.refl same_refl _, .refl ages_refl _⟩

theorem later_next (s : Node) (a : Action) : Later s (s.next a) :=
  ⟨peers_next (next_steps s a), ages_next (next_steps s a)⟩

end Node

end Skygo.Transport
