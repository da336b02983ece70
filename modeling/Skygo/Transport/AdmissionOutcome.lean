import Skygo.Transport.AdmissionOrder

/-! What is known of a request once a barrier behind it is answered: it was delivered, or somebody was told that it was
not. -/

set_option autoImplicit false

attribute [-instance] instBooleanRingBool

namespace Skygo.Transport

open Semantics
open scoped List

structure Line.Tail (line : Line) : Prop where
  last : ∀ j, line.hand = .holding j ∨ line.hand = .telling j → line.log.getLast? = some (.request j)
  barriers : ∀ b < line.barriers.length, .barrier b ∈ line.log

namespace Admission

variable {s : Admission} {a : Action} {c j w : Nat} {line later : Line}

structure Outcome (s : Admission) : Prop where
  tails : ∀ (c : Nat) (line : Line), s.lines[c]? = some line → line.Tail
  spent : ∀ (w : Nat) (lane : Transport.Lane), s.lanes[w]? = some lane → ∀ j, lane.grip = .spent j →
    j ∈ s.received ∨ j ∈ s.told
  ended : ∀ j ∈ s.ended, j ∈ s.received ∨ j ∈ s.told ∨ ∃ c, At s.lines c fun line => line.hand = .telling j

theorem LineMoves.telling (moves : s.LineMoves c line a later) (tells : line.hand = .telling j) :
    later.hand = .telling j ∨ a = .tell c j := by
  cases moves <;> grind

theorem received_or_told (known : j ∈ s.received ∨ j ∈ s.told) (a : Action) :
    j ∈ (s.next a).received ∨ j ∈ (s.next a).told := by
  cases a <;> grind

namespace Outcome

theorem tail_next (outcome : Outcome s) (enabled : s.Enabled a) (found : (s.next a).lines[c]? = some later) :
    later.Tail := by
  rcases line_origin enabled found with ⟨line, was, moves⟩ | ⟨-, rfl, -⟩
  · obtain ⟨last, barriers⟩ := outcome.tails c line was
    cases moves <;> constructor <;> grind
  · exact ⟨fun j holds => by simp at holds, fun b bound => by simp at bound⟩

theorem spent_next (outcome : Outcome s) (enabled : s.Enabled a) {later : Transport.Lane}
    (found : (s.next a).lanes[w]? = some later) (grip : later.grip = .spent j) :
    j ∈ (s.next a).received ∨ j ∈ (s.next a).told := by
  obtain ⟨lane, was, moves⟩ := lane_origin enabled found
  cases moves with
  | same => exact received_or_told (outcome.spent w later was j grip) a
  | enqueues => exact received_or_told (outcome.spent w lane was j grip) _
  | spends | takes | finishes => grind

theorem ended_next (outcome : Outcome s) (sound : Sound s) (enabled : s.Enabled a) (member : j ∈ (s.next a).ended) :
    j ∈ (s.next a).received ∨ j ∈ (s.next a).told ∨ ∃ c, At (s.next a).lines c fun line => line.hand = .telling j := by
  rw [sound.ended_next enabled, List.mem_append, Option.mem_toList] at member
  rcases member with old | finishes
  · rcases outcome.ended j old with delivered | told | ⟨c, tells⟩
    · exact or_assoc.mp (.inl (received_or_told (.inl delivered) a))
    · exact or_assoc.mp (.inl (received_or_told (.inr told) a))
    · obtain ⟨line, was, telling⟩ := at_iff.mp tells
      obtain ⟨later, after, moves⟩ := line_moves enabled was
      rcases moves.telling telling with still | rfl
      · exact .inr (.inr ⟨c, at_iff.mpr ⟨later, after, still⟩⟩)
      · exact .inr (.inl (List.mem_append_right _ (List.mem_singleton_self j)))
  · cases a with
    | refuse c i =>
      obtain ⟨line, was, holds⟩ := at_iff.mp enabled
      obtain ⟨later, after, moves⟩ := line_moves enabled was
      have telling : later.hand = .telling j := by
        cases moves <;> grind
      exact .inr (.inr ⟨c, at_iff.mpr ⟨later, after, telling⟩⟩)
    | finish w i =>
      obtain ⟨lane, was, grip⟩ := at_iff.mp enabled
      cases finishes
      exact or_assoc.mp (.inl (received_or_told (outcome.spent w lane was j grip) _))
    | _ => cases finishes

end Outcome

theorem outcome_next (sound : Sound s) (outcome : Outcome s) (enabled : s.Enabled a) : Outcome (s.next a) where
  tails _ _ := outcome.tail_next enabled
  spent _ _ found _ := outcome.spent_next enabled found
  ended _ := outcome.ended_next sound enabled

theorem outcome_reachable {lanes : Nat} (reach : machine.Reachable { lanes := List.replicate lanes {} } s) : Outcome s := by
  refine reach.invariant_with ⟨fun c line found => by simp at found, fun w lane found j grip => ?_, by simp⟩
    fun _ _ known outcome enabled => outcome_next (sound_reachable known) outcome enabled
  rw [List.eq_of_mem_replicate (List.mem_of_getElem? found)] at grip
  cases grip

/-- The request before an answered barrier was delivered, or somebody was told what became of it: its reader, which
tells last, has read the barrier since. -/
theorem answered_outcome {lanes : Nat} (reach : machine.Reachable { lanes := List.replicate lanes {} } s) {line : Line}
    {b : Nat} {bar : Barrier} (found : s.lines[c]? = some line) (there : line.barriers[b]? = some bar)
    (answered : bar.answered = true) (before : Precedes line.log (.request j) (.barrier b)) :
    j ∈ s.received ∨ j ∈ s.told := by
  have logged := logged_reachable reach
  have outcome := outcome_reachable reach
  have once := answered_behind (sound_reachable reach) (awake_reachable reach) logged found there answered before
  have ended : j ∈ s.ended := List.count_pos_iff.mp (by omega)
  rcases outcome.ended j ended with delivered | told | ⟨d, telling⟩
  · exact .inl delivered
  · exact .inr told
  · obtain ⟨other, known, tells⟩ := at_iff.mp telling
    have last := (outcome.tails d other known).last j (.inr tells)
    obtain ⟨ticket, issued, on⟩ := at_iff.mp (((logged c line found).requests j).mp (before.subset List.mem_cons_self))
    have here := (((logged d other known).requests j).mp (List.mem_of_getLast? last)).here issued
    obtain rfl : d = c := here.symm.trans on
    obtain rfl := Option.some.inj (found.symm.trans known)
    obtain ⟨rest, log⟩ := List.getLast?_eq_some_iff.mp last
    rw [log, precedes_concat] at before
    have early : Precedes rest (.request j) (.barrier b) := before.resolve_right (by simp)
    have increasing := (logged d line found).increasing
    rw [log, List.filterMap_append] at increasing
    have twice := (List.pairwise_append.mp increasing).2.2 j
      (List.mem_filterMap.mpr ⟨_, early.subset List.mem_cons_self, rfl⟩) j (by simp [Read.request?])
    exact absurd twice (lt_irrefl j)

end Admission

end Skygo.Transport
