import Mathlib.Data.Set.Insert
import Mathlib.Logic.Function.Basic

/-! Watermarks: numbers are handed out in order, end in any order, and a counter follows the longest
run of ended numbers from the first one on.

`Tracks` relates a watermark to the set of numbers that have ended. It is kept as long as a number
ends at most once; a number that ended twice would stay in the map below the counter for ever.
-/

set_option autoImplicit false

namespace Skygo.Semantics

structure Watermark where
  /-- The last number handed out. -/
  next : Nat := 0
  /-- Everything up to here has ended. -/
  done : Nat := 0
  /-- The numbers above `done` that have ended. -/
  finished : Nat → Bool := fun _ => false

namespace Watermark

variable {w : Watermark} {ended : Set Nat} {n : Nat}

def begin (w : Watermark) : Watermark := { w with next := w.next + 1 }

def advance : Nat → Watermark → Watermark
  | 0, w => w
  | fuel + 1, w =>
    if w.finished (w.done + 1) then
      advance fuel { w with finished := Function.update w.finished (w.done + 1) false, done := w.done + 1 }
    else w

/-- Every number in the map was handed out, so the loop moves at most `next - done` times. -/
def finish (w : Watermark) (n : Nat) : Watermark :=
  advance (w.next - w.done) { w with finished := Function.update w.finished n true }

/-- The numbers that ended are those up to `done` and those in the map. -/
structure Counts (w : Watermark) (ended : Set Nat) : Prop where
  issued : ∀ n ∈ ended, 0 < n ∧ n ≤ w.next
  low : ∀ n, 0 < n → n ≤ w.done → n ∈ ended
  high : ∀ n, w.finished n = true ↔ n ∈ ended ∧ w.done < n
  within : w.done ≤ w.next

structure Tracks (w : Watermark) (ended : Set Nat) : Prop extends Counts w ended where
  stuck : w.done + 1 ∉ ended

theorem tracks_init : Tracks {} ∅ where
  issued := by simp
  low := by simp; omega
  high := by simp
  within := le_rfl
  stuck := by simp

theorem Tracks.begin (tracks : Tracks w ended) : Tracks w.begin ended where
  issued n member := ⟨(tracks.issued n member).1, (tracks.issued n member).2.trans (Nat.le_succ _)⟩
  low := tracks.low
  high := tracks.high
  within := tracks.within.trans (Nat.le_succ _)
  stuck := tracks.stuck

@[simp]
theorem advance_next (fuel : Nat) (w : Watermark) : (advance fuel w).next = w.next := by
  fun_induction advance fuel w <;> simp_all

theorem le_advance_done (fuel : Nat) (w : Watermark) : w.done ≤ (advance fuel w).done := by
  fun_induction advance fuel w with
  | case1 => exact le_rfl
  | case2 w fuel more ih => exact (Nat.le_succ _).trans ih
  | case3 => exact le_rfl

@[simp]
theorem finish_next (w : Watermark) (n : Nat) : (w.finish n).next = w.next := advance_next ..

theorem le_finish_done (w : Watermark) (n : Nat) : w.done ≤ (w.finish n).done :=
  le_advance_done _ { w with finished := Function.update w.finished n true }

theorem Counts.move (counts : Counts w ended) (more : w.finished (w.done + 1) = true) :
    Counts { w with finished := Function.update w.finished (w.done + 1) false, done := w.done + 1 } ended where
  issued := counts.issued
  low n positive small := by
    rcases Nat.lt_or_ge w.done n with above | below
    · obtain rfl : n = w.done + 1 := le_antisymm small above
      exact ((counts.high _).mp more).1
    · exact counts.low n positive below
  high n := by
    by_cases here : n = w.done + 1
    · simp [here]
    · have known := counts.high n
      simp only [Function.update_of_ne here, known]
      constructor
      · rintro ⟨member, above⟩
        exact ⟨member, by omega⟩
      · rintro ⟨member, above⟩
        exact ⟨member, by omega⟩
  within := (counts.issued _ ((counts.high _).mp more).1).2

/-- With the fuel that `finish` gives it, the loop ends at a number that has not ended. -/
theorem tracks_advance (fuel : Nat) (counts : Counts w ended) (enough : w.next ≤ w.done + fuel) :
    Tracks (advance fuel w) ended := by
  induction fuel generalizing w with
  | zero =>
    refine { counts with stuck := fun member => ?_ }
    have issued := (counts.issued _ member).2
    simp only [advance] at issued
    omega
  | succ fuel ih =>
    unfold advance
    split
    · next more =>
      have moved := counts.move more
      refine ih moved ?_
      simp only
      omega
    · next still =>
      refine { counts with stuck := fun member => still ?_ }
      exact (counts.high _).mpr ⟨member, Nat.lt_succ_self _⟩

theorem Tracks.finish (tracks : Tracks w ended) (positive : 0 < n) (issued : n ≤ w.next)
    (fresh : n ∉ ended) : Tracks (w.finish n) (insert n ended) := by
  have above : w.done < n := by
    by_contra below
    exact fresh (tracks.low n positive (Nat.le_of_not_lt below))
  refine tracks_advance _ ?_ ?_
  · constructor
    · rintro m (rfl | member)
      · exact ⟨positive, issued⟩
      · exact tracks.issued m member
    · intro m here low
      exact Set.mem_insert_of_mem _ (tracks.low m here low)
    · intro m
      by_cases same : m = n
      · simp [same, above]
      · simp [tracks.high m, same]
    · exact tracks.within
  · have := tracks.within
    simp only
    omega

end Watermark

end Skygo.Semantics
