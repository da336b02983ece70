import Mathlib.Data.List.Basic

/-! A counter that signals zero on a one-shot channel.

Going up from zero makes a new open channel; coming down to zero closes it. A
waiter keeps the channel it was given, so closed channels are never opened again
and every channel but the last is closed. Counting down at zero and closing a
closed channel are faults the gauge records.
-/

set_option autoImplicit false

namespace Skygo.Semantics

structure Gauge where
  count : Nat := 0
  channel : Nat := 0
  closed : List Bool := [true]
  broken : Bool := false
  deriving DecidableEq

namespace Gauge

variable {g : Gauge} {c : Nat}

def IsClosed (g : Gauge) (c : Nat) : Prop := g.closed[c]? = some true

instance (g : Gauge) (c : Nat) : Decidable (g.IsClosed c) := inferInstanceAs (Decidable (_ = _))

def raise (g : Gauge) : Gauge :=
  if g.count = 0 then
    { g with count := 1, channel := g.closed.length, closed := g.closed ++ [false] }
  else { g with count := g.count + 1 }

def lower (g : Gauge) : Gauge :=
  if g.count = 0 then { g with broken := true }
  else if g.count = 1 then
    { g with
      count := 0
      closed := g.closed.set g.channel true
      broken := g.broken || decide (g.IsClosed g.channel) }
  else { g with count := g.count - 1 }

structure Coherent (g : Gauge) : Prop where
  last : g.channel + 1 = g.closed.length
  signal : g.IsClosed g.channel ↔ g.count = 0
  older : ∀ c < g.channel, g.IsClosed c
  intact : g.broken = false

theorem coherent_idle : Coherent {} := ⟨rfl, by decide, by simp, rfl⟩

@[simp] theorem count_raise (g : Gauge) : g.raise.count = g.count + 1 := by
  unfold raise
  split <;> simp_all

@[simp] theorem count_lower (g : Gauge) : g.lower.count = g.count - 1 := by
  unfold lower
  split_ifs <;> simp_all

theorem Coherent.raise (coherent : g.Coherent) : g.raise.Coherent := by
  unfold Gauge.raise
  split
  · next zero =>
    refine ⟨by simp, by simp [IsClosed], fun c before => ?_, coherent.intact⟩
    have inside : c < g.closed.length := before
    rw [IsClosed, List.getElem?_append_left inside]
    by_cases current : c = g.channel
    · exact current ▸ coherent.signal.mpr zero
    · apply coherent.older c
      have last := coherent.last
      omega
  · next positive =>
    refine ⟨coherent.last, ?_, coherent.older, coherent.intact⟩
    have signal := coherent.signal
    simp only [positive, iff_false] at signal
    simpa [IsClosed] using signal

theorem Coherent.lower (coherent : g.Coherent) (positive : 0 < g.count) : g.lower.Coherent := by
  have inside : g.channel < g.closed.length := by
    have last := coherent.last
    omega
  have opened : ¬g.IsClosed g.channel := by
    rw [coherent.signal]
    omega
  unfold Gauge.lower
  split_ifs with zero one
  · omega
  · refine ⟨by simpa using coherent.last, by simp [IsClosed, inside], fun c before => ?_, ?_⟩
    · have other : g.channel ≠ c := by
        have earlier : c < g.channel := before
        omega
      simpa [IsClosed, List.getElem?_set_ne other] using coherent.older c before
    · simp [coherent.intact, opened]
  · refine ⟨coherent.last, ?_, coherent.older, coherent.intact⟩
    have signal := coherent.signal
    simp only [zero, iff_false] at signal
    simpa [IsClosed, Nat.sub_eq_zero_iff_le, show ¬g.count ≤ 1 by omega] using signal

theorem IsClosed.raise (closed : g.IsClosed c) : g.raise.IsClosed c := by
  unfold Gauge.raise
  split
  · have inside : c < g.closed.length := (List.getElem?_eq_some_iff.mp closed).1
    rw [IsClosed, List.getElem?_append_left inside]
    exact closed
  · exact closed

theorem IsClosed.lower (closed : g.IsClosed c) : g.lower.IsClosed c := by
  unfold Gauge.lower
  split_ifs with zero one
  · exact closed
  · by_cases current : g.channel = c
    · have inside : c < g.closed.length := (List.getElem?_eq_some_iff.mp closed).1
      simp [IsClosed, current, inside]
    · rw [IsClosed, List.getElem?_set_ne current]
      exact closed
  · exact closed

theorem zero_of_closes (before : ¬g.IsClosed c) (after : g.lower.IsClosed c) : g.lower.count = 0 := by
  unfold lower at after ⊢
  split_ifs at after ⊢ with zero one
  · exact zero
  · rfl
  · exact absurd after before

theorem raise_opens (before : ¬g.IsClosed c) : ¬g.raise.IsClosed c := by
  unfold raise
  split
  · intro after
    simp only [IsClosed, List.getElem?_append] at after
    split at after
    · exact before after
    · cases at_ : c - g.closed.length with
      | zero => simp [at_] at after
      | succ n => simp [at_] at after
  · exact before

end Gauge

end Skygo.Semantics
