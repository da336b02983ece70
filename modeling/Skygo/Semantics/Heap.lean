import Mathlib.Data.List.Basic
import Mathlib.Order.Lattice

/-! Binary heaps behind an interface with `less` and `swap`, as in `container/heap`.

The loops take fuel. `up` moves to a smaller position and `down` to a larger one in each
round, so the fuel the operations give them lasts. A property that swaps keep is kept by all
of them. If `less` compares keys and `swap` exchanges them, the loops put the keys in heap order.
-/

set_option autoImplicit false

namespace Skygo.Semantics

/-- What `container/heap` needs of a collection, `Push` and `Pop` apart. -/
structure HeapInterface (H : Type) where
  less : H → Nat → Nat → Bool
  swap : H → Nat → Nat → H

namespace HeapInterface

variable {H : Type} (I : HeapInterface H)

def up : Nat → H → Nat → H
  | 0, h, _ => h
  | fuel + 1, h, j =>
      if (j - 1) / 2 = j ∨ I.less h j ((j - 1) / 2) = false then h
      else up fuel (I.swap h ((j - 1) / 2) j) ((j - 1) / 2)

def child (n : Nat) (h : H) (i : Nat) : Nat :=
  if 2 * i + 2 < n ∧ I.less h (2 * i + 2) (2 * i + 1) = true then 2 * i + 2 else 2 * i + 1

def down (n : Nat) : Nat → H → Nat → H × Nat
  | 0, h, i => (h, i)
  | fuel + 1, h, i =>
      if n ≤ 2 * i + 1 ∨ I.less h (I.child n h i) i = false then (h, i)
      else down n fuel (I.swap h i (I.child n h i)) (I.child n h i)

/-- `Fix` within the first `n` elements. -/
def fix (n : Nat) (h : H) (i : Nat) : H :=
  if i < (I.down n n h i).2 then (I.down n n h i).1 else I.up i (I.down n n h i).1 i

variable {I} {P : H → Prop} {n : Nat}

theorem child_eq (I : HeapInterface H) (n : Nat) (h : H) (i : Nat) :
    I.child n h i = 2 * i + 1 ∨ I.child n h i = 2 * i + 2 := by
  unfold child
  split
  · exact .inr rfl
  · exact .inl rfl

theorem child_lt {h : H} {i : Nat} (inside : 2 * i + 1 < n) : I.child n h i < n := by
  unfold child
  split <;> omega

theorem up_keeps (keeps : ∀ h i j, i < n → j < n → P h → P (I.swap h i j)) {fuel : Nat} {h : H} {j : Nat}
    (inside : j < n) (holds : P h) : P (I.up fuel h j) := by
  induction fuel generalizing h j with
  | zero => exact holds
  | succ fuel ih =>
    unfold up
    split
    · exact holds
    · have parent : (j - 1) / 2 < n := by omega
      exact ih parent (keeps h _ j parent inside holds)

theorem down_keeps (keeps : ∀ h i j, i < n → j < n → P h → P (I.swap h i j)) {fuel : Nat} {h : H} {i : Nat}
    (holds : P h) : P (I.down n fuel h i).1 := by
  induction fuel generalizing h i with
  | zero => exact holds
  | succ fuel ih =>
    unfold down
    split
    · exact holds
    · next goes =>
      have inside : 2 * i + 1 < n := by
        simp only [not_or, Nat.not_le] at goes
        exact goes.1
      exact ih (keeps h i _ (by omega) (child_lt inside) holds)

theorem le_down (n fuel : Nat) (h : H) (i : Nat) : i ≤ (I.down n fuel h i).2 := by
  induction fuel generalizing h i with
  | zero => exact Nat.le_refl i
  | succ fuel ih =>
    unfold down
    split
    · exact Nat.le_refl i
    · have deeper : i ≤ I.child n h i := by unfold child; split <;> omega
      exact Nat.le_trans deeper (ih _ _)

theorem fix_keeps (keeps : ∀ h i j, i < n → j < n → P h → P (I.swap h i j)) {h : H} {i : Nat} (inside : i < n)
    (holds : P h) : P (I.fix n h i) := by
  have lowered : P (I.down n n h i).1 := down_keeps keeps holds
  unfold fix
  split
  · exact lowered
  · exact up_keeps keeps inside lowered

section Order

variable {α : Type} [LinearOrder α]

def Ordered (n : Nat) (key : Nat → α) : Prop := ∀ j, 0 < j → j < n → key ((j - 1) / 2) ≤ key j

/-- In order, but for the element at `i`: the edges off it are in order, and so are its parent and its children. -/
structure Loose (n : Nat) (key : Nat → α) (i : Nat) : Prop where
  except : ∀ j, 0 < j → j < n → j ≠ i → (j - 1) / 2 ≠ i → key ((j - 1) / 2) ≤ key j
  grand : 0 < i → ∀ j, 0 < j → j < n → (j - 1) / 2 = i → key ((i - 1) / 2) ≤ key j

theorem Ordered.root_le {key : Nat → α} (ordered : Ordered n key) {j : Nat} (inside : j < n) : key 0 ≤ key j := by
  induction j using Nat.strong_induction_on with
  | h j ih =>
    rcases Nat.eq_zero_or_pos j with rfl | positive
    · exact le_refl _
    · exact (ih ((j - 1) / 2) (by omega) (by omega)).trans (ordered j positive inside)

theorem Ordered.loose {key later : Nat → α} {m i : Nat} (ordered : Ordered m key) (fewer : n ≤ m)
    (same : ∀ j, j < n → j ≠ i → later j = key j) : Loose n later i where
  except j positive inside other parent := by
    rw [same _ (by omega) parent, same j inside other]
    exact ordered j positive (by omega)
  grand positive j _ inside parent := by
    rw [same _ (by omega) (by omega), same j inside (by omega)]
    have upper := ordered i positive (by omega)
    have lower := ordered j (by omega) (by omega)
    rw [parent] at lower
    exact upper.trans lower

theorem Loose.ordered {key : Nat → α} {i : Nat} (loose : Loose n key i) (above : 0 < i → i < n → key ((i - 1) / 2) ≤ key i)
    (below : ∀ j, 0 < j → j < n → (j - 1) / 2 = i → key i ≤ key j) : Ordered n key := by
  intro j positive inside
  by_cases here : j = i
  · subst here
    exact above positive inside
  · by_cases child : (j - 1) / 2 = i
    · rw [child]
      exact below j positive inside child
    · exact loose.except j positive inside here child

structure Keyed (I : HeapInterface H) (n : Nat) (Formed : H → Prop) (key : H → Nat → α) : Prop where
  less : ∀ h i j, Formed h → i < n → j < n → (I.less h i j = true ↔ key h i < key h j)
  swap : ∀ h i j, Formed h → i < n → j < n → Formed (I.swap h i j) ∧
    ∀ k, k < n → key (I.swap h i j) k = if k = i then key h j else if k = j then key h i else key h k

variable {Formed : H → Prop} {key : H → Nat → α} {h : H} {i j fuel : Nat}

section

variable (keyed : Keyed I n Formed key) (formed : Formed h)
include keyed formed

theorem Keyed.le_of_not_less (inside : i < n) (bound : j < n) (still : I.less h i j = false) : key h j ≤ key h i := by
  have less := keyed.less h i j formed inside bound
  rw [still] at less
  exact not_lt.mp fun before => by simpa using less.mpr before

theorem Keyed.child_le (positive : 0 < j) (inside : j < n)
    (parent : (j - 1) / 2 = i) : key h (I.child n h i) ≤ key h j := by
  have either : j = 2 * i + 1 ∨ j = 2 * i + 2 := by omega
  unfold child
  split
  · next picked =>
    rcases either with rfl | rfl
    · exact ((keyed.less h _ _ formed picked.1 inside).mp picked.2).le
    · exact le_refl _
  · next left =>
    rcases either with rfl | rfl
    · exact le_refl _
    · have smaller : I.less h (2 * i + 2) (2 * i + 1) = false := Bool.eq_false_iff.mpr fun less => left ⟨inside, less⟩
      exact keyed.le_of_not_less formed inside (by omega) smaller

theorem Keyed.stays (stops : n ≤ 2 * i + 1 ∨ I.less h (I.child n h i) i = false) :
    ∀ j, 0 < j → j < n → (j - 1) / 2 = i → key h i ≤ key h j := by
  intro j positive inside parent
  rcases stops with leaf | still
  · omega
  · have child : I.child n h i < n := child_lt (by omega)
    exact (keyed.le_of_not_less formed child (by omega) still).trans (keyed.child_le formed positive inside parent)

theorem Keyed.rise (inside : j < n) (positive : 0 < j)
    (loose : Loose n (key h) j) (below : ∀ k, 0 < k → k < n → (k - 1) / 2 = j → key h j ≤ key h k)
    (before : key h j < key h ((j - 1) / 2)) : Loose n (key (I.swap h ((j - 1) / 2) j)) ((j - 1) / 2) ∧
      ∀ k, 0 < k → k < n → (k - 1) / 2 = (j - 1) / 2 →
        key (I.swap h ((j - 1) / 2) j) ((j - 1) / 2) ≤ key (I.swap h ((j - 1) / 2) j) k := by
  have parent : (j - 1) / 2 < n := by omega
  have at_ := (keyed.swap h _ j formed parent inside).2
  have sibling (k : Nat) (first : 0 < k) (bound : k < n) (other : k ≠ j) (same : (k - 1) / 2 = (j - 1) / 2) :
      key h ((j - 1) / 2) ≤ key h k := by
    have edge := loose.except k first bound other (by omega)
    rwa [same] at edge
  refine ⟨⟨fun k first bound other outside => ?_, fun first k _ bound child => ?_⟩, fun k first bound child => ?_⟩
  · -- an edge that is not at the parent: it may be below the element's old place, where the parent is now
    rw [at_ k bound, at_ _ (by omega), if_neg other, if_neg outside]
    have lower : k ≠ j := by
      rintro rfl
      exact outside rfl
    rw [if_neg lower]
    split
    · next child => exact loose.grand positive k first bound child
    · next away => exact loose.except k first bound lower away
  · rw [at_ k bound, at_ _ (by omega), if_neg (by omega), if_neg (by omega), if_neg (by omega)]
    have upper : key h (((j - 1) / 2 - 1) / 2) ≤ key h ((j - 1) / 2) :=
      loose.except _ first parent (by omega) (by omega)
    split
    · exact upper
    · next other => exact upper.trans (sibling k (by omega) bound other child)
  · rw [at_ k bound, at_ _ parent, if_pos rfl, if_neg (by omega)]
    split
    · exact before.le
    · next other => exact before.le.trans (sibling k first bound other child)

theorem Keyed.up_ordered (inside : j < n) (enough : j ≤ fuel)
    (loose : Loose n (key h) j) (below : ∀ k, 0 < k → k < n → (k - 1) / 2 = j → key h j ≤ key h k) :
    Ordered n (key (I.up fuel h j)) := by
  induction fuel generalizing h j with
  | zero => exact loose.ordered (fun positive => absurd positive (by omega)) below
  | succ fuel ih =>
    unfold up
    split
    · next stops =>
      refine loose.ordered (fun positive _ => ?_) below
      rcases stops with root | still
      · omega
      · exact keyed.le_of_not_less formed inside (by omega) still
    · next goes =>
      simp only [not_or, Bool.not_eq_false] at goes
      have parent : (j - 1) / 2 < n := by omega
      have before := (keyed.less h j ((j - 1) / 2) formed inside parent).mp goes.2
      obtain ⟨again, under⟩ := keyed.rise formed inside (by omega) loose below before
      exact ih (keyed.swap h _ j formed parent inside).1 parent (by omega) again under

theorem Keyed.sink (inside : 2 * i + 1 < n) (loose : Loose n (key h) i) (before : key h (I.child n h i) < key h i) :
    Loose n (key (I.swap h i (I.child n h i))) (I.child n h i) ∧
      key (I.swap h i (I.child n h i)) i ≤ key (I.swap h i (I.child n h i)) (I.child n h i) := by
  have bound : I.child n h i < n := child_lt inside
  have child : I.child n h i = 2 * i + 1 ∨ I.child n h i = 2 * i + 2 := I.child_eq n h i
  have least (k : Nat) := keyed.child_le (j := k) (i := i) formed
  generalize I.child n h i = c at *
  have at_ := (keyed.swap h i c formed (by omega) bound).2
  refine ⟨⟨fun k first inside' other outside => ?_, fun _ k first inside' grandchild => ?_⟩, ?_⟩
  · rw [at_ k inside', at_ _ (by omega)]
    rw [if_neg outside, if_neg other]
    split
    · next parent =>
      rw [if_neg (by omega)]
      exact least k first inside' parent
    · next away =>
      split
      · next here =>
        subst here
        exact loose.grand first c (by omega) bound (by omega)
      · next apart => exact loose.except k first inside' apart away
  · rw [at_ k inside', at_ _ (by omega), if_pos (by omega), if_neg (by omega), if_neg (by omega)]
    have edge := loose.except k first inside' (by omega) (by omega)
    rwa [grandchild] at edge
  · rw [at_ i (by omega), at_ c bound, if_pos rfl, if_neg (by omega), if_pos rfl]
    exact before.le

theorem Keyed.down_ordered (enough : n ≤ i + fuel)
    (loose : Loose n (key h) i) (above : 0 < i → i < n → key h ((i - 1) / 2) ≤ key h i) :
    Ordered n (key (I.down n fuel h i).1) := by
  -- each step leaves the element loose one level further down, below what took its place
  induction fuel generalizing h i with
  | zero => exact loose.ordered above fun j _ inside parent => absurd inside (by omega)
  | succ fuel ih =>
    unfold down
    split
    · next stops => exact loose.ordered above (keyed.stays formed stops)
    · next goes =>
      simp only [not_or, Nat.not_le, Bool.not_eq_false] at goes
      have child : I.child n h i < n := child_lt goes.1
      have before := (keyed.less h _ i formed child (by omega)).mp goes.2
      obtain ⟨again, under⟩ := keyed.sink formed goes.1 loose before
      have below := I.child_eq n h i
      have parent : (I.child n h i - 1) / 2 = i := by omega
      refine ih (keyed.swap h i _ formed (by omega) child).1 (by omega) again fun _ _ => ?_
      rw [parent]
      exact under

theorem Keyed.fix_ordered (inside : i < n) (loose : Loose n (key h) i) : Ordered n (key (I.fix n h i)) := by
  obtain ⟨fuel, rfl⟩ : ∃ fuel, n = fuel + 1 := ⟨n - 1, by omega⟩
  unfold fix
  by_cases stops : fuel + 1 ≤ 2 * i + 1 ∨ I.less h (I.child (fuel + 1) h i) i = false
  · have same : I.down (fuel + 1) (fuel + 1) h i = (h, i) := by rw [down, if_pos stops]
    rw [same, if_neg (Nat.lt_irrefl i)]
    exact keyed.up_ordered formed inside (le_refl i) loose (keyed.stays formed stops)
  · -- it sinks at least once, and from there it is below its parent
    have moved : I.down (fuel + 1) (fuel + 1) h i =
        I.down (fuel + 1) fuel (I.swap h i (I.child (fuel + 1) h i)) (I.child (fuel + 1) h i) := by
      rw [down, if_neg stops]
    simp only [not_or, Nat.not_le, Bool.not_eq_false] at stops
    have child : I.child (fuel + 1) h i < fuel + 1 := child_lt stops.1
    have before := (keyed.less h _ i formed child inside).mp stops.2
    obtain ⟨again, under⟩ := keyed.sink formed stops.1 loose before
    have below := I.child_eq (fuel + 1) h i
    have parent : (I.child (fuel + 1) h i - 1) / 2 = i := by omega
    have deeper : i < I.child (fuel + 1) h i := by omega
    have ordered : Ordered (fuel + 1) (key (I.down (fuel + 1) fuel (I.swap h i _) _).1) :=
      keyed.down_ordered (keyed.swap h i _ formed inside child).1 (by omega) again fun _ _ => by
        rw [parent]
        exact under
    have lower : i < (I.down (fuel + 1) (fuel + 1) h i).2 := by
      rw [moved]
      exact deeper.trans_le (le_down ..)
    rw [if_pos lower, moved]
    exact ordered

end

end Order

end HeapInterface

end Skygo.Semantics
