import Mathlib.Data.List.Sublists
import Mathlib.Data.List.Nodup

/-! The order of two events in a history. -/

set_option autoImplicit false

namespace Skygo.Semantics

open scoped List

variable {α : Type} {l : List α} {a b c : α}

abbrev Precedes (l : List α) (a b : α) : Prop := [a, b] <+ l

theorem precedes_iff : Precedes l a b ↔ ∃ p q : Nat, p < q ∧ l[p]? = some a ∧ l[q]? = some b := by
  constructor
  · intro before
    obtain ⟨early, late, rfl, first, second⟩ := List.cons_sublist_iff.mp before
    obtain ⟨p, inside, rfl⟩ := List.getElem_of_mem first
    obtain ⟨q, here, rfl⟩ := List.getElem_of_mem (List.singleton_sublist.mp second)
    refine ⟨p, early.length + q, by omega, ?_, ?_⟩
    · rw [List.getElem?_append_left inside, List.getElem?_eq_getElem inside]
    · rw [List.getElem?_append_right (Nat.le_add_right ..), Nat.add_sub_cancel_left, List.getElem?_eq_getElem here]
  · rintro ⟨p, q, less, first, second⟩
    refine List.cons_sublist_iff.mpr ⟨l.take q, l.drop q, (List.take_append_drop q l).symm, ?_, ?_⟩
    · exact List.mem_of_getElem? (i := p) (by rw [List.getElem?_take_of_lt less, first])
    · exact List.singleton_sublist.mpr (List.mem_of_getElem? (i := 0) (by simpa using second))

theorem precedes_concat : Precedes (l ++ [c]) a b ↔ Precedes l a b ∨ (a ∈ l ∧ b = c) := by
  constructor
  · intro before
    obtain ⟨early, late, split, first, second⟩ := List.sublist_append_iff.mp before
    rcases late with _ | ⟨x, _ | ⟨y, rest⟩⟩
    · obtain rfl : early = [a, b] := by simpa using split.symm
      exact .inl first
    · have last : x = c := by simpa using second
      obtain ⟨rfl, rfl⟩ : early = [a] ∧ x = b := by
        rcases early with _ | ⟨u, _ | ⟨v, more⟩⟩ <;> simp_all
      exact .inr ⟨List.singleton_sublist.mp first, last⟩
    · exact absurd second.length_le (by simp)
  · rintro (before | ⟨member, rfl⟩)
    · exact before.trans (List.sublist_append_left ..)
    · exact (List.singleton_sublist.mpr member).append (List.Sublist.refl [b])

theorem Precedes.rel {R : α → α → Prop} (pairwise : l.Pairwise R) (before : Precedes l a b) : R a b :=
  List.pairwise_pair.mp (pairwise.sublist before)

theorem precedes_total (first : a ∈ l) (second : b ∈ l) (different : a ≠ b) :
    Precedes l a b ∨ Precedes l b a := by
  obtain ⟨p, here, rfl⟩ := List.getElem_of_mem first
  obtain ⟨q, there, rfl⟩ := List.getElem_of_mem second
  rcases Nat.lt_trichotomy p q with less | rfl | more
  · exact .inl (precedes_iff.mpr ⟨p, q, less, by simp [here], by simp [there]⟩)
  · exact absurd rfl different
  · exact .inr (precedes_iff.mpr ⟨q, p, more, by simp [there], by simp [here]⟩)

theorem Precedes.asymm (nodup : l.Nodup) (before : Precedes l a b) : ¬ Precedes l b a := by
  intro after
  obtain ⟨p, q, less, first, second⟩ := precedes_iff.mp before
  obtain ⟨r, t, more, third, fourth⟩ := precedes_iff.mp after
  have inside {i : Nat} {x : α} (found : l[i]? = some x) : i < l.length := (List.getElem?_eq_some_iff.mp found).1
  have same : p = t := (List.getElem?_inj (inside first) nodup).mp (first.trans fourth.symm)
  have other : q = r := (List.getElem?_inj (inside second) nodup).mp (second.trans third.symm)
  omega

theorem Precedes.of_prefix {early : List α} (before : Precedes l a b) (nodup : l.Nodup) (starts : early <+: l)
    (member : b ∈ early) : Precedes early a b := by
  obtain ⟨p, q, less, first, second⟩ := precedes_iff.mp before
  obtain ⟨r, found⟩ := List.mem_iff_getElem?.mp member
  obtain ⟨rest, rfl⟩ := starts
  have bound : r < early.length := (List.getElem?_eq_some_iff.mp found).1
  have there : (early ++ rest)[r]? = some b := by rw [List.getElem?_append_left bound, found]
  obtain rfl : q = r :=
    (List.getElem?_inj (List.getElem?_eq_some_iff.mp second).1 nodup).mp (second.trans there.symm)
  refine precedes_iff.mpr ⟨p, q, less, ?_, found⟩
  rwa [List.getElem?_append_left (by omega)] at first

theorem Precedes.of_filterMap {β : Type} {f : α → Option β} {x y : β} (before : Precedes (l.filterMap f) x y) :
    ∃ a b, Precedes l a b ∧ f a = some x ∧ f b = some y := by
  induction l with
  | nil => cases before
  | cons head rest ih =>
    have later (inside : Precedes (rest.filterMap f) x y) : ∃ a b, Precedes (head :: rest) a b ∧ f a = some x ∧ f b = some y := by
      obtain ⟨a, b, order, first, second⟩ := ih inside
      exact ⟨a, b, order.trans (List.sublist_cons_self ..), first, second⟩
    cases image : f head with
    | none =>
      rw [List.filterMap_cons_none image] at before
      exact later before
    | some z =>
      rw [List.filterMap_cons_some image] at before
      cases before with
      | cons _ inside => exact later inside
      | cons_cons _ inside =>
        obtain ⟨b, member, second⟩ := List.mem_filterMap.mp (List.singleton_sublist.mp inside)
        exact ⟨head, b, (List.singleton_sublist.mpr member).cons_cons head, image, second⟩

theorem Precedes.filterMap {β : Type} {f : α → Option β} {x y : β} (before : Precedes l a b) (first : f a = some x)
    (second : f b = some y) : Precedes (l.filterMap f) x y := by
  have mapped := List.Sublist.filterMap f before
  rwa [List.filterMap_cons_some first, List.filterMap_cons_some second, List.filterMap_nil] at mapped

end Skygo.Semantics
