import Mathlib.Algebra.Ring.BooleanRing
import Mathlib.Data.Nat.Cast.Basic
import Mathlib.Data.List.AList
import Mathlib.Data.List.Basic

/-! Tables: lists indexed by the identifiers handed out in order.

An entry is changed in place by `List.modify`; a new entry is appended, so its
identifier is the old length. The lemmas say what a lookup or a count sees
after such a change. `grind` uses the tagged ones. Modules that call it erase
the ring structure of `Bool`, which it would try on every boolean equation.
-/

set_option autoImplicit false

namespace Skygo.Semantics

variable {α : Type}

def At (table : List α) (i : Nat) (p : α → Prop) : Prop :=
  match table[i]? with
  | some entry => p entry
  | none => False

instance (table : List α) (i : Nat) (p : α → Prop) [DecidablePred p] : Decidable (At table i p) :=
  match found : table[i]? with
  | some entry => decidable_of_iff (p entry) (by simp [At, found])
  | none => isFalse (by simp [At, found])

variable {table : List α} {i : Nat} {p : α → Prop}

@[grind =] theorem at_iff :
    At table i p ↔ ∃ entry, table[i]? = some entry ∧ p entry := by
  cases found : table[i]? <;> simp [At, found]

variable {entry : α}

theorem At.here (known : At table i p)
    (found : table[i]? = some entry) : p entry := by
  simpa [At, found] using known

theorem At.mono {p q : α → Prop} (known : At table i p)
    (implies : ∀ entry, p entry → q entry) : At table i q := by
  obtain ⟨entry, found, holds⟩ := at_iff.mp known
  exact at_iff.mpr ⟨entry, found, implies entry holds⟩

theorem lookup_lt (found : table[i]? = some entry) :
    i < table.length := (List.getElem?_eq_some_iff.mp found).1

theorem At.lt (known : At table i p) : i < table.length := by
  obtain ⟨_, found, -⟩ := at_iff.mp known
  exact lookup_lt found

variable {f : α → α}

theorem lookup_modify_self
    (found : table[i]? = some entry) : (table.modify i f)[i]? = some (f entry) := by
  simp [found]

theorem lookup_modify {i j : Nat}
    (found : (table.modify i f)[j]? = some entry) :
    (j = i ∧ ∃ old, table[i]? = some old ∧ entry = f old) ∨ (j ≠ i ∧ table[j]? = some entry) := by
  by_cases same : i = j
  · subst same
    left
    cases old : table[i]? with
    | none => simp [old] at found
    | some value =>
      simp only [List.getElem?_modify_eq, old, Option.map_eq_map, Option.map_some,
        Option.some.injEq] at found
      exact ⟨rfl, value, rfl, found.symm⟩
  · right
    rw [List.getElem?_modify_ne f table same] at found
    exact ⟨fun h => same h.symm, found⟩

theorem modify_origin {i j : Nat} {later : α} {M : α → α → Prop}
    (found : (table.modify i f)[j]? = some later) (same : ∀ entry, M entry entry)
    (here : i = j → ∀ entry, table[j]? = some entry → M entry (f entry)) :
    ∃ entry, table[j]? = some entry ∧ M entry later := by
  rcases lookup_modify found with ⟨rfl, old, was, rfl⟩ | ⟨-, was⟩
  · exact ⟨old, was, here rfl old was⟩
  · exact ⟨later, was, same later⟩

theorem lookup_of_le {table later : List α} (grown : table.length ≤ later.length)
    (found : table[i]? = some entry) : ∃ after, later[i]? = some after :=
  ⟨_, List.getElem?_eq_getElem (Nat.lt_of_lt_of_le (lookup_lt found) grown)⟩

theorem modify_const (found : table[i]? = some entry) :
    table.modify i f = table.modify i fun _ => f entry := by
  apply List.ext_getElem?
  intro j
  by_cases at_ : i = j
  · subst at_
    simp [found]
  · rw [List.getElem?_modify_ne _ _ at_, List.getElem?_modify_ne _ _ at_]

variable {P : Nat → α → Prop}

theorem forall_modify
    (here : ∀ old, table[i]? = some old → P i (f old))
    (others : ∀ j entry, j ≠ i → table[j]? = some entry → P j entry) :
    ∀ j entry, (table.modify i f)[j]? = some entry → P j entry := by
  intro j entry found
  rcases lookup_modify found with ⟨rfl, old, was, rfl⟩ | ⟨other, was⟩
  · exact here old was
  · exact others j entry other was

theorem forall_modify_at
    (found : table[i]? = some entry) (here : P i (f entry))
    (others : ∀ (j : Nat) (entry : α), j ≠ i → table[j]? = some entry → P j entry) :
    ∀ j entry, (table.modify i f)[j]? = some entry → P j entry := by
  refine forall_modify (fun old was => ?_) others
  cases found.symm.trans was
  exact here

theorem At.modify {i j : Nat} (known : At table j p)
    (here : j = i → ∀ entry, table[j]? = some entry → p entry → p (f entry)) : At (table.modify i f) j p := by
  obtain ⟨entry, found, holds⟩ := at_iff.mp known
  by_cases at_ : j = i
  · subst at_
    exact at_iff.mpr ⟨f entry, lookup_modify_self found, here rfl entry found holds⟩
  · refine at_iff.mpr ⟨entry, ?_, holds⟩
    rwa [List.getElem?_modify_ne f table (Ne.symm at_)]

variable {fresh : α}

theorem lookup_append {j : Nat}
    (found : (table ++ [fresh])[j]? = some entry) :
    table[j]? = some entry ∨ (j = table.length ∧ entry = fresh) := by
  rw [List.getElem?_append] at found
  split at found
  · exact .inl found
  · next beyond =>
    have single : j - table.length = 0 := by
      have := lookup_lt found
      simp at this
      omega
    rw [single] at found
    simp only [List.getElem?_cons_zero, Option.some.injEq] at found
    exact .inr ⟨by omega, found.symm⟩

theorem forall_append
    (old : ∀ (j : Nat) (entry : α), table[j]? = some entry → P j entry) (last : P table.length fresh) :
    ∀ j entry, (table ++ [fresh])[j]? = some entry → P j entry := by
  intro j entry found
  rcases lookup_append found with was | ⟨rfl, rfl⟩
  · exact old j entry was
  · exact last

theorem unique_append {R : α → α → Prop} (symm : ∀ a b, R a b → R b a)
    (old : ∀ (i j : Nat) (a b : α), table[i]? = some a → table[j]? = some b → R a b → i = j)
    (apart : ∀ a ∈ table, ¬ R a fresh)
    {i j : Nat} {a b : α} (first : (table ++ [fresh])[i]? = some a) (second : (table ++ [fresh])[j]? = some b)
    (related : R a b) : i = j := by
  rcases lookup_append first with early | ⟨last, rfl⟩ <;> rcases lookup_append second with early' | ⟨last', rfl⟩
  · exact old i j a b early early' related
  · exact absurd related (apart a (List.mem_of_getElem? early))
  · exact absurd (symm _ _ related) (apart b (List.mem_of_getElem? early'))
  · exact last.trans last'.symm

theorem lookup_append_old {j : Nat}
    (found : table[j]? = some entry) : (table ++ [fresh])[j]? = some entry := by
  rw [List.getElem?_append_left (lookup_lt found), found]

theorem lookup_prefix {early late : List α} {j : Nat} (grown : List.IsPrefix early late)
    (found : early[j]? = some entry) : late[j]? = some entry := by
  obtain ⟨rest, rfl⟩ := grown
  rw [List.getElem?_append_left (lookup_lt found), found]

theorem At.append (known : At table i p) :
    At (table ++ [fresh]) i p := by
  obtain ⟨entry, found, holds⟩ := at_iff.mp known
  exact at_iff.mpr ⟨entry, lookup_append_old found, holds⟩

theorem at_append_of_lt (bound : i < table.length) :
    At (table ++ [fresh]) i p ↔ At table i p := by
  rw [At, At, List.getElem?_append_left bound]

theorem at_last (table : List α) (entry : α) : At (table ++ [entry]) table.length p ↔ p entry := by
  simp [At]

theorem modify_last (table : List α) (entry : α) (f : α → α) :
    (table ++ [entry]).modify table.length f = table ++ [f entry] := by
  induction table with
  | nil => rfl
  | cons first table ih => simpa using ih

theorem countP_modify {p : α → Bool}
    (found : table[i]? = some entry) :
    (table.modify i f).countP p + (p entry).toNat = table.countP p + (p (f entry)).toNat := by
  induction table generalizing i with
  | nil => simp at found
  | cons head rest ih =>
    cases i with
    | zero =>
      cases found
      simp only [List.modify_zero_cons, List.countP_cons]
      cases p entry <;> cases p (f entry) <;> simp
    | succ i =>
      have tail := ih (i := i) (by simpa using found)
      simp only [List.modify_succ_cons, List.countP_cons]
      omega

grind_pattern countP_modify => (table.modify i f).countP p, table[i]?, some entry

theorem countP_modify_same {p : α → Bool}
    (same : ∀ entry, table[i]? = some entry → p (f entry) = p entry) :
    (table.modify i f).countP p = table.countP p := by
  cases found : table[i]? with
  | none => rw [List.modify_eq_self (List.getElem?_eq_none_iff.mp found)]
  | some entry =>
    have moved := countP_modify (p := p) (f := f) found
    rw [same entry found] at moved
    omega

theorem countP_modify_le_succ (p : α → Bool) (table : List α) (i : Nat) (f : α → α) :
    (table.modify i f).countP p ≤ table.countP p + 1 := by
  cases found : table[i]? with
  | none =>
    rw [List.modify_eq_self (List.getElem?_eq_none_iff.mp found)]
    omega
  | some entry =>
    have moved := countP_modify (p := p) (f := f) found
    have one := Bool.toNat_le (p (f entry))
    omega

theorem countP_modify_le {p : α → Bool}
    (falls : ∀ entry, table[i]? = some entry → p (f entry) = true → p entry = true) :
    (table.modify i f).countP p ≤ table.countP p := by
  cases found : table[i]? with
  | none => exact Nat.le_of_eq (congrArg (List.countP p) (List.modify_eq_self (List.getElem?_eq_none_iff.mp found)))
  | some entry =>
    have moved := countP_modify (p := p) (f := f) found
    have falls := falls entry found
    cases after : p (f entry) with
    | true =>
      rw [after, falls after] at moved
      omega
    | false =>
      rw [after] at moved
      simp only [Bool.toNat_false] at moved
      omega

theorem sum_modify {g : α → Nat}
    (found : table[i]? = some entry) :
    ((table.modify i f).map g).sum + g entry = (table.map g).sum + g (f entry) := by
  induction table generalizing i with
  | nil => simp at found
  | cons head rest ih =>
    cases i with
    | zero =>
      cases found
      simp only [List.modify_zero_cons, List.map_cons, List.sum_cons]
      omega
    | succ i =>
      have tail := ih (i := i) (by simpa using found)
      simp only [List.modify_succ_cons, List.map_cons, List.sum_cons]
      omega

grind_pattern sum_modify => ((table.modify i f).map g).sum, table[i]?, some entry

theorem le_sum {g : α → Nat} (found : table[i]? = some entry) :
    g entry ≤ (table.map g).sum := by
  induction table generalizing i with
  | nil => simp at found
  | cons head rest ih =>
    rw [List.map_cons, List.sum_cons]
    cases i with
    | zero =>
      cases found
      omega
    | succ i =>
      have tail := ih (i := i) (by simpa using found)
      omega

theorem add_le_sum {g : α → Nat} {i j : Nat} {first second : α} (found : table[i]? = some first)
    (other : table[j]? = some second) (apart : i ≠ j) : g first + g second ≤ (table.map g).sum := by
  induction table generalizing i j with
  | nil => simp at found
  | cons head rest ih =>
    rw [List.map_cons, List.sum_cons]
    cases i with
    | zero =>
      cases found
      cases j with
      | zero => exact absurd rfl apart
      | succ j =>
        have tail : g second ≤ (rest.map g).sum := le_sum (i := j) (by simpa using other)
        omega
    | succ i =>
      cases j with
      | zero =>
        cases other
        have tail : g first ≤ (rest.map g).sum := le_sum (i := i) (by simpa using found)
        omega
      | succ j =>
        have tail := ih (i := i) (j := j) (by simpa using found) (by simpa using other) (by omega)
        omega

section

variable {α β : Type} {table : List α} {f : α → α}

theorem map_modify_same {view : α → β} (same : ∀ entry, table[i]? = some entry → view (f entry) = view entry) :
    (table.modify i f).map view = table.map view := by
  apply List.ext_getElem?
  intro k
  by_cases here : i = k
  · subst here
    cases found : table[i]? with
    | none => simp [found]
    | some entry => simp [found, same entry found]
  · simp [List.getElem?_modify_ne f table here]

theorem map_modify {view : α → β} {g : β → β} (seen : ∀ entry, table[i]? = some entry → view (f entry) = g (view entry)) :
    (table.modify i f).map view = (table.map view).modify i g := by
  apply List.ext_getElem?
  intro k
  by_cases here : i = k
  · subst here
    cases found : table[i]? with
    | none => simp [found]
    | some entry => simp [found, seen entry found]
  · simp [List.getElem?_modify_ne _ _ here]

theorem filterMap_modify_same {view : α → Option β} (same : ∀ entry, table[i]? = some entry → view (f entry) = view entry) :
    (table.modify i f).filterMap view = table.filterMap view := by
  have all := congrArg (List.filterMap id) (map_modify_same same)
  rw [List.filterMap_map, List.filterMap_map] at all
  exact all

theorem filterMap_modify_perm {view : α → Option β} {entry : α} {b : β}
    (found : table[i]? = some entry) (was : view entry = none) (now : view (f entry) = some b) :
    ((table.modify i f).filterMap view).Perm (table.filterMap view ++ [b]) := by
  induction table generalizing i with
  | nil => simp at found
  | cons head rest ih =>
    cases i with
    | zero =>
      cases found
      simp only [List.modify_zero_cons, List.filterMap_cons, was, now]
      exact (List.perm_append_singleton _ _).symm
    | succ i =>
      have tail := ih (i := i) (by simpa using found)
      simp only [List.modify_succ_cons, List.filterMap_cons]
      split
      · exact tail
      · exact tail.cons _

end

section Maps

variable {K V : Type} [DecidableEq K] (map : AList fun _ : K => V)

@[grind =] theorem lookup_insert (key other : K) (value : V) :
    (map.insert key value).lookup other = if other = key then some value else map.lookup other := by
  split
  · next same => rw [same, AList.lookup_insert]
  · next differs => exact AList.lookup_insert_ne differs

@[grind =] theorem lookup_erase (key other : K) :
    (map.erase key).lookup other = if other = key then none else map.lookup other := by
  split
  · next same => rw [same, AList.lookup_erase]
  · next differs => exact AList.lookup_erase_ne differs

end Maps

def Grows (R : α → α → Prop) (before after : List α) : Prop :=
  ∀ (i : Nat) (entry : α), before[i]? = some entry → ∃ later, after[i]? = some later ∧ R entry later

namespace Grows

variable {R : α → α → Prop} {before after : List α}

theorem refl (same : ∀ entry, R entry entry) (table : List α) : Grows R table table :=
  fun _ entry found => ⟨entry, found, same entry⟩

theorem modify (same : ∀ entry, R entry entry) (i : Nat) {f : α → α}
    (here : ∀ entry, before[i]? = some entry → R entry (f entry)) : Grows R before (before.modify i f) := by
  intro j entry found
  by_cases at_ : j = i
  · subst at_
    exact ⟨f entry, lookup_modify_self found, here entry found⟩
  · refine ⟨entry, ?_, same entry⟩
    rwa [List.getElem?_modify_ne f before (Ne.symm at_)]

theorem at_mono {i : Nat} {p q : α → Prop} (grown : Grows R before after) (known : At before i p)
    (implies : ∀ entry later, R entry later → p entry → q later) : At after i q := by
  obtain ⟨entry, found, holds⟩ := at_iff.mp known
  obtain ⟨later, there, related⟩ := grown i entry found
  exact at_iff.mpr ⟨later, there, implies entry later related holds⟩

theorem append (same : ∀ entry, R entry entry) (fresh : α) : Grows R before (before ++ [fresh]) :=
  fun _ entry found => ⟨entry, lookup_append_old found, same entry⟩

end Grows

end Skygo.Semantics
