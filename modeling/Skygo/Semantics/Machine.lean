import Mathlib.Data.List.Basic

/-! Guarded-action machines and their runs.

A machine gives each atomic action a decidable guard and an effect on an
explicit state. An interleaving of goroutines is a list of actions; a disabled
action ends the run without a state, so every state a run yields was reached
by enabled actions only.
-/

set_option autoImplicit false

namespace Skygo.Semantics

structure Machine (State Action : Type) where
  Enabled : State → Action → Prop
  next : State → Action → State
  decideEnabled : ∀ s a, Decidable (Enabled s a)

namespace Machine

variable {State Action : Type} (M : Machine State Action)

instance (s : State) (a : Action) : Decidable (M.Enabled s a) := M.decideEnabled s a

def run : State → List Action → Option State
  | s, [] => some s
  | s, a :: rest => if M.Enabled s a then run (M.next s a) rest else none

/-- Every action of the list meets `ok` in the state that takes it. -/
def Meets (ok : State → Action → Prop) : State → List Action → Prop
  | _, [] => True
  | s, a :: rest => ok s a ∧ Meets ok (M.next s a) rest

def decideMeets {ok : State → Action → Prop} (decides : ∀ s a, Decidable (ok s a)) :
    (s : State) → (actions : List Action) → Decidable (M.Meets ok s actions)
  | _, [] => isTrue trivial
  | s, a :: rest =>
    haveI := decides s a
    haveI := decideMeets decides (M.next s a) rest
    inferInstanceAs (Decidable (ok s a ∧ M.Meets ok (M.next s a) rest))

instance {ok : State → Action → Prop} [decides : ∀ s a, Decidable (ok s a)] (s : State)
    (actions : List Action) : Decidable (M.Meets ok s actions) := M.decideMeets decides s actions

def Along (P : State → Prop) : State → List Action → Prop
  | s, [] => P s
  | s, a :: rest => P s ∧ Along P (M.next s a) rest

def tally (count : State → Action → Nat) : State → List Action → Nat
  | _, [] => 0
  | s, a :: rest => count s a + tally count (M.next s a) rest

def trace {Event : Type} (emit : State → Action → List Event) : State → List Action → List Event
  | _, [] => []
  | s, a :: rest => emit s a ++ trace emit (M.next s a) rest

def Reachable (start s : State) : Prop := ∃ actions, M.run start actions = some s

def after (start : State) (actions : List Action) : State := (M.run start actions).getD start

variable {M}

variable {s t : State}

theorem run_cons {a : Action} {rest : List Action} :
    M.run s (a :: rest) = some t ↔ M.Enabled s a ∧ M.run (M.next s a) rest = some t := by
  by_cases enabled : M.Enabled s a <;> simp [run, enabled]

theorem run_append {first rest : List Action} :
    M.run s (first ++ rest) = some t ↔ ∃ u, M.run s first = some u ∧ M.run u rest = some t := by
  induction first generalizing s with
  | nil => simp [run]
  | cons a first ih =>
    rw [List.cons_append, run_cons, ih]
    constructor
    · rintro ⟨enabled, u, before, after⟩
      exact ⟨u, run_cons.mpr ⟨enabled, before⟩, after⟩
    · rintro ⟨u, before, after⟩
      obtain ⟨enabled, before⟩ := run_cons.mp before
      exact ⟨enabled, u, before, after⟩

theorem Reachable.refl (s : State) : M.Reachable s s := ⟨[], rfl⟩

variable {actions : List Action}

theorem run_after {start : State} (ran : (M.run start actions).isSome = true) :
    M.run start actions = some (M.after start actions) := by
  obtain ⟨s, ends⟩ := Option.isSome_iff_exists.mp ran
  rw [after, ends, Option.getD_some]

theorem Reachable.run {start s t : State}
    (reach : M.Reachable start s) (ran : M.run s actions = some t) : M.Reachable start t := by
  obtain ⟨before, reached⟩ := reach
  exact ⟨before ++ actions, run_append.mpr ⟨s, reached, ran⟩⟩

theorem Reachable.trans {start s t : State} (first : M.Reachable start s) (second : M.Reachable s t) :
    M.Reachable start t := by
  obtain ⟨actions, ran⟩ := second
  exact first.run ran

theorem Reachable.next {start s : State} {a : Action}
    (reach : M.Reachable start s) (enabled : M.Enabled s a) : M.Reachable start (M.next s a) :=
  reach.run (run_cons.mpr ⟨enabled, rfl⟩ : M.run s [a] = some (M.next s a))

variable {I : State → Prop}

theorem run_keeps (keeps : ∀ s a, I s → M.Enabled s a → I (M.next s a)) (ran : M.run s actions = some t) (holds : I s) : I t := by
  induction actions generalizing s with
  | nil => cases ran; exact holds
  | cons a rest ih =>
    obtain ⟨enabled, ran⟩ := run_cons.mp ran
    exact ih ran (keeps s a holds enabled)

/-- The invariant rule: what holds at the start and survives every enabled
action holds in every reachable state. -/
theorem Reachable.invariant {start s : State} (reach : M.Reachable start s)
    (holds : I start) (keeps : ∀ s a, I s → M.Enabled s a → I (M.next s a)) : I s := by
  obtain ⟨actions, ran⟩ := reach
  exact run_keeps keeps ran holds

theorem Reachable.invariant_with {start s : State} (reach : M.Reachable start s)
    (holds : I start)
    (keeps : ∀ s a, M.Reachable start s → I s → M.Enabled s a → I (M.next s a)) : I s := by
  have both : M.Reachable start s ∧ I s :=
    reach.invariant (I := fun s => M.Reachable start s ∧ I s) ⟨.refl start, holds⟩
      fun s a known enabled => ⟨known.1.next enabled, keeps s a known.1 known.2 enabled⟩
  exact both.2

/-- A view of one machine as another: every step is seen as a step or not seen at all. -/
theorem Reachable.view {State' Action' : Type} {N : Machine State' Action'} (view : State → State')
    {start s : State} (reach : M.Reachable start s)
    (steps : ∀ s a, M.Enabled s a →
      view (M.next s a) = view s ∨ ∃ b, N.Enabled (view s) b ∧ view (M.next s a) = N.next (view s) b) :
    N.Reachable (view start) (view s) := by
  refine reach.invariant (I := fun s => N.Reachable (view start) (view s)) (.refl _) fun s a known enabled => ?_
  rcases steps s a enabled with same | ⟨b, allowed, moved⟩
  · rw [same]
    exact known
  · rw [moved]
    exact known.next allowed

theorem run_simulates {State' Event : Type} {N : Machine State' Event} {emit : State → Action → List Event}
    {R : State → State' → Prop}
    (steps : ∀ s s' a, R s s' → M.Enabled s a → ∃ t', N.run s' (emit s a) = some t' ∧ R (M.next s a) t') {s' : State'}
    (ran : M.run s actions = some t) (related : R s s') :
    ∃ t', N.run s' (M.trace emit s actions) = some t' ∧ R t t' := by
  induction actions generalizing s s' with
  | nil =>
    cases ran
    exact ⟨s', rfl, related⟩
  | cons a rest ih =>
    obtain ⟨enabled, ran⟩ := run_cons.mp ran
    obtain ⟨middle, first, related⟩ := steps s s' a related enabled
    obtain ⟨last, later, related⟩ := ih ran related
    exact ⟨last, run_append.mpr ⟨middle, first, later⟩, related⟩

theorem run_keeps_where {ok : State → Action → Prop}
    (keeps : ∀ s a, I s → ok s a → M.Enabled s a → I (M.next s a)) (ran : M.run s actions = some t)
    (met : M.Meets ok s actions) (holds : I s) : I t := by
  induction actions generalizing s with
  | nil => cases ran; exact holds
  | cons a rest ih =>
    obtain ⟨enabled, ran⟩ := run_cons.mp ran
    exact ih ran met.2 (keeps s a holds met.1 enabled)

theorem Meets.and {ok also : State → Action → Prop} {s : State} (met : M.Meets ok s actions)
    (too : M.Meets also s actions) : M.Meets (fun s a => ok s a ∧ also s a) s actions := by
  induction actions generalizing s with
  | nil => trivial
  | cons a rest ih => exact ⟨⟨met.1, too.1⟩, ih met.2 too.2⟩

/-- A condition on runs that is exact: actions that meet it stay in the good states, and the first that does not leads to
the bad ones for good. -/
theorem run_decides {allowed : State → Action → Prop} (ok : State → Action → Prop) (Good Bad : State → Prop)
    (good : ∀ s a, Good s → allowed s a → ok s a → M.Enabled s a → Good (M.next s a))
    (breaks : ∀ s a, Good s → allowed s a → ¬ ok s a → M.Enabled s a → Bad (M.next s a))
    (bad : ∀ s a, Bad s → allowed s a → M.Enabled s a → Bad (M.next s a)) (ran : M.run s actions = some t)
    (met : M.Meets allowed s actions) (holds : Good s) : (M.Meets ok s actions ∧ Good t) ∨ (¬ M.Meets ok s actions ∧ Bad t) := by
  induction actions generalizing s with
  | nil =>
    cases ran
    exact .inl ⟨trivial, holds⟩
  | cons a rest ih =>
    obtain ⟨enabled, ran⟩ := run_cons.mp ran
    by_cases fine : ok s a
    · rcases ih ran met.2 (good s a holds met.1 fine enabled) with ⟨all, last⟩ | ⟨fails, last⟩
      · exact .inl ⟨⟨fine, all⟩, last⟩
      · exact .inr ⟨fun all => fails all.2, last⟩
    · exact .inr ⟨fun all => fine all.1, run_keeps_where bad ran met.2 (breaks s a holds met.1 fine enabled)⟩

theorem run_balances (has : State → Nat) {takes gives : State → Action → Nat}
    (keeps : ∀ s a, I s → M.Enabled s a → I (M.next s a))
    (balances : ∀ s a, I s → M.Enabled s a → has (M.next s a) + gives s a = has s + takes s a)
    (ran : M.run s actions = some t) (holds : I s) :
    has t + M.tally gives s actions = has s + M.tally takes s actions := by
  induction actions generalizing s with
  | nil => cases ran; rfl
  | cons a rest ih =>
    obtain ⟨enabled, ran⟩ := run_cons.mp ran
    have later := ih ran (keeps s a holds enabled)
    have now := balances s a holds enabled
    simp only [tally]
    omega

theorem run_spends (may : State → Nat) {takes : State → Action → Nat}
    (keeps : ∀ s a, I s → M.Enabled s a → I (M.next s a))
    (spends : ∀ s a, I s → M.Enabled s a → may (M.next s a) + takes s a ≤ may s) (ran : M.run s actions = some t) (holds : I s) :
    may t + M.tally takes s actions ≤ may s := by
  induction actions generalizing s with
  | nil => cases ran; exact Nat.le_refl _
  | cons a rest ih =>
    obtain ⟨enabled, ran⟩ := run_cons.mp ran
    have later := ih ran (keeps s a holds enabled)
    have now := spends s a holds enabled
    simp only [tally]
    omega

/-- A condition on runs that is exact for a property: under the condition an invariant holds that implies the property,
and the first action that does not meet the condition breaks the property. -/
theorem along_iff_meets {ok : State → Action → Prop} {P I : State → Prop} (implies : ∀ s, I s → P s)
    (keeps : ∀ s a, I s → ok s a → M.Enabled s a → I (M.next s a))
    (breaks : ∀ s a, I s → ¬ ok s a → M.Enabled s a → ¬ P (M.next s a)) (ran : M.run s actions = some t) (holds : I s) :
    M.Along P s actions ↔ M.Meets ok s actions := by
  have starts : ∀ {u : State} {rest : List Action}, M.Along P u rest → P u := by
    intro u rest along
    cases rest with
    | nil => exact along
    | cons b rest => exact along.1
  induction actions generalizing s with
  | nil => exact ⟨fun _ => trivial, fun _ => implies s holds⟩
  | cons a actions ih =>
    obtain ⟨enabled, ran⟩ := run_cons.mp ran
    by_cases fine : ok s a
    · have rest := ih ran (keeps s a holds fine enabled)
      exact ⟨fun along => ⟨fine, rest.mp along.2⟩, fun met => ⟨implies s holds, rest.mpr met.2⟩⟩
    · refine ⟨fun along => ?_, fun met => absurd met.1 fine⟩
      exact absurd (starts along.2) (breaks s a holds fine enabled)

end Machine

end Skygo.Semantics
