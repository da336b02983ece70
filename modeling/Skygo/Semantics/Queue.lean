import Mathlib.Data.List.Nodup
import Skygo.Semantics.Machine

/-! A queue whose items come back.

An item arrives once. It is served when it is at the head, may return to the end after that, and
may be dropped while it has not been served. The specification keeps what has arrived, what has
been served and what was dropped, each in order.
-/

set_option autoImplicit false

namespace Skygo.Semantics

/-- `served` has an item once, at its first turn. -/
structure Queue (α : Type) where
  ready : List α := []
  arrived : List α := []
  served : List α := []
  dropped : List α := []

namespace Queue

variable {α : Type}

inductive Event (α : Type) where
  | arrives (x : α)
  | returns (x : α)
  | serves (x : α)
  | drops (x : α)
  deriving DecidableEq

def Event.arrival? : Event α → Option α
  | .arrives x => some x
  | _ => none

def Event.service? : Event α → Option α
  | .serves x => some x
  | _ => none

def Event.drop? : Event α → Option α
  | .drops x => some x
  | _ => none

variable [DecidableEq α]

def machine : Machine (Queue α) (Event α) where
  Enabled q
    | .arrives x => x ∉ q.arrived
    | .returns x => x ∈ q.served ∧ x ∉ q.ready
    | .serves x => q.ready.head? = some x
    | .drops x => x ∈ q.ready ∧ x ∉ q.served
  next q
    | .arrives x => { q with ready := q.ready ++ [x], arrived := q.arrived ++ [x] }
    | .returns x => { q with ready := q.ready ++ [x] }
    | .serves x => { q with ready := q.ready.tail, served := if x ∈ q.served then q.served else q.served ++ [x] }
    | .drops x => { q with ready := q.ready.erase x, dropped := q.dropped ++ [x] }
  decideEnabled q e := by rcases e with _ | _ <;> infer_instance

structure Fair (q : Queue α) : Prop where
  known : ∀ x ∈ q.ready, x ∈ q.arrived
  once : q.ready.Nodup
  unserved : ∀ x ∈ q.dropped, x ∈ q.arrived ∧ x ∉ q.served ∧ x ∉ q.ready
  order : q.served ++ q.ready.removeAll q.served = q.arrived.removeAll q.dropped

variable {q q' : Queue α} {x y : α} {events : List (Event α)}

theorem append_removeAll (xs ys zs : List α) : (xs ++ ys).removeAll zs = xs.removeAll zs ++ ys.removeAll zs :=
  List.filter_append ..

theorem removeAll_append (xs ys zs : List α) : xs.removeAll (ys ++ zs) = (xs.removeAll ys).removeAll zs := by
  simp only [List.removeAll, List.filter_filter]
  refine List.filter_congr fun x _ => ?_
  simp [Bool.and_comm]

theorem removeAll_singleton (xs : List α) (x : α) : xs.removeAll [x] = xs.filter fun y => !y == x := by
  rw [List.removeAll_cons, List.removeAll_nil]

theorem removeAll_of_not_mem {xs : List α} (strange : x ∉ xs) : xs.removeAll [x] = xs := by
  rw [removeAll_singleton]
  refine List.filter_eq_self.mpr fun y member => ?_
  simpa using fun same : y = x => strange (same ▸ member)

theorem Fair.served_arrived (fair : q.Fair) (served : x ∈ q.served) : x ∈ q.arrived := by
  have member : x ∈ q.arrived.removeAll q.dropped := by
    rw [← fair.order]
    exact List.mem_append_left _ served
  exact (List.mem_filter.mp member).1

theorem fair_empty : Fair ({} : Queue α) where
  known _ member := by cases member
  once := List.nodup_nil
  unserved _ member := by cases member
  order := rfl

theorem fair_arrives (fair : q.Fair) (enabled : machine.Enabled q (.arrives x)) : (machine.next q (.arrives x)).Fair where
  known y member := by
    rcases List.mem_append.mp member with old | new
    · exact List.mem_append_left _ (fair.known y old)
    · exact List.mem_append_right _ new
  once := by
    have strange : x ∉ q.ready := fun member => enabled (fair.known x member)
    simpa [machine, List.nodup_append, fair.once] using fun y member (same : y = x) => strange (same ▸ member)
  unserved y dropped := by
    obtain ⟨arrived, served, ready⟩ := fair.unserved y dropped
    refine ⟨List.mem_append_left _ arrived, served, fun member => ?_⟩
    rcases List.mem_append.mp member with old | new
    · exact ready old
    · exact enabled (List.mem_singleton.mp new ▸ arrived)
  order := by
    have unserved : x ∉ q.served := fun served => enabled (fair.served_arrived served)
    have kept : x ∉ q.dropped := fun dropped => enabled (fair.unserved x dropped).1
    simp only [machine, append_removeAll, ← fair.order]
    simp [List.removeAll, unserved, kept]

theorem fair_returns (fair : q.Fair) (enabled : machine.Enabled q (.returns x)) : (machine.next q (.returns x)).Fair where
  known y member := by
    rcases List.mem_append.mp member with old | new
    · exact fair.known y old
    · exact fair.served_arrived (List.mem_singleton.mp new ▸ enabled.1)
  once := by
    simpa [machine, List.nodup_append, fair.once] using fun y member (same : y = x) => enabled.2 (same ▸ member)
  unserved y dropped := by
    obtain ⟨arrived, served, ready⟩ := fair.unserved y dropped
    refine ⟨arrived, served, fun member => ?_⟩
    rcases List.mem_append.mp member with old | new
    · exact ready old
    · exact served (List.mem_singleton.mp new ▸ enabled.1)
  order := by
    have served : x ∈ q.served := enabled.1
    simp only [machine, append_removeAll, ← fair.order]
    simp [List.removeAll, served]

theorem fair_serves (fair : q.Fair) (enabled : machine.Enabled q (.serves x)) : (machine.next q (.serves x)).Fair := by
  obtain ⟨rest, ready⟩ : ∃ rest, q.ready = x :: rest := List.head?_eq_some_iff.mp enabled
  have once := fair.once
  rw [ready, List.nodup_cons] at once
  have order := fair.order
  rw [ready, List.cons_removeAll] at order
  refine ⟨fun y member => fair.known y (List.mem_of_mem_tail member), fair.once.sublist (List.tail_sublist _), ?_, ?_⟩
  · intro y dropped
    obtain ⟨arrived, served, waits⟩ := fair.unserved y dropped
    have other : y ≠ x := fun same => waits (by simp [ready, same])
    refine ⟨arrived, ?_, fun member => waits (List.mem_of_mem_tail member)⟩
    dsimp only [machine]
    split
    · exact served
    · simpa [other] using served
  · simp only [machine, ready, List.tail_cons]
    by_cases served : x ∈ q.served
    · simpa [served] using order
    · -- the first turn moves the item from what waits to what was served
      have rest_ : rest.removeAll (q.served ++ [x]) = rest.removeAll q.served := by
        rw [removeAll_append]
        exact removeAll_of_not_mem fun member => once.1 (List.mem_filter.mp member).1
      simp only [served, if_false, rest_]
      simpa [served] using order

theorem fair_drops (fair : q.Fair) (enabled : machine.Enabled q (.drops x)) : (machine.next q (.drops x)).Fair where
  known y member := fair.known y (List.mem_of_mem_erase member)
  once := fair.once.erase x
  unserved y dropped := by
    rcases List.mem_append.mp dropped with old | new
    · obtain ⟨arrived, served, ready⟩ := fair.unserved y old
      exact ⟨arrived, served, fun member => ready (List.mem_of_mem_erase member)⟩
    · obtain rfl := List.mem_singleton.mp new
      exact ⟨fair.known y enabled.1, enabled.2, fair.once.not_mem_erase⟩
  order := by
    dsimp only [machine]
    rw [removeAll_append, ← fair.order, append_removeAll, removeAll_of_not_mem enabled.2, fair.once.erase_eq_filter,
      removeAll_singleton]
    simp only [List.removeAll, List.filter_filter]
    refine congrArg (q.served ++ ·) (List.filter_congr fun y _ => ?_)
    simp [bne, Bool.and_comm]

theorem fair_next (fair : q.Fair) (e : Event α) (enabled : machine.Enabled q e) : (machine.next q e).Fair := by
  cases e with
  | arrives x => exact fair_arrives fair enabled
  | returns x => exact fair_returns fair enabled
  | serves x => exact fair_serves fair enabled
  | drops x => exact fair_drops fair enabled

theorem fair_run (ran : machine.run q events = some q') (fair : q.Fair) : q'.Fair :=
  Machine.run_keeps (I := Fair) (fun _ e fair enabled => fair_next fair e enabled) ran fair

theorem run_drops (picks : α → Bool) {waiting : List α} (kept : List α) (ready : q.ready = kept ++ waiting)
    (once : q.ready.Nodup) (unserved : ∀ x ∈ waiting, picks x = true → x ∉ q.served) :
    machine.run q ((waiting.filter picks).map .drops) =
      some { q with ready := kept ++ waiting.filter (fun x => !picks x), dropped := q.dropped ++ waiting.filter picks } := by
  induction waiting generalizing kept q with
  | nil => simp [Machine.run, ← ready]
  | cons x waiting ih =>
    have rest : ∀ y ∈ waiting, picks y = true → y ∉ q.served :=
      fun y member => unserved y (List.mem_cons_of_mem _ member)
    cases picked : picks x with
    | true =>
      have early : x ∉ kept := by
        rw [ready] at once
        exact fun member => (List.disjoint_of_nodup_append once) member (List.mem_cons_self ..)
      have erased : q.ready.erase x = kept ++ waiting := by
        rw [ready, List.erase_append_right _ early, List.erase_cons_head]
      have later := @ih (machine.next q (.drops x)) kept erased (once.erase x) rest
      simp only [List.filter_cons, picked, if_true, List.map_cons]
      refine Machine.run_cons.mpr ⟨⟨?_, unserved x (List.mem_cons_self ..) picked⟩, later.trans ?_⟩
      · simp [ready]
      · simp [machine]
    | false =>
      have later := ih (kept ++ [x]) (by simp [ready]) once rest
      simpa [List.filter_cons, picked] using later

theorem history_run (ran : machine.run q events = some q') :
    q'.arrived = q.arrived ++ events.filterMap Event.arrival? ∧ q'.dropped = q.dropped ++ events.filterMap Event.drop? ∧
      q'.served = q.served ++ ((events.filterMap Event.service?).removeAll q.served).eraseDups := by
  induction events generalizing q with
  | nil =>
    cases ran
    simp [List.removeAll]
  | cons e rest ih =>
    obtain ⟨enabled, ran⟩ := Machine.run_cons.mp ran
    obtain ⟨arrived, dropped, served⟩ := ih ran
    cases e with
    | arrives x => exact ⟨by simpa [machine, Event.arrival?] using arrived, dropped, served⟩
    | returns x => exact ⟨arrived, dropped, served⟩
    | drops x => exact ⟨arrived, by simpa [machine, Event.drop?] using dropped, served⟩
    | serves x =>
      refine ⟨arrived, dropped, served.trans ?_⟩
      have services : (Event.serves x :: rest).filterMap Event.service? = x :: rest.filterMap Event.service? := rfl
      rw [services, List.cons_removeAll]
      dsimp only [machine]
      by_cases before : x ∈ q.served
      · simp [before]
      · have later : ((rest.filterMap Event.service?).removeAll q.served).filter (fun y => !y == x) =
            (rest.filterMap Event.service?).removeAll (q.served ++ [x]) := by
          rw [removeAll_append, removeAll_singleton]
        simp [before, List.eraseDups_cons, later]

/-- First turns are given in the order of arrival, and only the dropped are left out. -/
theorem first_turns_in_order (ran : machine.run {} events = some q) :
    (events.filterMap Event.service?).eraseDups <+:
      (events.filterMap Event.arrival?).removeAll (events.filterMap Event.drop?) := by
  obtain ⟨arrived, dropped, served⟩ := history_run ran
  simp only [List.nil_append, List.removeAll_nil] at arrived dropped served
  have order := (fair_run ran fair_empty).order
  rw [arrived, dropped] at order
  rw [← order, ← served]
  exact List.prefix_append ..

theorem waits_next {e : Event α} (served : x ∈ q.served) (waits : x ∈ q.ready) (enabled : machine.Enabled q e)
    (other : e ≠ .serves x) : x ∈ (machine.next q e).served ∧ x ∈ (machine.next q e).ready := by
  cases e with
  | arrives y => exact ⟨served, List.mem_append_left _ waits⟩
  | returns y => exact ⟨served, List.mem_append_left _ waits⟩
  | drops y =>
    have apart : x ≠ y := fun same => enabled.2 (same ▸ served)
    exact ⟨served, (List.mem_erase_of_ne apart).mpr waits⟩
  | serves y =>
    obtain ⟨rest, ready⟩ : ∃ rest, q.ready = y :: rest := List.head?_eq_some_iff.mp enabled
    have apart : x ≠ y := fun same => other (by rw [same])
    dsimp only [machine]
    refine ⟨by split <;> simp [served], ?_⟩
    simpa [ready, apart] using waits

theorem waits_run (ran : machine.run q events = some q') (served : x ∈ q.served) (waits : x ∈ q.ready)
    (unserved : .serves x ∉ events) : x ∈ q'.served ∧ x ∈ q'.ready := by
  induction events generalizing q with
  | nil =>
    cases ran
    exact ⟨served, waits⟩
  | cons e rest ih =>
    obtain ⟨enabled, ran⟩ := Machine.run_cons.mp ran
    rw [List.mem_cons, not_or] at unserved
    obtain ⟨served, waits⟩ := waits_next served waits enabled (Ne.symm unserved.1)
    exact ih ran served waits unserved.2

/-- `x` is in the queue, and `y` is not before it. -/
def Ahead (q : Queue α) (x y : α) : Prop := ∃ front back, q.ready = front ++ x :: back ∧ y ∉ front

theorem ahead_next {e : Event α} (ahead : q.Ahead x y) (served : x ∈ q.served) (enabled : machine.Enabled q e)
    (other : e ≠ .serves x) : (machine.next q e).Ahead x y := by
  obtain ⟨front, back, ready, behind⟩ := ahead
  cases e with
  | arrives z => exact ⟨front, back ++ [z], by simp [machine, ready], behind⟩
  | returns z => exact ⟨front, back ++ [z], by simp [machine, ready], behind⟩
  | drops z =>
    have apart : x ≠ z := fun same => enabled.2 (same ▸ served)
    by_cases early : z ∈ front
    · refine ⟨front.erase z, back, ?_, fun member => behind (List.mem_of_mem_erase member)⟩
      simp [machine, ready, List.erase_append_left _ early]
    · refine ⟨front, back.erase z, ?_, behind⟩
      simp [machine, ready, List.erase_append_right _ early, apart]
  | serves z =>
    cases front with
    | nil =>
      have head : q.ready.head? = some z := enabled
      rw [ready] at head
      cases head
      exact absurd rfl other
    | cons first front =>
      refine ⟨front, back, by simp [machine, ready], fun member => behind (List.mem_cons_of_mem _ member)⟩

theorem serves_before (ahead : q.Ahead x y) (served : x ∈ q.served) (apart : x ≠ y)
    (ran : machine.run q (events ++ [.serves y]) = some q') : .serves x ∈ events := by
  induction events generalizing q with
  | nil =>
    obtain ⟨front, back, ready, behind⟩ := ahead
    have head : q.ready.head? = some y := (Machine.run_cons.mp ran).1
    rw [ready] at head
    cases front with
    | nil => exact absurd (Option.some.inj head) apart
    | cons first front =>
      cases head
      exact absurd (List.mem_cons_self ..) behind
  | cons e rest ih =>
    obtain ⟨enabled, ran⟩ := Machine.run_cons.mp ran
    by_cases here : e = .serves x
    · exact here ▸ List.mem_cons_self ..
    · have stays : x ∈ q.ready := by
        obtain ⟨front, back, ready, -⟩ := ahead
        simp [ready]
      have later := (waits_next served stays enabled here).1
      exact List.mem_cons_of_mem _ (ih (ahead_next ahead served enabled here) later ran)

theorem return_before_arrival {early between late rest : List (Event α)}
    (ran : machine.run {} (early ++ .returns x :: between ++ .arrives y :: late ++ .serves y :: rest) = some q) :
    .serves x ∈ between ++ late := by
  rw [List.mem_append]
  by_cases within : .serves x ∈ between
  · exact .inl within
  right
  rw [show early ++ .returns x :: between ++ .arrives y :: late ++ .serves y :: rest =
    early ++ ([.returns x] ++ (between ++ ([.arrives y] ++ ((late ++ [.serves y]) ++ rest)))) by simp] at ran
  obtain ⟨q₁, before, ran⟩ := Machine.run_append.mp ran
  obtain ⟨q₂, returns_, ran⟩ := Machine.run_append.mp ran
  obtain ⟨q₃, meanwhile, ran⟩ := Machine.run_append.mp ran
  obtain ⟨q₄, arrives_, ran⟩ := Machine.run_append.mp ran
  obtain ⟨q₅, serves_, -⟩ := Machine.run_append.mp ran
  obtain ⟨enabled, returned⟩ := Machine.run_cons.mp returns_
  cases returned
  obtain ⟨served, waits⟩ := waits_run meanwhile enabled.1 (List.mem_append_right _ (List.mem_singleton_self x)) within
  have fair : q₃.Fair := fair_run (Machine.run_append.mpr ⟨_, Machine.run_append.mpr ⟨_, before, returns_⟩, meanwhile⟩)
    fair_empty
  obtain ⟨strange, arrived⟩ := Machine.run_cons.mp arrives_
  cases arrived
  obtain ⟨front, back, ready⟩ := List.append_of_mem waits
  have absent : y ∉ q₃.ready := fun member => strange (fair.known y member)
  have apart : x ≠ y := fun same => absent (same ▸ waits)
  have ahead : (machine.next q₃ (.arrives y)).Ahead x y :=
    ⟨front, back ++ [y], by simp [machine, ready], fun member => absent (by simp [ready, member])⟩
  exact serves_before ahead served apart serves_

end Queue

end Skygo.Semantics
