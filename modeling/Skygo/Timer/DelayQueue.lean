import Skygo.Semantics.Heap
import Skygo.Semantics.Table

/-! The delay queue: a heap of deadlines with a map from identifiers to positions.

Times are nanoseconds. The map and the heap always agree, which is part of the type; the
order within the heap decides only which task expires first.
-/

set_option autoImplicit false

attribute [-instance] instBooleanRingBool

namespace Skygo.Timer

open Semantics

/-- The queue's own callback serves every task, so a task has none. -/
structure Task where
  id : Nat
  expireTime : Int
  deriving DecidableEq

structure IndexedTaskHeap where
  tasks : List Task := []
  index : Nat → Option Nat := fun _ => none

namespace IndexedTaskHeap

def less (h : IndexedTaskHeap) (i j : Nat) : Bool :=
  match h.tasks[i]?, h.tasks[j]? with
  | some first, some second => first.expireTime < second.expireTime
  | _, _ => false

def swap (h : IndexedTaskHeap) (i j : Nat) : IndexedTaskHeap :=
  match h.tasks[i]?, h.tasks[j]? with
  | some first, some second =>
      { tasks := (h.tasks.set i second).set j first
        index := Function.update (Function.update h.index second.id (some i)) first.id (some j) }
  | _, _ => h

def interface : HeapInterface IndexedTaskHeap where
  less := less
  swap := swap

def append (h : IndexedTaskHeap) (task : Task) : IndexedTaskHeap where
  tasks := h.tasks ++ [task]
  index := Function.update h.index task.id (some h.tasks.length)

def dropLast (h : IndexedTaskHeap) : IndexedTaskHeap :=
  match h.tasks.getLast? with
  | some task => { tasks := h.tasks.dropLast, index := Function.update h.index task.id none }
  | none => h

def push (h : IndexedTaskHeap) (task : Task) : IndexedTaskHeap :=
  interface.up h.tasks.length (h.append task) h.tasks.length

def pop (h : IndexedTaskHeap) : IndexedTaskHeap :=
  let n := h.tasks.length - 1
  (interface.down n n (h.swap 0 n) 0).1.dropLast

def remove (h : IndexedTaskHeap) (i : Nat) : IndexedTaskHeap :=
  let n := h.tasks.length - 1
  if n = i then h.dropLast else (interface.fix n (h.swap i n) i).dropLast

def reset (h : IndexedTaskHeap) (i : Nat) (expireTime : Int) : IndexedTaskHeap :=
  interface.fix h.tasks.length
    { h with tasks := h.tasks.modify i fun task => { task with expireTime := expireTime } } i

def Coherent (h : IndexedTaskHeap) : Prop :=
  ∀ id i, h.index id = some i ↔ At h.tasks i fun task => task.id = id

/-- The identifiers with a task. -/
def Holds (h : IndexedTaskHeap) (id : Nat) : Prop := ∃ task ∈ h.tasks, task.id = id

variable {h h' : IndexedTaskHeap} {n i j : Nat} {id : Nat} {task first second : Task}

theorem Coherent.unique (coherent : h.Coherent) (found : h.tasks[i]? = some first) (other : h.tasks[j]? = some second)
    (same : first.id = second.id) : i = j := by
  have here := (coherent first.id i).mpr (at_iff.mpr ⟨first, found, rfl⟩)
  have there := (coherent first.id j).mpr (at_iff.mpr ⟨second, other, same.symm⟩)
  rw [here] at there
  exact Option.some.inj there

theorem Coherent.holds_iff (coherent : h.Coherent) : h.Holds id ↔ (h.index id).isSome = true := by
  constructor
  · rintro ⟨task, member, same⟩
    obtain ⟨i, found⟩ := List.getElem?_of_mem member
    rw [(coherent id i).mpr (at_iff.mpr ⟨task, found, same⟩)]
    rfl
  · intro known
    obtain ⟨i, at_⟩ := Option.isSome_iff_exists.mp known
    obtain ⟨task, found, same⟩ := at_iff.mp ((coherent id i).mp at_)
    exact ⟨task, List.mem_of_getElem? found, same⟩

structure Shuffles (n : Nat) (h h' : IndexedTaskHeap) : Prop where
  coherent : h'.Coherent
  perm : h'.tasks.Perm h.tasks
  rest : ∀ k, n ≤ k → h'.tasks[k]? = h.tasks[k]?

theorem Shuffles.refl (coherent : h.Coherent) : Shuffles n h h := ⟨coherent, .refl _, fun _ _ => rfl⟩

theorem Shuffles.holds (shuffles : Shuffles n h h') : h'.Holds id ↔ h.Holds id := by
  unfold Holds
  constructor
  · rintro ⟨task, member, same⟩
    exact ⟨task, shuffles.perm.mem_iff.mp member, same⟩
  · rintro ⟨task, member, same⟩
    exact ⟨task, shuffles.perm.mem_iff.mpr member, same⟩

theorem lookup_swap (found : h.tasks[i]? = some first) (other : h.tasks[j]? = some second) (k : Nat) :
    (h.swap i j).tasks[k]? = if k = j then some first else if k = i then some second else h.tasks[k]? := by
  have inside := lookup_lt found
  have inside' := lookup_lt other
  simp only [swap, found, other]
  rw [List.getElem?_set, List.getElem?_set]
  grind

theorem coherent_swap (coherent : h.Coherent) : (h.swap i j).Coherent := by
  cases found : h.tasks[i]? with
  | none => simpa [swap, found] using coherent
  | some first =>
    cases other : h.tasks[j]? with
    | none => simpa [swap, found, other] using coherent
    | some second =>
      intro id k
      have index : (h.swap i j).index =
          Function.update (Function.update h.index second.id (some i)) first.id (some j) := by
        simp [swap, found, other]
      rw [index, at_iff, lookup_swap found other]
      have unique := fun k (task : Task) (there : h.tasks[k]? = some task) => coherent.unique found there
      have unique' := fun k (task : Task) (there : h.tasks[k]? = some task) => coherent.unique other there
      have known := (coherent id k).trans at_iff
      simp only [Function.update_apply]
      grind

theorem perm_swap : (h.swap i j).tasks.Perm h.tasks := by
  unfold swap
  split
  · next first second found other =>
    obtain ⟨inside, rfl⟩ := List.getElem?_eq_some_iff.mp found
    obtain ⟨inside', rfl⟩ := List.getElem?_eq_some_iff.mp other
    exact List.set_set_perm inside inside'
  · exact .refl _

theorem Shuffles.swap (shuffles : Shuffles n h h') (before : i < n) (before' : j < n) :
    Shuffles n h (h'.swap i j) where
  coherent := coherent_swap shuffles.coherent
  perm := perm_swap.trans shuffles.perm
  rest k beyond := by
    rw [← shuffles.rest k beyond]
    unfold IndexedTaskHeap.swap
    split
    · rw [List.getElem?_set_ne (by omega), List.getElem?_set_ne (by omega)]
    · rfl

theorem shuffles_up (coherent : h.Coherent) {fuel : Nat} (inside : j < n) : Shuffles n h (interface.up fuel h j) :=
  HeapInterface.up_keeps (P := Shuffles n h) (fun _ _ _ before before' shuffles => shuffles.swap before before') inside
    (.refl coherent)

theorem shuffles_down (coherent : h.Coherent) {fuel : Nat} : Shuffles n h (interface.down n fuel h i).1 :=
  HeapInterface.down_keeps (P := Shuffles n h) (fun _ _ _ before before' shuffles => shuffles.swap before before')
    (.refl coherent)

theorem shuffles_fix (coherent : h.Coherent) (inside : i < n) : Shuffles n h (interface.fix n h i) :=
  HeapInterface.fix_keeps (P := Shuffles n h) (fun _ _ _ before before' shuffles => shuffles.swap before before') inside
    (.refl coherent)

theorem coherent_append (coherent : h.Coherent) (absent : h.index task.id = none) : (h.append task).Coherent := by
  intro id i
  have known := (coherent id i).trans at_iff
  have strange := fun k => (coherent task.id k).trans at_iff
  simp only [append, Function.update_apply, at_iff, List.getElem?_append]
  grind

theorem coherent_dropLast (coherent : h.Coherent) : h.dropLast.Coherent := by
  unfold dropLast
  split
  · next task last =>
    rw [List.getLast?_eq_getElem?] at last
    intro id i
    have known := (coherent id i).trans at_iff
    have unique := fun k (task : Task) (there : h.tasks[k]? = some task) => coherent.unique last there
    simp only [Function.update_apply, at_iff, List.getElem?_dropLast]
    grind
  · exact coherent

variable {expireTime : Int}

section

variable (coherent : h.Coherent)
include coherent

theorem coherent_modify :
    { h with tasks := h.tasks.modify i fun task => { task with expireTime := expireTime } : IndexedTaskHeap }.Coherent := by
  intro id k
  refine (coherent id k).trans (at_iff.trans (Iff.trans ?_ at_iff.symm))
  simp only [List.getElem?_modify]
  grind

theorem coherent_push (absent : h.index task.id = none) : Shuffles (h.tasks.length + 1) (h.append task) (h.push task) :=
  shuffles_up (coherent_append coherent absent) (Nat.lt_succ_self _)

theorem coherent_reset (inside : i < h.tasks.length) : (h.reset i expireTime).Coherent :=
  (shuffles_fix (coherent_modify coherent) inside).coherent

/-- Both removals move a task to the end, rearrange what is before it and drop the end. -/
theorem coherent_pop : h.pop.Coherent :=
  coherent_dropLast (shuffles_down (coherent_swap coherent)).coherent

theorem coherent_remove (inside : i < h.tasks.length) : (h.remove i).Coherent := by
  unfold remove
  dsimp only
  split
  · exact coherent_dropLast coherent
  · next inner => exact coherent_dropLast (shuffles_fix (coherent_swap coherent) (by omega)).coherent

theorem holds_push (absent : h.index task.id = none) : (h.push task).Holds id ↔ id = task.id ∨ h.Holds id := by
  rw [(coherent_push coherent absent).holds]
  simp only [Holds, append, List.mem_append, List.mem_singleton]
  grind

theorem holds_reset (inside : i < h.tasks.length) : (h.reset i expireTime).Holds id ↔ h.Holds id := by
  refine (shuffles_fix (coherent_modify coherent) inside).holds.trans ?_
  simp only [Holds, List.mem_iff_getElem?, List.getElem?_modify]
  grind

end

end IndexedTaskHeap

/-- The difference of two times, which saturates as a 64-bit duration does. -/
def since (time earlier : Int) : Int := max (-2 ^ 63) (min (2 ^ 63 - 1) (time - earlier))

structure DelayQueue where
  h : { h : IndexedTaskHeap // h.Coherent } := ⟨{}, fun _ _ => by simp [At]⟩
  dedupWindow : Int := 0
  /-- A map that `SetDedupWindow` may leave nil. -/
  lastFired : Option (Nat → Option Int) := some fun _ => none

namespace DelayQueue

def setDedupWindow (dq : DelayQueue) (d : Int) : DelayQueue :=
  { dq with dedupWindow := d, lastFired := if d ≤ 0 then none else some fun _ => none }

def schedule (dq : DelayQueue) (id : Nat) (expireTime : Int) : DelayQueue :=
  match known : dq.h.1.index id with
  | some idx =>
      have inside : idx < dq.h.1.tasks.length := by
        obtain ⟨task, found, -⟩ := at_iff.mp ((dq.h.2 id idx).mp known)
        exact lookup_lt found
      { dq with h := ⟨dq.h.1.reset idx expireTime, IndexedTaskHeap.coherent_reset dq.h.2 inside⟩ }
  | none =>
      { dq with h := ⟨dq.h.1.push ⟨id, expireTime⟩, (IndexedTaskHeap.coherent_push dq.h.2 known).coherent⟩ }

def clearLastFired (dq : DelayQueue) (id : Nat) : DelayQueue :=
  { dq with lastFired := dq.lastFired.map fun last => Function.update last id none }

def add (dq : DelayQueue) (id : Nat) (expireTime : Int) : DelayQueue := dq.schedule id expireTime

def remove (dq : DelayQueue) (id : Nat) : DelayQueue :=
  match known : (dq.clearLastFired id).h.1.index id with
  | some idx =>
      have inside : idx < dq.h.1.tasks.length := by
        obtain ⟨task, found, -⟩ := at_iff.mp ((dq.h.2 id idx).mp known)
        exact lookup_lt found
      { dq.clearLastFired id with
        h := ⟨dq.h.1.remove idx, IndexedTaskHeap.coherent_remove dq.h.2 inside⟩ }
  | none => dq.clearLastFired id

def reschedule (dq : DelayQueue) (id : Nat) (newExpireTime : Int) : DelayQueue :=
  (dq.clearLastFired id).schedule id newExpireTime

/-- Whether the callback is suppressed; otherwise the time is noted. -/
def isDeduped (dq : DelayQueue) (id : Nat) (now : Int) : Bool × DelayQueue :=
  if dq.dedupWindow ≤ 0 then (false, dq)
  else
    let last := dq.lastFired.getD fun _ => none
    match last id with
    | some earlier =>
        if since now earlier < dq.dedupWindow then (true, { dq with lastFired := some last })
        else (false, { dq with lastFired := some (Function.update last id (some now)) })
    | none => (false, { dq with lastFired := some (Function.update last id (some now)) })

def cleanLastFired (dq : DelayQueue) (now : Int) : DelayQueue :=
  if dq.dedupWindow ≤ 0 then dq
  else
    { dq with lastFired := dq.lastFired.map fun last id =>
        (last id).filter fun firedAt => since now firedAt < dq.dedupWindow }

def popFirst (dq : DelayQueue) : DelayQueue :=
  { dq with h := ⟨dq.h.1.pop, IndexedTaskHeap.coherent_pop dq.h.2⟩ }

/-- The loop of `checkExpired`; each round pops a task, so the number of tasks is enough fuel. -/
def expire (now : Int) : Nat → DelayQueue → DelayQueue × List Nat
  | 0, dq => (dq, [])
  | fuel + 1, dq =>
      match dq.h.1.tasks.head? with
      | none => (dq, [])
      | some task =>
          if now < task.expireTime then (dq, [])
          else
            match dq.popFirst.isDeduped task.id now with
            | (true, dq') => expire now fuel dq'
            | (false, dq') => ((expire now fuel dq').1, task.id :: (expire now fuel dq').2)

/-- The queue and the callbacks that were launched. -/
def checkExpired (dq : DelayQueue) (now : Int) : DelayQueue × List Nat :=
  ((dq.expire now dq.h.1.tasks.length).1.cleanLastFired now, (dq.expire now dq.h.1.tasks.length).2)

def Holds (dq : DelayQueue) (id : Nat) : Prop := dq.h.1.Holds id

theorem holds_schedule {dq : DelayQueue} {id other : Nat} {expireTime : Int} :
    (dq.schedule id expireTime).Holds other ↔ other = id ∨ dq.Holds other := by
  unfold schedule Holds
  split
  · next idx known =>
    obtain ⟨task, found, same⟩ := at_iff.mp ((dq.h.2 id idx).mp known)
    refine (IndexedTaskHeap.holds_reset dq.h.2 (lookup_lt found)).trans ⟨.inr, ?_⟩
    rintro (rfl | holds)
    · exact ⟨task, List.mem_of_getElem? found, same⟩
    · exact holds
  · next absent => exact IndexedTaskHeap.holds_push dq.h.2 absent

end DelayQueue

end Skygo.Timer
