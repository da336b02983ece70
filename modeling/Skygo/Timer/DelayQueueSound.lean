import Mathlib.Data.List.Nodup
import Skygo.Timer.DelayQueue

/-! The delay queue is a finite map from identifiers to deadlines.

The heap keeps its deadlines in order, so the first task is always the earliest one. A round
of expiry therefore takes out the tasks that are due, the earliest first, and no other. Each
identifier has one task, so a round decides about each callback by what it knew before it began.
-/

set_option autoImplicit false

attribute [-instance] instBooleanRingBool

namespace Skygo.Timer

open Semantics

namespace IndexedTaskHeap

def key (h : IndexedTaskHeap) (i : Nat) : Int := (h.tasks[i]?.map Task.expireTime).getD 0

def Ordered (h : IndexedTaskHeap) : Prop := HeapInterface.Ordered h.tasks.length h.key

variable {h h' : IndexedTaskHeap} {n i : Nat} {task first : Task} {expireTime : Int}

theorem key_eq (found : h.tasks[i]? = some task) : h.key i = task.expireTime := by simp [key, found]

theorem keyed {m : Nat} (fewer : n ≤ m) :
    HeapInterface.Keyed interface n (fun h => h.tasks.length = m) key where
  less h i j formed before before' := by
    obtain ⟨first, found⟩ : ∃ task, h.tasks[i]? = some task := ⟨_, List.getElem?_eq_getElem (by omega)⟩
    obtain ⟨second, other⟩ : ∃ task, h.tasks[j]? = some task := ⟨_, List.getElem?_eq_getElem (by omega)⟩
    simp [interface, less, found, other, key]
  swap h i j formed before before' := by
    obtain ⟨first, found⟩ : ∃ task, h.tasks[i]? = some task := ⟨_, List.getElem?_eq_getElem (by omega)⟩
    obtain ⟨second, other⟩ : ∃ task, h.tasks[j]? = some task := ⟨_, List.getElem?_eq_getElem (by omega)⟩
    refine ⟨perm_swap.length_eq.trans formed, fun k _ => ?_⟩
    show (h.swap i j).key k = _
    simp only [key, lookup_swap found other, found, other]
    grind

theorem Shuffles.length_eq (shuffles : Shuffles n h h') : h'.tasks.length = h.tasks.length := shuffles.perm.length_eq

theorem ordered_push (ordered : h.Ordered) (coherent : h.Coherent) (absent : h.index task.id = none) :
    (h.push task).Ordered := by
  have length : (h.push task).tasks.length = h.tasks.length + 1 := by
    rw [(coherent_push coherent absent).length_eq, append, List.length_append, List.length_singleton]
  unfold Ordered
  rw [length]
  refine (keyed (le_refl _)).up_ordered (by simp [append]) (Nat.lt_succ_self _) (le_refl _) ⟨?_, ?_⟩ ?_
  · intro j positive inside other _
    have same (k : Nat) (old : k < h.tasks.length) : (h.append task).key k = h.key k := by
      simp [key, append, List.getElem?_append_left old]
    rw [same _ (by omega), same _ (by omega)]
    exact ordered j positive (by omega)
  · intro positive j _ inside child
    omega
  · intro j positive inside child
    omega

theorem ordered_reset (ordered : h.Ordered) (coherent : h.Coherent) (inside : i < h.tasks.length) :
    (h.reset i expireTime).Ordered := by
  have length : (h.reset i expireTime).tasks.length = h.tasks.length := by
    rw [reset, (shuffles_fix (coherent_modify coherent) inside).length_eq, List.length_modify]
  unfold Ordered
  rw [length]
  refine (keyed (le_refl _)).fix_ordered (by simp) inside (ordered.loose (le_refl _) fun j _ other => ?_)
  simp [key, List.getElem?_modify_ne _ _ (Ne.symm other)]

theorem ordered_dropLast (ordered : HeapInterface.Ordered (h.tasks.length - 1) h.key) : h.dropLast.Ordered := by
  have tasks : h.dropLast.tasks = h.tasks.dropLast := by
    unfold dropLast
    split
    · rfl
    · next none => rw [List.getLast?_eq_none_iff.mp none, List.dropLast_nil]
  intro j positive inside
  have same (k : Nat) (old : k < h.tasks.length - 1) : h.dropLast.key k = h.key k := by
    simp only [key, tasks, List.getElem?_dropLast, if_pos old]
  rw [tasks, List.length_dropLast] at inside
  rw [same _ (by omega), same _ inside]
  exact ordered j positive inside

theorem swap_last_keys (inside : i < h.tasks.length) {j : Nat} (before : j < h.tasks.length - 1) (other : j ≠ i) :
    (h.swap i (h.tasks.length - 1)).key j = h.key j := by
  refine (((keyed (le_refl _)).swap h i (h.tasks.length - 1) rfl inside (by omega)).2 j (by omega)).trans ?_
  rw [if_neg other, if_neg (by omega)]

theorem ordered_pop (ordered : h.Ordered) (coherent : h.Coherent) : h.pop.Ordered := by
  refine ordered_dropLast ?_
  have swapped : (h.swap 0 (h.tasks.length - 1)).tasks.length = h.tasks.length := perm_swap.length_eq
  rw [(shuffles_down (coherent_swap coherent)).length_eq, swapped]
  refine (keyed (Nat.sub_le _ 1)).down_ordered swapped (by omega) (ordered.loose (Nat.sub_le _ 1) fun j before other => ?_)
    (fun positive => absurd positive (Nat.lt_irrefl 0))
  exact swap_last_keys (by omega) before other

theorem ordered_remove (ordered : h.Ordered) (coherent : h.Coherent) (inside : i < h.tasks.length) :
    (h.remove i).Ordered := by
  unfold remove
  dsimp only
  split
  · exact ordered_dropLast fun j positive before => ordered j positive (by omega)
  · next inner =>
    refine ordered_dropLast ?_
    have swapped : (h.swap i (h.tasks.length - 1)).tasks.length = h.tasks.length := perm_swap.length_eq
    rw [(shuffles_fix (coherent_swap coherent) (by omega)).length_eq, swapped]
    exact (keyed (Nat.sub_le _ 1)).fix_ordered swapped (by omega)
      (ordered.loose (Nat.sub_le _ 1) fun j before other => swap_last_keys inside before other)

theorem perm_dropLast (last : h.tasks[h.tasks.length - 1]? = some task) :
    (task :: h.dropLast.tasks).Perm h.tasks := by
  have present : h.tasks.getLast? = some task := List.getLast?_eq_getElem?.trans last
  have whole : h.tasks.dropLast ++ [task] = h.tasks := List.dropLast_append_getLast? task present
  simp only [dropLast, present]
  conv_rhs => rw [← whole]
  exact (List.perm_append_singleton task _).symm

theorem perm_removed (found : h.tasks[i]? = some task)
    (shuffles : Shuffles (h.tasks.length - 1) (h.swap i (h.tasks.length - 1)) h') :
    (task :: h'.dropLast.tasks).Perm h.tasks := by
  have length : h'.tasks.length = h.tasks.length := shuffles.length_eq.trans perm_swap.length_eq
  obtain ⟨last, other⟩ : ∃ last, h.tasks[h.tasks.length - 1]? = some last :=
    ⟨_, List.getElem?_eq_getElem (Nat.sub_lt (Nat.zero_lt_of_lt (lookup_lt found)) Nat.one_pos)⟩
  have end_ : h'.tasks[h'.tasks.length - 1]? = some task := by
    rw [length, shuffles.rest _ (le_refl _), lookup_swap found other, if_pos rfl]
  exact (perm_dropLast end_).trans (shuffles.perm.trans perm_swap)

theorem perm_pop (coherent : h.Coherent) (found : h.tasks[0]? = some task) : (task :: h.pop.tasks).Perm h.tasks :=
  perm_removed found (shuffles_down (coherent_swap coherent))

theorem perm_remove (coherent : h.Coherent) (found : h.tasks[i]? = some task) :
    (task :: (h.remove i).tasks).Perm h.tasks := by
  have inside := lookup_lt found
  unfold remove
  dsimp only
  split
  · next last =>
    rw [← last] at found
    exact perm_dropLast found
  · exact perm_removed found (shuffles_fix (coherent_swap coherent) (by omega))

theorem Coherent.nodup (coherent : h.Coherent) : (h.tasks.map Task.id).Nodup := by
  refine List.nodup_iff_getElem?_ne_getElem?.mpr fun i j before inside same => ?_
  rw [List.length_map] at inside
  simp only [List.getElem?_map, List.getElem?_eq_getElem inside, List.getElem?_eq_getElem (before.trans inside),
    Option.map_some, Option.some.injEq] at same
  have equal : i = j := coherent.unique (List.getElem?_eq_getElem (before.trans inside)) (List.getElem?_eq_getElem inside) same
  omega

theorem Coherent.eq_of_id (coherent : h.Coherent) (member : task ∈ h.tasks) (other : first ∈ h.tasks)
    (same : task.id = first.id) : task = first :=
  List.inj_on_of_nodup_map coherent.nodup member other same

theorem Coherent.mem_rest (coherent : h.Coherent) (found : h.tasks[i]? = some first)
    (perm : (first :: h'.tasks).Perm h.tasks) : task ∈ h'.tasks ↔ task.id ≠ first.id ∧ task ∈ h.tasks := by
  have unique : ((first :: h'.tasks).map Task.id).Nodup := (perm.map _).nodup_iff.mpr coherent.nodup
  rw [List.map_cons, List.nodup_cons] at unique
  constructor
  · intro member
    exact ⟨fun same => unique.1 (same ▸ List.mem_map_of_mem member), perm.mem_iff.mp (List.mem_cons_of_mem _ member)⟩
  · rintro ⟨different, member⟩
    rcases List.mem_cons.mp (perm.mem_iff.mpr member) with rfl | rest
    · exact absurd rfl different
    · exact rest

theorem Ordered.first_le (ordered : h.Ordered) (head : h.tasks[0]? = some first) (member : task ∈ h.tasks) :
    first.expireTime ≤ task.expireTime := by
  obtain ⟨i, found⟩ := List.getElem?_of_mem member
  have least : h.key 0 ≤ h.key i := HeapInterface.Ordered.root_le ordered (lookup_lt found)
  rwa [key_eq head, key_eq found] at least

end IndexedTaskHeap

namespace DelayQueue

abbrev tasks (dq : DelayQueue) : List Task := dq.h.1.tasks

abbrev Ordered (dq : DelayQueue) : Prop := dq.h.1.Ordered

variable {dq : DelayQueue} {id : Nat} {now expireTime : Int} {task first : Task}

theorem ordered_schedule (ordered : dq.Ordered) : (dq.schedule id expireTime).Ordered := by
  unfold schedule
  split
  · next idx known =>
    obtain ⟨task, found, -⟩ := at_iff.mp ((dq.h.2 id idx).mp known)
    exact IndexedTaskHeap.ordered_reset ordered dq.h.2 (lookup_lt found)
  · next absent => exact IndexedTaskHeap.ordered_push ordered dq.h.2 absent

theorem ordered_remove (ordered : dq.Ordered) : (dq.remove id).Ordered := by
  unfold remove
  split
  · next idx known =>
    obtain ⟨task, found, -⟩ := at_iff.mp ((dq.h.2 id idx).mp known)
    exact IndexedTaskHeap.ordered_remove ordered dq.h.2 (lookup_lt found)
  · exact ordered

theorem mem_schedule :
    task ∈ (dq.schedule id expireTime).tasks ↔ task = ⟨id, expireTime⟩ ∨ task.id ≠ id ∧ task ∈ dq.tasks := by
  unfold schedule
  split
  · next idx known =>
    -- the deadline is changed in place and the heap is only rearranged
    obtain ⟨old, found, same⟩ := at_iff.mp ((dq.h.2 id idx).mp known)
    refine (IndexedTaskHeap.shuffles_fix (IndexedTaskHeap.coherent_modify dq.h.2) (lookup_lt found)).perm.mem_iff.trans ?_
    have unique := fun k (task : Task) (there : dq.h.1.tasks[k]? = some task) => dq.h.2.unique found there
    simp only [List.mem_iff_getElem?, List.getElem?_modify]
    constructor
    · rintro ⟨k, there⟩
      grind
    · rintro (rfl | ⟨different, k, there⟩)
      · exact ⟨idx, by simp [found, same]⟩
      · exact ⟨k, by grind⟩
  · next absent =>
    refine (IndexedTaskHeap.coherent_push dq.h.2 absent).perm.mem_iff.trans ?_
    have strange : task ∈ dq.tasks → task.id ≠ id := by
      rintro member rfl
      have holds := dq.h.2.holds_iff.mp ⟨task, member, rfl⟩
      simp [absent] at holds
    simp only [IndexedTaskHeap.append, List.mem_append, List.mem_singleton]
    grind

theorem mem_remove : task ∈ (dq.remove id).tasks ↔ task.id ≠ id ∧ task ∈ dq.tasks := by
  unfold remove
  split
  · next idx known =>
    obtain ⟨old, found, same⟩ := at_iff.mp ((dq.h.2 id idx).mp known)
    have rest : task ∈ (dq.h.1.remove idx).tasks ↔ task.id ≠ old.id ∧ task ∈ dq.tasks :=
      dq.h.2.mem_rest found (IndexedTaskHeap.perm_remove dq.h.2 found)
    rwa [same] at rest
  · next absent =>
    refine ⟨fun member => ⟨?_, member⟩, And.right⟩
    rintro rfl
    have holds := dq.h.2.holds_iff.mp ⟨task, member, rfl⟩
    rw [show dq.h.1.index task.id = none from absent] at holds
    simp at holds

theorem mem_popFirst (head : dq.tasks[0]? = some first) :
    task ∈ dq.popFirst.tasks ↔ task.id ≠ first.id ∧ task ∈ dq.tasks :=
  dq.h.2.mem_rest head (IndexedTaskHeap.perm_pop dq.h.2 head)

theorem length_popFirst (head : dq.tasks[0]? = some first) : dq.popFirst.tasks.length + 1 = dq.tasks.length :=
  (IndexedTaskHeap.perm_pop dq.h.2 head).length_eq

@[simp] theorem tasks_isDeduped : (dq.isDeduped id now).2.h = dq.h := by
  unfold isDeduped
  dsimp only
  split
  · rfl
  · split
    · split <;> rfl
    · rfl

@[simp] theorem tasks_cleanLastFired : (dq.cleanLastFired now).h = dq.h := by
  unfold cleanLastFired
  split <;> rfl

def suppressed (dq : DelayQueue) (id : Nat) (now : Int) : Bool :=
  0 < dq.dedupWindow && ((dq.lastFired.getD fun _ => none) id).any fun earlier => since now earlier < dq.dedupWindow

theorem isDeduped_fst : (dq.isDeduped id now).1 = dq.suppressed id now := by
  unfold isDeduped suppressed
  dsimp only
  split
  · next off => simp [not_lt.mpr off]
  · next on =>
    simp only [not_le.mp on, decide_true, Bool.true_and]
    split
    · next earlier last => rw [last]; split <;> simp_all
    · next last => rw [last]; rfl

theorem suppressed_isDeduped {other : Nat} (different : other ≠ id) :
    (dq.isDeduped id now).2.suppressed other now = dq.suppressed other now := by
  unfold isDeduped suppressed
  dsimp only
  split
  · rfl
  · split
    · split
      · rfl
      · simp [Function.update_of_ne different]
    · simp [Function.update_of_ne different]

inductive Pops (now : Int) : DelayQueue → List Task → DelayQueue → Prop where
  | stop {dq : DelayQueue} (rest : ∀ task, dq.tasks[0]? = some task → now < task.expireTime) : Pops now dq [] dq
  | pop {dq last : DelayQueue} {task : Task} {popped : List Task} (head : dq.tasks[0]? = some task)
      (due : task.expireTime ≤ now) (further : Pops now (dq.popFirst.isDeduped task.id now).2 popped last) :
      Pops now dq (task :: popped) last

theorem Pops.subset {last : DelayQueue} {popped : List Task} (pops : Pops now dq popped last) (member : task ∈ popped) :
    task ∈ dq.tasks := by
  induction pops with
  | stop rest => simp at member
  | pop head due further ih =>
    rcases List.mem_cons.mp member with rfl | later
    · exact List.mem_of_getElem? head
    · have still := ih later
      rw [tasks, tasks_isDeduped] at still
      exact ((mem_popFirst head).mp still).2

/-- The fuel lasts, so the loop ends by its own condition. It launches the callbacks that were not suppressed when it began. -/
theorem pops_expire {fuel : Nat} (enough : dq.tasks.length ≤ fuel) :
    ∃ popped, Pops now dq popped (dq.expire now fuel).1 ∧
      (dq.expire now fuel).2 = (popped.filter fun task => !dq.suppressed task.id now).map Task.id := by
  induction fuel generalizing dq with
  | zero =>
    refine ⟨[], .stop fun task head => ?_, rfl⟩
    have inside := lookup_lt head
    omega
  | succ fuel ih =>
    unfold expire
    cases head : dq.h.1.tasks.head? with
    | none =>
      refine ⟨[], .stop fun task found => ?_, rfl⟩
      rw [← List.head?_eq_getElem?, show dq.tasks.head? = none from head] at found
      exact absurd found (by simp)
    | some task =>
      dsimp only
      have first : dq.tasks[0]? = some task := List.head?_eq_getElem?.symm.trans head
      split
      · next later =>
        refine ⟨[], .stop fun other found => ?_, rfl⟩
        rw [first] at found
        exact Option.some.inj found ▸ later
      · next due =>
        have shorter : (dq.popFirst.isDeduped task.id now).2.tasks.length ≤ fuel := by
          have length := length_popFirst first
          unfold tasks at *
          rw [tasks_isDeduped]
          omega
        obtain ⟨popped, pops, launched⟩ := ih shorter
        refine ⟨task :: popped, .pop first (not_lt.mp due) ?_, ?_⟩
        · split
          · next dq' same => rw [same] at pops ⊢; exact pops
          · next dq' same => rw [same] at pops ⊢; exact pops
        · -- what is decided about the first task changes nothing for the others
          have others : (popped.filter fun other => !(dq.popFirst.isDeduped task.id now).2.suppressed other.id now) =
              popped.filter fun other => !dq.suppressed other.id now := by
            refine List.filter_congr fun other member => ?_
            have still := pops.subset member
            rw [tasks, tasks_isDeduped] at still
            rw [suppressed_isDeduped ((mem_popFirst first).mp still).1]
            rfl
          rw [others] at launched
          have decided : (dq.popFirst.isDeduped task.id now).1 = dq.suppressed task.id now := isDeduped_fst
          split
          · next dq' same =>
            rw [same] at launched decided
            rw [List.filter_cons_of_neg (by simp [← decided])]
            exact launched
          · next dq' same =>
            rw [same] at launched decided
            rw [List.filter_cons_of_pos (by simp [← decided]), List.map_cons, ← launched]

theorem ordered_popFirst (ordered : dq.Ordered) : (dq.popFirst.isDeduped id now).2.Ordered := by
  unfold Ordered
  rw [tasks_isDeduped]
  exact IndexedTaskHeap.ordered_pop ordered dq.h.2

section Round

variable {last : DelayQueue} {popped : List Task}

theorem Pops.ordered (pops : Pops now dq popped last) (ordered : dq.Ordered) : last.Ordered := by
  induction pops with
  | stop rest => exact ordered
  | pop head due further ih => exact ih (ordered_popFirst ordered)

theorem Pops.mem_last (pops : Pops now dq popped last) (ordered : dq.Ordered) :
    task ∈ last.tasks ↔ task ∈ dq.tasks ∧ now < task.expireTime := by
  induction pops with
  | @stop dq rest =>
    -- the first task has the earliest deadline, so if it is not due none is
    refine ⟨fun member => ⟨member, ?_⟩, And.left⟩
    obtain ⟨first, head⟩ : ∃ first, dq.tasks[0]? = some first :=
      ⟨_, List.getElem?_eq_getElem (List.length_pos_of_mem member)⟩
    exact (rest first head).trans_le (ordered.first_le head member)
  | @pop dq last first popped head due further ih =>
    rw [ih (ordered_popFirst ordered), tasks, tasks_isDeduped, mem_popFirst head]
    constructor
    · rintro ⟨⟨-, member⟩, later⟩
      exact ⟨member, later⟩
    · rintro ⟨member, later⟩
      refine ⟨⟨fun same => ?_, member⟩, later⟩
      -- the popped task is the only one with its identifier
      have equal := dq.h.2.eq_of_id member (List.mem_of_getElem? head) same
      subst equal
      omega

theorem Pops.mem_popped (pops : Pops now dq popped last) (ordered : dq.Ordered) :
    task ∈ popped ↔ task ∈ dq.tasks ∧ task.expireTime ≤ now := by
  induction pops with
  | @stop dq rest =>
    simp only [List.not_mem_nil, false_iff, not_and, not_le]
    exact fun member => (((Pops.stop rest).mem_last ordered).mp member).2
  | @pop dq last first popped head due further ih =>
    rw [List.mem_cons, ih (ordered_popFirst ordered), tasks, tasks_isDeduped, mem_popFirst head]
    constructor
    · rintro (rfl | ⟨⟨-, member⟩, reached⟩)
      · exact ⟨List.mem_of_getElem? head, due⟩
      · exact ⟨member, reached⟩
    · rintro ⟨member, reached⟩
      by_cases same : task.id = first.id
      · exact .inl (dq.h.2.eq_of_id member (List.mem_of_getElem? head) same)
      · exact .inr ⟨⟨same, member⟩, reached⟩

theorem Pops.sorted (pops : Pops now dq popped last) (ordered : dq.Ordered) :
    popped.Pairwise fun earlier later => earlier.id ≠ later.id ∧ earlier.expireTime ≤ later.expireTime := by
  induction pops with
  | stop rest => exact .nil
  | @pop dq last first popped head due further ih =>
    refine .cons (fun later member => ?_) (ih (ordered_popFirst ordered))
    have still := further.subset member
    rw [tasks, tasks_isDeduped] at still
    obtain ⟨different, present⟩ := (mem_popFirst head).mp still
    exact ⟨different.symm, ordered.first_le head present⟩

end Round

inductive Call where
  | setDedupWindow (d : Int)
  | add (id : Nat) (expireTime : Int)
  | remove (id : Nat)
  | reschedule (id : Nat) (newExpireTime : Int)
  | checkExpired (now : Int)

def exec (dq : DelayQueue) : Call → DelayQueue
  | .setDedupWindow d => dq.setDedupWindow d
  | .add id expireTime => dq.add id expireTime
  | .remove id => dq.remove id
  | .reschedule id newExpireTime => dq.reschedule id newExpireTime
  | .checkExpired now => (dq.checkExpired now).1

def deadlines (dq : DelayQueue) (id : Nat) : Option Int :=
  (dq.tasks.find? fun task => task.id = id).map Task.expireTime

theorem deadlines_eq_some : dq.deadlines id = some expireTime ↔ ⟨id, expireTime⟩ ∈ dq.tasks := by
  rw [deadlines, Option.map_eq_some_iff]
  constructor
  · rintro ⟨task, found, rfl⟩
    have same : task.id = id := by simpa using List.find?_some found
    have member := List.mem_of_find?_eq_some found
    rwa [← same]
  · intro member
    have some : (dq.tasks.find? fun task => task.id = id).isSome = true :=
      List.find?_isSome.mpr ⟨_, member, by simp⟩
    obtain ⟨task, found⟩ := Option.isSome_iff_exists.mp some
    have same : task.id = id := by simpa using List.find?_some found
    exact ⟨task, found, by rw [dq.h.2.eq_of_id (List.mem_of_find?_eq_some found) member same]⟩

end DelayQueue

def DelayQueue.Call.update (deadlines : Nat → Option Int) : DelayQueue.Call → Nat → Option Int
  | .setDedupWindow _ => deadlines
  | .add id expireTime => Function.update deadlines id (some expireTime)
  | .remove id => Function.update deadlines id none
  | .reschedule id newExpireTime => Function.update deadlines id (some newExpireTime)
  | .checkExpired now => fun id => (deadlines id).filter fun expireTime => now < expireTime

namespace DelayQueue

variable {dq : DelayQueue} {id : Nat} {now expireTime : Int} {call : Call}

theorem deadlines_schedule : (dq.schedule id expireTime).deadlines = Function.update dq.deadlines id (some expireTime) := by
  funext other
  refine Option.ext fun time => ?_
  rw [deadlines_eq_some, mem_schedule, Function.update_apply]
  split
  · next same => simp [same, eq_comm]
  · next different => simp [different, deadlines_eq_some]

theorem deadlines_remove : (dq.remove id).deadlines = Function.update dq.deadlines id none := by
  funext other
  refine Option.ext fun time => ?_
  rw [deadlines_eq_some, mem_remove, Function.update_apply]
  split
  · next same => simp [same]
  · next different => simp [different, deadlines_eq_some]

/-- The tasks that a round pops: those that are due, the earliest first, each with its callback unless suppressed. -/
theorem pops_checkExpired (dq : DelayQueue) (now : Int) :
    ∃ popped last, Pops now dq popped last ∧ (dq.checkExpired now).1.h = last.h ∧
      (dq.checkExpired now).2 = (popped.filter fun task => !dq.suppressed task.id now).map Task.id := by
  obtain ⟨popped, pops, launched⟩ := pops_expire (le_refl dq.tasks.length)
  exact ⟨popped, _, pops, tasks_cleanLastFired, launched⟩

theorem mem_checkExpired (ordered : dq.Ordered) {task : Task} :
    task ∈ (dq.checkExpired now).1.tasks ↔ task ∈ dq.tasks ∧ now < task.expireTime := by
  obtain ⟨popped, last, pops, heap, -⟩ := dq.pops_checkExpired now
  rw [tasks, heap]
  exact pops.mem_last ordered

theorem deadlines_checkExpired (ordered : dq.Ordered) :
    (dq.checkExpired now).1.deadlines = fun id => (dq.deadlines id).filter fun expireTime => now < expireTime := by
  funext id
  refine Option.ext fun time => ?_
  rw [deadlines_eq_some, mem_checkExpired ordered]
  simp [Option.filter_eq_some_iff, deadlines_eq_some]

theorem ordered_exec (ordered : dq.Ordered) : (dq.exec call).Ordered := by
  cases call with
  | setDedupWindow d => exact ordered
  | add id expireTime => exact ordered_schedule ordered
  | remove id => exact ordered_remove ordered
  | reschedule id newExpireTime =>
    have cleared : (dq.clearLastFired id).Ordered := ordered
    exact ordered_schedule cleared
  | checkExpired now =>
    obtain ⟨popped, last, pops, heap, -⟩ := dq.pops_checkExpired now
    show IndexedTaskHeap.Ordered (dq.checkExpired now).1.h.1
    rw [heap]
    exact pops.ordered ordered

theorem deadlines_exec (ordered : dq.Ordered) : (dq.exec call).deadlines = call.update dq.deadlines := by
  cases call with
  | setDedupWindow d => rfl
  | add id expireTime => exact deadlines_schedule
  | remove id => exact deadlines_remove
  | reschedule id newExpireTime => exact deadlines_schedule
  | checkExpired now => exact deadlines_checkExpired ordered

theorem ordered_calls (calls : List Call) (ordered : dq.Ordered) : (calls.foldl exec dq).Ordered := by
  induction calls generalizing dq with
  | nil => exact ordered
  | cons call calls ih => exact ih (ordered_exec ordered)

theorem deadlines_calls (calls : List Call) (ordered : dq.Ordered) :
    (calls.foldl exec dq).deadlines = calls.foldl Call.update dq.deadlines := by
  induction calls generalizing dq with
  | nil => rfl
  | cons call calls ih =>
    rw [List.foldl_cons, ih (ordered_exec ordered), deadlines_exec ordered, List.foldl_cons]

theorem ordered_empty : ({} : DelayQueue).Ordered := fun _ _ inside => absurd inside (Nat.not_lt_zero _)

/-- After any calls a queue stands for the map they make of the empty one. Its heap has each identifier once, at the
position its index says, and in order. A round then removes what is due and nothing else. -/
theorem refines_map (calls : List Call) (now : Int) :
    let dq := calls.foldl exec {}
    (dq.tasks.map Task.id).Nodup ∧ (∀ id i, dq.h.1.index id = some i ↔ At dq.tasks i fun task => task.id = id) ∧
      dq.Ordered ∧ dq.deadlines = calls.foldl Call.update (fun _ => none) ∧
      ∃ popped last, Pops now dq popped last ∧ (dq.checkExpired now).1.h = last.h ∧
        (∀ id expireTime, ⟨id, expireTime⟩ ∈ popped ↔ dq.deadlines id = some expireTime ∧ expireTime ≤ now) ∧
        popped.Pairwise (fun earlier later => earlier.id ≠ later.id ∧ earlier.expireTime ≤ later.expireTime) ∧
        (dq.checkExpired now).1.deadlines = (fun id => (dq.deadlines id).filter fun expireTime => now < expireTime) ∧
        (dq.checkExpired now).2 = (popped.filter fun task => !(dq.isDeduped task.id now).1).map Task.id := by
  have ordered := ordered_calls calls ordered_empty
  obtain ⟨popped, last, pops, heap, launched⟩ := (calls.foldl exec {}).pops_checkExpired now
  simp only [isDeduped_fst]
  refine ⟨(calls.foldl exec {}).h.2.nodup, (calls.foldl exec {}).h.2, ordered, deadlines_calls calls ordered_empty,
    popped, last, pops, heap, fun id expireTime => ?_, pops.sorted ordered, deadlines_checkExpired ordered, launched⟩
  rw [pops.mem_popped ordered, deadlines_eq_some]

end DelayQueue

end Skygo.Timer
