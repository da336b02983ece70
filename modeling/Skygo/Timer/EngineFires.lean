import Mathlib.Order.MinMax
import Skygo.Timer.EngineCalls

/-! When timers fire, and what was promised.

A callback looks its timer up when it runs, so it fires whatever task is under the timer by then.
What is bound to fire are the callbacks that were launched, at once, and the entries of the delay
queue, at their deadlines. A call has its sections under two mutexes, so what it finds before each of
them decides whether the deadline it sets is the only thing that can fire its task.
-/

set_option autoImplicit false

namespace Skygo.Timer

open Semantics

variable {T : Type}

namespace DelayQueue

variable {dq last : DelayQueue} {now : Int} {popped : List Task} {task : Task}

theorem Pops.due (pops : Pops now dq popped last) (member : task ∈ popped) : task.expireTime ≤ now := by
  induction pops with
  | stop rest => cases member
  | pop head due further ih =>
    rcases List.mem_cons.mp member with rfl | later
    · exact due
    · exact ih later

theorem Pops.rest_subset (pops : Pops now dq popped last) (member : task ∈ last.tasks) : task ∈ dq.tasks := by
  induction pops with
  | stop rest => exact member
  | pop head due further ih =>
    have still := ih member
    rw [tasks, tasks_isDeduped] at still
    exact ((mem_popFirst head).mp still).2

theorem checkExpired_subset (dq : DelayQueue) (now : Int) :
    (∀ id ∈ (dq.checkExpired now).2, ∃ task ∈ dq.tasks, task.id = id ∧ task.expireTime ≤ now) ∧
      ∀ task ∈ (dq.checkExpired now).1.tasks, task ∈ dq.tasks := by
  obtain ⟨popped, last, pops, heap, launched⟩ := dq.pops_checkExpired now
  refine ⟨fun id member => ?_, fun task member => ?_⟩
  · rw [launched] at member
    obtain ⟨task, taken, rfl⟩ := List.mem_map.mp member
    have inside := (List.mem_filter.mp taken).1
    exact ⟨task, pops.subset inside, rfl, pops.due inside⟩
  · rw [tasks, heap] at member
    exact pops.rest_subset member

end DelayQueue

namespace EngineCalls

def pending (s : EngineCalls T) : List (Nat × Int) :=
  s.engine.fires.map (fun timerID => (timerID, s.now)) ++ s.engine.delayQ.tasks.map fun task => (task.id, task.expireTime)

/-- A fire at the time, but not before now, is not before the due time. -/
def Honors (s : EngineCalls T) (due : Option Int) (time : Int) : Prop := ∀ ms ∈ due, unixMilli ms ≤ max time s.now

instance (s : EngineCalls T) (due : Option Int) (time : Int) : Decidable (s.Honors due time) := by
  unfold Honors; infer_instance

def under (acc : Accessor T) (s : EngineCalls T) (timerID : Nat) : Option Int := (s.engine.inMem timerID).map acc.taskID

/-- The task of an operation that is past its first section, and has yet to return or to go on to the next record. -/
def busy? : EngineOp T → Option T
  | .enqueuing _ task | .parking true task | .completing task | .launching _ task _ => some task
  | _ => none

def completing? : EngineOp T → Option T
  | .completing task => some task
  | _ => none

def Clear (acc : Accessor T) (task other : T) : Prop :=
  acc.taskID task ≠ acc.taskID other ∧ acc.timerID task ≠ acc.timerID other

instance (acc : Accessor T) (task other : T) : Decidable (Clear acc task other) := by unfold Clear; infer_instance

/-- No operation on the task or the timer is between its sections. -/
def Free (acc : Accessor T) (s : EngineCalls T) (task : T) : Prop := ∀ op ∈ s.ops, ∀ other ∈ busy? op, Clear acc task other

instance (acc : Accessor T) (s : EngineCalls T) (task : T) : Decidable (s.Free acc task) := by unfold Free; infer_instance

/-- What is bound to fire the task is bound to its timer. -/
def Only (acc : Accessor T) (s : EngineCalls T) (task : T) : Prop :=
  ∀ bound ∈ s.pending, s.under acc bound.1 = some (acc.taskID task) → bound.1 = acc.timerID task

instance (acc : Accessor T) (s : EngineCalls T) (task : T) : Decidable (s.Only acc task) := by unfold Only; infer_instance

/-- What is bound to the timer is bound to fire the task. -/
def Own (acc : Accessor T) (s : EngineCalls T) (task : T) : Prop :=
  ∀ bound ∈ s.pending, bound.1 = acc.timerID task → s.under acc bound.1 = some (acc.taskID task)

instance (acc : Accessor T) (s : EngineCalls T) (task : T) : Decidable (s.Own acc task) := by unfold Own; infer_instance

/-- Before the first section of a call or of a record nobody else is at its task or timer, and what is bound to fire
the one is bound to the other; a task that an `Add` parks is bound to nothing. No callback of the timer is launched and
has yet to run when the deadline is set, a record is for no earlier than the task was promised, and the queue launches
no timer of a call that brings its task forward and has yet to return. -/
def Orderly (acc : Accessor T) (s : EngineCalls T) : Action T → Prop
  | .remember _ _ task => s.Free acc task ∧ s.Only acc task ∧ s.Own acc task
  | .enqueue _ _ task => acc.timerID task ∉ s.engine.fires
  | .unqueue _ task => s.Free acc task ∧ s.Only acc task
  | .park _ again task =>
      again = false → s.Free acc task ∧ ∀ bound ∈ s.pending, s.under acc bound.1 ≠ some (acc.taskID task)
  | .takeUp _ _ rec _ =>
      (acc.timerID rec = 0 ∨ (s.engine.byTask (acc.taskID rec)).isSome = true) ∨
        (s.Free acc rec ∧ s.Only acc rec ∧ s.Own acc rec ∧
          s.Honors (s.promised (acc.taskID rec)) (unixMilli (acc.dueTimeMs rec)))
  | .tick =>
      ∀ entry ∈ s.engine.delayQ.tasks, entry.expireTime ≤ s.now → ∀ op ∈ s.ops, ∀ task ∈ completing? op,
        acc.timerID task = entry.id → ∀ ms ∈ s.promised (acc.taskID task), unixMilli ms ≤ unixMilli (acc.dueTimeMs task)
  | _ => True

instance (acc : Accessor T) (s : EngineCalls T) (a : Action T) : Decidable (s.Orderly acc a) := by
  rcases a with _ | _ <;> unfold Orderly <;> infer_instance

variable {acc : Accessor T} {s s' : EngineCalls T}

theorem mem_pending {timerID : Nat} {time : Int} :
    (timerID, time) ∈ s.pending ↔ (timerID ∈ s.engine.fires ∧ time = s.now) ∨ ⟨timerID, time⟩ ∈ s.engine.delayQ.tasks := by
  simp only [pending, List.mem_append, List.mem_map, Prod.mk.injEq]
  constructor
  · rintro (⟨_, member, rfl, rfl⟩ | ⟨task, member, rfl, rfl⟩)
    · exact .inl ⟨member, rfl⟩
    · exact .inr member
  · rintro (⟨member, rfl⟩ | member)
    · exact .inl ⟨timerID, member, rfl, rfl⟩
    · exact .inr ⟨_, member, rfl, rfl⟩

def Returning (acc : Accessor T) (s : EngineCalls T) (taskID : Int) (timerID : Nat) : Prop :=
  ∃ task, .completing task ∈ s.ops ∧ acc.taskID task = taskID ∧ acc.timerID task = timerID

def Steady (acc : Accessor T) (s : EngineCalls T) : EngineOp T → Prop
  | .enqueuing _ task => s.Only acc task ∧ ∀ taskID, s.under acc (acc.timerID task) = some taskID → taskID = acc.taskID task
  | .parking true task => s.Only acc task
  | .completing task =>
      ∀ bound ∈ s.pending, s.under acc bound.1 = some (acc.taskID task) → s.Honors (some (acc.dueTimeMs task)) bound.2
  | .promoting now _ => now ≤ s.now
  | .launching now rec _ =>
      now ≤ s.now ∧ s.Honors (s.promised (acc.taskID rec)) (unixMilli (acc.dueTimeMs rec)) ∧
        ∀ taskID, s.under acc (acc.timerID rec) = some taskID → taskID = acc.taskID rec
  | _ => True

def Apart (acc : Accessor T) (ops : List (EngineOp T)) : Prop :=
  ∀ (i : Nat) (op : EngineOp T), ops[i]? = some op → ∀ (j : Nat) (other : EngineOp T), j ≠ i → ops[j]? = some other →
    ∀ task ∈ busy? op, ∀ task' ∈ busy? other, Clear acc task task'

/-- What is bound to fire the task honors the promise made for it, or is the deadline that a call has set and has yet
to promise. -/
def Due (acc : Accessor T) (s : EngineCalls T) (taskID : Int) : Prop :=
  ∀ bound ∈ s.pending, s.under acc bound.1 = some taskID →
    s.Honors (s.promised taskID) bound.2 ∨ (bound.1 ∉ s.engine.fires ∧ s.Returning acc taskID bound.1)

def Punctual (submissions : List (Submission T)) : Prop :=
  ∀ submission ∈ submissions, ∀ ms ∈ submission.promised, unixMilli ms ≤ submission.time

structure Timely (acc : Accessor T) (s : EngineCalls T) : Prop where
  due : ∀ taskID, s.Due acc taskID
  steady : ∀ (i : Nat) (op : EngineOp T), s.ops[i]? = some op → s.Steady acc op
  apart : Apart acc s.ops
  submissions : Punctual s.submissions

/-- A step leaves alone every task and timer but those of `exempt`: no promise changes, no timer gets a task, and
nothing is bound to fire sooner than before. -/
structure Spares (acc : Accessor T) (exempt : Option T) (s s' : EngineCalls T) : Prop where
  now : s.now ≤ s'.now
  promised : ∀ taskID, (∀ other ∈ exempt, taskID ≠ acc.taskID other) → s'.promised taskID = s.promised taskID
  under : ∀ timerID taskID, (∀ other ∈ exempt, timerID ≠ acc.timerID other) → s'.under acc timerID = some taskID →
    s.under acc timerID = some taskID
  pending : ∀ bound ∈ s'.pending, ∀ taskID, (∀ other ∈ exempt, taskID ≠ acc.taskID other) →
    s'.under acc bound.1 = some taskID → s.under acc bound.1 = some taskID ∧
      ∃ earlier, (bound.1, earlier) ∈ s.pending ∧ max earlier s.now ≤ max bound.2 s'.now

theorem Honors.mono {due : Option Int} {time later : Int} (honors : s.Honors due time)
    (after : max time s.now ≤ max later s'.now) : s'.Honors due later :=
  fun ms promise => (honors ms promise).trans after

variable {exempt : Option T} {op : EngineOp T}

theorem Spares.only (spares : Spares acc exempt s s') {task : T} (clear : ∀ other ∈ exempt, Clear acc task other)
    (only : s.Only acc task) : s'.Only acc task := by
  intro bound member named
  obtain ⟨was, earlier, before, -⟩ := spares.pending bound member _ (fun other known => (clear other known).1) named
  exact only (bound.1, earlier) before was

/-- An operation on another task and another timer can rely on what it could. -/
theorem Spares.steady (spares : Spares acc exempt s s') (steady : s.Steady acc op)
    (clear : ∀ task ∈ busy? op, ∀ other ∈ exempt, Clear acc task other) : s'.Steady acc op := by
  cases op with
  | enqueuing again task =>
    have apart := clear task rfl
    refine ⟨spares.only apart steady.1, fun taskID named => steady.2 taskID ?_⟩
    exact spares.under _ taskID (fun other known => (apart other known).2) named
  | parking again task =>
    cases again with
    | false => exact trivial
    | true => exact spares.only (clear task rfl) steady
  | completing task =>
    intro bound member named
    obtain ⟨was, earlier, before, after⟩ :=
      spares.pending bound member _ (fun other known => (clear task rfl other known).1) named
    exact (steady (bound.1, earlier) before was).mono after
  | promoting now records => exact le_trans steady spares.now
  | launching now rec records =>
    have apart := clear rec rfl
    obtain ⟨past, honors, own⟩ := steady
    refine ⟨past.trans spares.now, ?_, fun taskID named => own taskID ?_⟩
    · rw [spares.promised _ fun other known => (apart other known).1]
      exact honors.mono (max_le_max (le_refl _) spares.now)
    · exact spares.under _ taskID (fun other known => (apart other known).2) named
  | _ => exact trivial

/-- A step keeps the engine timely if it is about one task at most, and what is then bound to fire this task may. -/
theorem Timely.spared (timely : Timely acc s) (spares : Spares acc exempt s s')
    (fires : ∀ timerID ∈ s'.engine.fires, timerID ∈ s.engine.fires ∨
      ∀ taskID, s'.under acc timerID = some taskID → ∃ other ∈ exempt, taskID = acc.taskID other)
    (returning : ∀ task, (∀ other ∈ exempt, acc.taskID task ≠ acc.taskID other) → .completing task ∈ s.ops →
      .completing task ∈ s'.ops)
    (own : ∀ task ∈ exempt, s'.Due acc (acc.taskID task))
    (steady : ∀ (i : Nat) (op : EngineOp T), s'.ops[i]? = some op → s'.Steady acc op) (apart : Apart acc s'.ops)
    (submissions : Punctual s'.submissions) : Timely acc s' where
  due taskID bound member named := by
    by_cases exempted : ∃ other ∈ exempt, taskID = acc.taskID other
    · obtain ⟨task, known, rfl⟩ := exempted
      exact own task known bound member named
    · have clear (other : T) (known : other ∈ exempt) : taskID ≠ acc.taskID other := fun same =>
        exempted ⟨other, known, same⟩
      obtain ⟨was, earlier, before, after⟩ := spares.pending bound member taskID clear named
      rcases timely.due taskID _ before was with honors | ⟨unlaunched, task, inside, rfl, timer⟩
      · refine .inl ?_
        rw [spares.promised taskID clear]
        exact honors.mono after
      · refine .inr ⟨fun launched => ?_, task, returning task clear inside, rfl, timer⟩
        rcases fires _ launched with old | new
        · exact unlaunched old
        · exact exempted (new _ named)
  steady := steady
  apart := apart
  submissions := submissions

theorem Apart.modify {ops : List (EngineOp T)} {i : Nat} {old : EngineOp T} (apart : Apart acc ops)
    (here : At ops i fun current => current = old)
    (clear : ∀ task ∈ busy? op, busy? old = some task ∨ ∀ other ∈ ops, ∀ task' ∈ busy? other, Clear acc task task') :
    Apart acc (ops.modify i fun _ => op) := by
  obtain ⟨_, found, rfl⟩ := at_iff.mp here
  have away (j : Nat) (other : EngineOp T) (away : j ≠ i) (there : ops[j]? = some other) (task : T) (mine : task ∈ busy? op)
      (task' : T) (theirs : task' ∈ busy? other) : Clear acc task task' := by
    rcases clear task mine with same | free
    · exact apart i _ found j other away there task same task' theirs
    · exact free other (List.mem_of_getElem? there) task' theirs
  intro j first there k second other where_ task mine task' theirs
  rcases lookup_modify there with ⟨rfl, _, _, rfl⟩ | ⟨elsewhere, was⟩
  · rcases lookup_modify where_ with ⟨same, -⟩ | ⟨_, was⟩
    · exact absurd same other
    · exact away k second other was task mine task' theirs
  · rcases lookup_modify where_ with ⟨rfl, _, _, rfl⟩ | ⟨_, there⟩
    · have clear := away j first elsewhere was task' theirs task mine
      exact ⟨Ne.symm clear.1, Ne.symm clear.2⟩
    · exact apart j first was k second other there task mine task' theirs

theorem Apart.append {ops : List (EngineOp T)} (apart : Apart acc ops) (idle : busy? op = none) :
    Apart acc (ops ++ [op]) := by
  intro i first found j second other there task mine task' theirs
  rcases lookup_append found with was | ⟨-, rfl⟩
  · rcases lookup_append there with there | ⟨-, rfl⟩
    · exact apart i first was j second other there task mine task' theirs
    · rw [idle] at theirs
      cases theirs
  · rw [idle] at mine
    cases mine

theorem completing_modify {ops : List (EngineOp T)} {i : Nat} {old : EngineOp T} {task : T}
    (here : At ops i fun current => current = old) (apart : old ≠ .completing task) (member : .completing task ∈ ops) :
    .completing task ∈ ops.modify i fun _ => op := by
  obtain ⟨j, found⟩ := List.mem_iff_getElem?.mp member
  have away : i ≠ j := by
    rintro rfl
    exact apart (here.here found).symm
  exact List.mem_iff_getElem?.mpr ⟨j, by simp [found, away]⟩

/-- A step that is about no task: the timers hold fewer tasks, and less is bound to fire. -/
structure Calms (s s' : EngineCalls T) : Prop where
  now : s.now ≤ s'.now
  promised : s'.promised = s.promised
  inMem : ∀ timerID task, s'.engine.inMem timerID = some task → s.engine.inMem timerID = some task
  fires : ∀ timerID ∈ s'.engine.fires, timerID ∈ s.engine.fires
  queue : ∀ entry ∈ s'.engine.delayQ.tasks, entry ∈ s.engine.delayQ.tasks

theorem Calms.same (now : s.now ≤ s'.now) (promised : s'.promised = s.promised) (inMem : s'.engine.inMem = s.engine.inMem)
    (fires : s'.engine.fires = s.engine.fires) (queue : s'.engine.delayQ.tasks = s.engine.delayQ.tasks) : Calms s s' :=
  ⟨now, promised, fun _ _ found => inMem ▸ found, fun _ member => fires ▸ member, fun _ member => queue ▸ member⟩

theorem Calms.spares (calms : Calms s s') : Spares acc none s s' := by
  have under (timerID : Nat) (taskID : Int) (named : s'.under acc timerID = some taskID) :
      s.under acc timerID = some taskID := by
    obtain ⟨task, found, same⟩ := Option.map_eq_some_iff.mp named
    exact Option.map_eq_some_iff.mpr ⟨task, calms.inMem timerID task found, same⟩
  refine ⟨calms.now, fun _ _ => by rw [calms.promised], fun timerID taskID _ => under timerID taskID, ?_⟩
  rintro ⟨timerID, time⟩ bound taskID - named
  refine ⟨under timerID taskID named, ?_⟩
  rcases mem_pending.mp bound with ⟨member, rfl⟩ | member
  · exact ⟨s.now, mem_pending.mpr (.inl ⟨calms.fires timerID member, rfl⟩), max_le_max calms.now calms.now⟩
  · exact ⟨time, mem_pending.mpr (.inr (calms.queue _ member)), max_le_max (le_refl time) calms.now⟩

theorem Calms.steady (calms : Calms s s') (steady : s.Steady acc op) : s'.Steady acc op :=
  calms.spares.steady steady fun _ _ _ known => by cases known

theorem Timely.calm (timely : Timely acc s) (calms : Calms s s')
    (returning : ∀ task, .completing task ∈ s.ops → .completing task ∈ s'.ops)
    (steady : ∀ (i : Nat) (op : EngineOp T), s'.ops[i]? = some op → s'.Steady acc op) (apart : Apart acc s'.ops)
    (submissions : Punctual s'.submissions) : Timely acc s' := by
  refine timely.spared calms.spares (fun timerID member => .inl (calms.fires timerID member)) (fun task _ => returning task)
    ?_ steady apart submissions
  intro task known
  cases known

theorem Timely.frame (timely : Timely acc s) (calms : Calms s s') (ops : s'.ops = s.ops)
    (submissions : Punctual s'.submissions) : Timely acc s' := by
  refine timely.calm calms (fun _ member => ops ▸ member) (fun i op found => ?_) (ops ▸ timely.apart) submissions
  rw [ops] at found
  exact calms.steady (timely.steady i op found)

theorem Timely.begin (timely : Timely acc s) (calms : Calms s s') (ops : s'.ops = s.ops ++ [op]) (idle : busy? op = none)
    (starts : s'.Steady acc op) (submissions : s'.submissions = s.submissions) : Timely acc s' := by
  refine timely.calm calms (fun _ member => ops ▸ List.mem_append_left _ member) (fun i other found => ?_)
    (ops ▸ timely.apart.append idle) (submissions ▸ timely.submissions)
  rw [ops] at found
  rcases lookup_append found with old | ⟨-, rfl⟩
  · exact calms.steady (timely.steady i other old)
  · exact starts

/-- A section that binds nothing and puts no task under a timer. -/
theorem Timely.goes (timely : Timely acc s) {i : Nat} {old : EngineOp T} (here : s.OpAt i old) (calms : Calms s s')
    (ops : s'.ops = s.ops.modify i fun _ => op) (idle : completing? old = none)
    (clear : ∀ task ∈ busy? op, busy? old = some task ∨ s.Free acc task) (goes : s'.Steady acc op)
    (submissions : s'.submissions = s.submissions) : Timely acc s' := by
  refine timely.calm calms (fun task member => ?_) ?_ (ops ▸ timely.apart.modify here clear)
    (submissions ▸ timely.submissions)
  · rw [ops]
    refine completing_modify here (fun is => ?_) member
    rw [is] at idle
    cases idle
  · rw [ops]
    exact forall_modify (fun _ _ => goes) fun j other _ found => calms.steady (timely.steady j other found)

/-- A section of an operation on the task, its first one or a later one. -/
theorem Timely.acts (timely : Timely acc s) {i : Nat} {old : EngineOp T} {task : T} (here : s.OpAt i old)
    (clear : busy? old = some task ∨ (busy? old = none ∧ s.Free acc task)) (spares : Spares acc (some task) s s')
    (ops : s'.ops = s.ops.modify i fun _ => op) (keeps : ∀ other ∈ busy? op, other = task) (goes : s'.Steady acc op)
    (fires : ∀ timerID ∈ s'.engine.fires, timerID ∈ s.engine.fires ∨
      ∀ taskID, s'.under acc timerID = some taskID → taskID = acc.taskID task)
    (own : s'.Due acc (acc.taskID task)) (submissions : s'.submissions = s.submissions) : Timely acc s' := by
  obtain ⟨_, found, rfl⟩ := at_iff.mp here
  have others (j : Nat) (other : EngineOp T) (away : j ≠ i) (there : s.ops[j]? = some other) (task' : T)
      (theirs : task' ∈ busy? other) : Clear acc task' task := by
    rcases clear with mine | ⟨-, free⟩
    · exact timely.apart j other there i _ (Ne.symm away) found task' theirs task mine
    · have apart := free other (List.mem_of_getElem? there) task' theirs
      exact ⟨Ne.symm apart.1, Ne.symm apart.2⟩
  refine timely.spared spares (fun timerID member => ?_) (fun task' apart member => ?_) (fun other known => ?_) ?_ ?_
    (submissions ▸ timely.submissions)
  · exact (fires timerID member).imp_right fun held taskID named => ⟨task, rfl, held taskID named⟩
  · rw [ops]
    refine completing_modify here (fun is => ?_) member
    rw [is] at clear
    rcases clear with mine | ⟨none_, -⟩
    · cases mine
      exact apart task rfl rfl
    · cases none_
  · cases known
    exact own
  · rw [ops]
    refine forall_modify (fun _ _ => goes) fun j other away there => ?_
    refine spares.steady (timely.steady j other there) fun task' theirs other_ known => ?_
    cases known
    exact others j other away there task' theirs
  · rw [ops]
    refine timely.apart.modify here fun other mine => ?_
    rw [keeps other mine]
    exact clear.imp_right And.right

/-- What was bound to the timer fires the new task from now on, and it was bound to fire the task before. -/
theorem Timely.remember (timely : Timely acc s) {i : Nat} {old : EngineOp T} {task : T} (here : s.OpAt i old)
    (idle : busy? old = none) (free : s.Free acc task) (only : s.Only acc task) (mine : s.Own acc task)
    (now : s'.now = s.now) (promised : s'.promised = s.promised) (engine : s'.engine = s.engine.remember acc task)
    (ops : s'.ops = s.ops.modify i fun _ => op) (keeps : ∀ other ∈ busy? op, other = task)
    (goes : s'.Only acc task → s'.under acc (acc.timerID task) = some (acc.taskID task) → s'.Steady acc op)
    (submissions : s'.submissions = s.submissions) : Timely acc s' := by
  have same : s'.pending = s.pending := by
    unfold EngineCalls.pending
    rw [engine, now]
    rfl
  have held : s'.under acc (acc.timerID task) = some (acc.taskID task) := by
    simp [under, engine, Engine.remember]
  have others {timerID : Nat} (other : timerID ≠ acc.timerID task) : s'.under acc timerID = s.under acc timerID := by
    simp [under, engine, Engine.remember, Function.update_of_ne other]
  have before (bound : Nat × Int) (member : bound ∈ s'.pending) (named : s'.under acc bound.1 = some (acc.taskID task)) :
      bound ∈ s.pending ∧ s.under acc bound.1 = some (acc.taskID task) := by
    rw [same] at member
    by_cases here : bound.1 = acc.timerID task
    · exact ⟨member, mine bound member here⟩
    · exact ⟨member, others here ▸ named⟩
  refine timely.acts here (.inr ⟨idle, free⟩) ⟨now.ge, fun _ _ => by rw [promised], fun timerID taskID apart named => ?_,
    fun bound member taskID apart named => ?_⟩ ops keeps (goes (fun bound member named => ?_) held)
    (fun timerID member => .inl ?_) (fun bound member named => .inl ?_) submissions
  · exact others (apart task rfl) ▸ named
  · have away : bound.1 ≠ acc.timerID task := by
      intro here
      rw [here, held] at named
      exact apart task rfl (Option.some.inj named).symm
    exact ⟨others away ▸ named, bound.2, same ▸ member, by rw [now]⟩
  · obtain ⟨was, named⟩ := before bound member named
    exact only bound was named
  · rw [engine] at member
    exact member
  · obtain ⟨was, named⟩ := before bound member named
    rcases timely.due _ bound was named with honors | ⟨-, other, inside, sameTask, -⟩
    · rw [promised]
      exact honors.mono (by rw [now])
    · exact absurd sameTask.symm (free _ inside other rfl).1

theorem mem_enqueue {e : Engine T} {again : Bool} {task : T} {entry : Task}
    (member : entry ∈ (e.enqueue acc again task).delayQ.tasks) :
    entry = ⟨acc.timerID task, unixMilli (acc.dueTimeMs task)⟩ ∨
      (entry.id ≠ acc.timerID task ∧ entry ∈ e.delayQ.tasks) := by
  unfold Engine.enqueue at member
  dsimp only at member
  split at member
  · exact (DelayQueue.mem_schedule.mp member).imp_right id
  · exact (DelayQueue.mem_schedule.mp member).imp_right id

/-- Something is bound to the timer of the task, which no other task is under. -/
theorem Spares.binds {task : T} (held : ∀ taskID, s.under acc (acc.timerID task) = some taskID → taskID = acc.taskID task)
    (now : s'.now = s.now) (promised : s'.promised = s.promised) (inMem : s'.engine.inMem = s.engine.inMem)
    (more : ∀ bound ∈ s'.pending, bound.1 = acc.timerID task ∨ bound ∈ s.pending) : Spares acc (some task) s s' := by
  have same (timerID : Nat) : s'.under acc timerID = s.under acc timerID := by
    unfold EngineCalls.under
    rw [inMem]
  refine ⟨now.ge, fun _ _ => by rw [promised], fun timerID taskID _ named => same timerID ▸ named, ?_⟩
  intro bound member taskID apart named
  rw [same] at named
  rcases more bound member with here | before
  · exact absurd (held taskID (here ▸ named)) (apart task rfl)
  · exact ⟨named, bound.2, before, by rw [now]⟩

theorem Timely.enqueue (timely : Timely acc s) {i : Nat} {again : Bool} {task : T} (here : s.OpAt i (.enqueuing again task))
    (unlaunched : acc.timerID task ∉ s.engine.fires) : Timely acc (s.next acc (.enqueue i again task)) := by
  obtain ⟨_, found, rfl⟩ := at_iff.mp here
  obtain ⟨only, held⟩ := timely.steady i _ found
  have bounds (bound : Nat × Int) (member : bound ∈ (s.next acc (.enqueue i again task)).pending) :
      bound = (acc.timerID task, unixMilli (acc.dueTimeMs task)) ∨ (bound.1 ≠ acc.timerID task ∧ bound ∈ s.pending) := by
    obtain ⟨timerID, time⟩ := bound
    rcases mem_pending.mp member with ⟨launched, rfl⟩ | queued
    · have launched : timerID ∈ s.engine.fires := launched
      refine .inr ⟨?_, mem_pending.mpr (.inl ⟨launched, rfl⟩)⟩
      rintro rfl
      exact unlaunched launched
    · rcases mem_enqueue queued with new | ⟨other, old⟩
      · cases new
        exact .inl rfl
      · exact .inr ⟨other, mem_pending.mpr (.inr old)⟩
  -- nothing but the deadline that was set can fire the task
  have sole (bound : Nat × Int) (member : bound ∈ (s.next acc (.enqueue i again task)).pending)
      (named : s.under acc bound.1 = some (acc.taskID task)) : bound = (acc.timerID task, unixMilli (acc.dueTimeMs task)) := by
    rcases bounds bound member with new | ⟨other, old⟩
    · exact new
    · exact absurd (only bound old named) other
  refine timely.acts here (.inl rfl) (.binds held rfl rfl rfl fun bound member => ?_) rfl
    (fun other mine => (Option.some.inj mine).symm) (fun bound member named => ?_) (fun timerID member => .inl member)
    (fun bound member named => .inr ?_) rfl
  · exact (bounds bound member).imp (fun new => by rw [new]) And.right
  · rw [sole bound member named]
    intro ms promise
    cases promise
    exact le_max_left _ _
  · rw [sole bound member named]
    exact ⟨unlaunched, task, List.mem_of_getElem? (lookup_modify_self found), rfl, rfl⟩

theorem Timely.bind (timely : Timely acc s) {i : Nat} {now time : Int} {rec : T} {records : List T}
    (here : s.OpAt i (.launching now rec records)) (honors : s.Honors (s.promised (acc.taskID rec)) time)
    (sameNow : s'.now = s.now) (promised : s'.promised = s.promised) (inMem : s'.engine.inMem = s.engine.inMem)
    (more : ∀ bound ∈ s'.pending, bound = (acc.timerID rec, time) ∨ bound ∈ s.pending)
    (fires : ∀ timerID ∈ s'.engine.fires, timerID ∈ s.engine.fires ∨ timerID = acc.timerID rec)
    (ops : s'.ops = s.ops.modify i fun _ => .promoting now records) (submissions : s'.submissions = s.submissions) :
    Timely acc s' := by
  obtain ⟨_, found, rfl⟩ := at_iff.mp here
  obtain ⟨past, -, held⟩ := timely.steady i _ found
  have same (timerID : Nat) : s'.under acc timerID = s.under acc timerID := by
    unfold EngineCalls.under
    rw [inMem]
  refine timely.acts here (.inl rfl) (.binds held sameNow promised inMem fun bound member => ?_) ops
    (fun other mine => by cases mine) (past.trans sameNow.ge) (fun timerID member => ?_) (fun bound member named => .inl ?_)
    submissions
  · exact (more bound member).imp_left fun new => by rw [new]
  · refine (fires timerID member).imp_right fun new taskID named => ?_
    rw [same, new] at named
    exact held taskID named
  · rw [promised]
    rcases more bound member with rfl | old
    · exact honors.mono (by rw [sameNow])
    · rcases timely.due _ bound old (same _ ▸ named) with known | ⟨-, other, inside, sameTask, -⟩
      · exact known.mono (by rw [sameNow])
      · -- a call on the task would be between its sections as well
        obtain ⟨j, there⟩ := List.mem_iff_getElem?.mp inside
        have away : j ≠ i := by
          rintro rfl
          cases found.symm.trans there
        exact absurd sameTask.symm (timely.apart i _ found j _ away there rec rfl other rfl).1

theorem Timely.launch (timely : Timely acc s) {i : Nat} {now : Int} {rec : T} {records : List T}
    (here : s.OpAt i (.launching now rec records)) : Timely acc (s.launch acc i now rec records) := by
  obtain ⟨_, found, rfl⟩ := at_iff.mp here
  obtain ⟨past, honors, held⟩ := timely.steady i _ found
  unfold EngineCalls.launch
  split
  · next early =>
    have reached : s.Honors (s.promised (acc.taskID rec)) s.now :=
      honors.mono (max_le_max (le_of_lt (lt_of_lt_of_le early past)) (le_refl _))
    refine timely.bind here reached rfl rfl rfl ?_ (fun timerID member => ?_) rfl rfl
    · rintro ⟨timerID, time⟩ member
      rcases mem_pending.mp member with ⟨launched, rfl⟩ | queued
      · rcases List.mem_append.mp launched with old | new
        · exact .inr (mem_pending.mpr (.inl ⟨old, rfl⟩))
        · rw [List.mem_singleton.mp new]
          exact .inl rfl
      · exact .inr (mem_pending.mpr (.inr queued))
    · exact (List.mem_append.mp member).imp_right List.mem_singleton.mp
  · refine timely.bind here honors rfl rfl rfl ?_ (fun timerID member => .inl member) rfl rfl
    rintro ⟨timerID, time⟩ member
    rcases mem_pending.mp member with launched | queued
    · exact .inr (mem_pending.mpr (.inl launched))
    · rcases mem_enqueue queued with new | ⟨-, old⟩
      · cases new
        exact .inl rfl
      · exact .inr (mem_pending.mpr (.inr old))

theorem Timely.complete (timely : Timely acc s) {i : Nat} {task : T} (here : s.OpAt i (.completing task)) :
    Timely acc (s.next acc (.complete i task)) := by
  obtain ⟨_, found, rfl⟩ := at_iff.mp here
  have honored := timely.steady i _ found
  refine timely.acts here (.inl rfl) ⟨le_refl _, fun taskID apart => ?_, fun _ _ _ named => named,
    fun bound member _ _ named => ⟨named, bound.2, member, le_refl _⟩⟩ rfl (fun other mine => by cases mine) trivial
    (fun timerID member => .inl member) (fun bound member named => .inl ?_) rfl
  · exact Function.update_of_ne (apart task rfl) _ _
  · intro ms promise
    have due : ms = acc.dueTimeMs task := by simpa [next, goto, eq_comm] using promise
    exact honored bound member named ms (congrArg some due.symm)

/-- An entry that is launched was due, so that its callback may run at once. -/
theorem Timely.tick (timely : Timely acc s) (orderly : s.Orderly acc .tick) : Timely acc (s.next acc .tick) := by
  obtain ⟨launched, left⟩ := s.engine.delayQ.checkExpired_subset s.now
  have spares : Spares acc none s (s.next acc .tick) := by
    refine ⟨le_refl _, fun _ _ => rfl, fun _ _ _ named => named, ?_⟩
    rintro ⟨timerID, time⟩ bound taskID - named
    refine ⟨named, ?_⟩
    rcases mem_pending.mp bound with ⟨member, rfl⟩ | member
    · rcases List.mem_append.mp member with old | new
      · exact ⟨s.now, mem_pending.mpr (.inl ⟨old, rfl⟩), le_refl _⟩
      · obtain ⟨entry, was, rfl, due⟩ := launched timerID new
        exact ⟨entry.expireTime, mem_pending.mpr (.inr was), max_le_max due (le_refl s.now)⟩
    · exact ⟨time, mem_pending.mpr (.inr (left _ member)), le_refl _⟩
  have steady (i : Nat) (op : EngineOp T) (found : s.ops[i]? = some op) : (s.next acc .tick).Steady acc op :=
    spares.steady (timely.steady i op found) fun _ _ _ known => by cases known
  refine ⟨fun taskID bound member named => ?_, steady, timely.apart, timely.submissions⟩
  obtain ⟨_, earlier, before, after⟩ := spares.pending bound member taskID (fun _ known => by cases known) named
  rcases timely.due taskID _ before named with honors | ⟨unlaunched, task, inside, rfl, timer⟩
  · exact .inl (honors.mono after)
  · by_cases fresh : bound.1 ∈ (s.next acc .tick).engine.fires
    · -- the call does not bring its task forward, and the deadline it has set is reached
      obtain ⟨entry, was, same, due⟩ := launched bound.1 ((List.mem_append.mp fresh).resolve_left unlaunched)
      obtain ⟨i, found⟩ := List.mem_iff_getElem?.mp inside
      have set := steady i _ found bound member named _ rfl
      refine .inl fun ms promise => ?_
      exact (orderly entry was due _ inside task rfl (timer.trans same.symm) ms promise).trans set
    · exact .inr ⟨fresh, task, inside, rfl, timer⟩

/-- A callback fires what is under its timer, and that was promised for no later. -/
theorem Timely.fire (timely : Timely acc s) {i timerID : Nat} (launched : s.engine.fires[i]? = some timerID) :
    Timely acc (s.fire acc i timerID) := by
  have fewer (other : Nat) (member : other ∈ s.engine.fires.eraseIdx i) : other ∈ s.engine.fires :=
    List.mem_of_mem_eraseIdx member
  unfold EngineCalls.fire
  dsimp only
  split
  · exact timely.frame ⟨le_refl _, rfl, fun _ _ found => found, fewer, fun _ member => member⟩ rfl timely.submissions
  · next task found =>
    refine timely.frame ⟨le_refl _, rfl, fun other there was => ?_, fun other member => fewer other ?_,
      fun entry member => ?_⟩ rfl fun submission member ms promise => ?_
    · simp only [Engine.onDelayTimerFire, found, Function.update_apply] at was
      split at was
      · cases was
      · exact was
    · simpa [Engine.onDelayTimerFire, found] using member
    · simpa [Engine.onDelayTimerFire, found] using member
    · rcases List.mem_append.mp member with old | new
      · exact timely.submissions submission old ms promise
      · rw [List.mem_singleton.mp new] at promise ⊢
        have bound : (timerID, s.now) ∈ s.pending := mem_pending.mpr (.inl ⟨List.mem_of_getElem? launched, rfl⟩)
        have named : s.under acc timerID = some (acc.taskID task) := by rw [under, found]; rfl
        rcases timely.due _ _ bound named with honors | ⟨unlaunched, -⟩
        · have due := honors ms promise
          rwa [max_self] at due
        · exact absurd (List.mem_of_getElem? launched) unlaunched

theorem calms_forget {taskID : Int} (now : s'.now = s.now) (promised : s'.promised = s.promised)
    (engine : s'.engine = s.engine.forget taskID) : Calms s s' := by
  simp only [Engine.forget, Engine.forgetTask] at engine
  split at engine
  · exact .same now.ge promised (by rw [engine]) (by rw [engine]) (by rw [engine])
  · refine ⟨now.ge, promised, fun timerID task found => ?_, fun _ member => ?_, fun _ member => ?_⟩
    · simp only [engine, Function.update_apply] at found
      split at found
      · cases found
      · exact found
    · simpa only [engine] using member
    · simpa only [engine] using member

theorem Timely.park (timely : Timely acc s) {i : Nat} {again : Bool} {task : T} (orderly : s.Orderly acc (.park i again task))
    (here : s.OpAt i (.parking again task)) : Timely acc (s.next acc (.park i again task)) := by
  obtain ⟨_, found, rfl⟩ := at_iff.mp here
  have before := timely.steady i _ found
  cases again with
  | false =>
    obtain ⟨free, unbound⟩ := orderly rfl
    refine timely.goes here (.same (le_refl _) rfl rfl rfl rfl) rfl rfl
      (fun other mine => .inr (Option.some.inj mine ▸ free)) (fun bound member named => ?_) rfl
    exact absurd named (unbound bound member)
  | true =>
    have kept (timerID : Nat) (other : T)
        (found : (s.next acc (.park i true task)).engine.inMem timerID = some other) :
        timerID ≠ acc.timerID task ∧ s.engine.inMem timerID = some other := by
      simp only [next, goto, Engine.park, if_true, Function.update_apply] at found
      split at found
      · cases found
      · next away => exact ⟨away, found⟩
    refine timely.goes here
      ⟨le_refl _, rfl, fun timerID other found => (kept timerID other found).2, fun _ member => member, fun _ member => member⟩
      rfl rfl (fun other mine => .inl mine) (fun bound member named => ?_) rfl
    -- the timer holds nothing any more, and no other is bound to fire the task
    obtain ⟨other, found, same⟩ := Option.map_eq_some_iff.mp named
    obtain ⟨away, was⟩ := kept bound.1 other found
    exact absurd (before bound member (Option.map_eq_some_iff.mpr ⟨other, was, same⟩)) away

theorem timely_next {a : Action T} (timely : Timely acc s) (orderly : s.Orderly acc a) (enabled : s.Enabled a) :
    Timely acc (s.next acc a) := by
  cases a with
  | clock now => exact timely.frame (.same enabled rfl rfl rfl rfl) rfl timely.submissions
  | setDedupWindow d | ensureTimerID taskID timerID =>
    exact timely.frame (.same (le_refl _) rfl rfl rfl rfl) rfl timely.submissions
  | call again task => exact timely.begin (.same (le_refl _) rfl rfl rfl rfl) rfl rfl trivial rfl
  | stored i again task ok =>
    have goes (op : EngineOp T) (idle : busy? op = none) (rests : s.Steady acc op) : Timely acc (s.goto i op) := by
      refine timely.goes enabled (.same (le_refl _) rfl rfl rfl rfl) rfl rfl (fun other mine => ?_) ?_ rfl
      · rw [idle] at mine
        cases mine
      · exact rests
    dsimp only [next]
    split
    · exact goes _ rfl trivial
    · split
      · exact goes _ rfl trivial
      · split
        · exact goes _ rfl trivial
        · next first =>
          rw [Bool.not_eq_true] at first
          subst first
          exact goes _ rfl trivial
  | remember i again task =>
    obtain ⟨free, only, own⟩ := orderly
    refine timely.remember enabled rfl free only own rfl rfl rfl rfl (fun other mine => (Option.some.inj mine).symm)
      (fun still held => ⟨still, fun taskID named => ?_⟩) rfl
    exact Option.some.inj (named.symm.trans held)
  | enqueue i again task => exact timely.enqueue enabled orderly
  | unqueue i task =>
    obtain ⟨free, only⟩ := orderly
    have removed (entry : Task) (member : entry ∈ (s.next acc (.unqueue i task)).engine.delayQ.tasks) :
        entry ∈ s.engine.delayQ.tasks := (DelayQueue.mem_remove.mp member).2
    refine timely.goes enabled ⟨le_refl _, rfl, fun _ _ found => found, fun _ member => member, removed⟩ rfl rfl
      (fun other mine => .inr (Option.some.inj mine ▸ free)) ?_ rfl
    rintro ⟨timerID, time⟩ member named
    exact only _ (mem_pending.mpr ((mem_pending.mp member).imp_right (removed _))) named
  | park i again task => exact timely.park orderly enabled
  | complete i task => exact timely.complete enabled
  | cancel taskID => exact timely.begin (calms_forget rfl rfl rfl) rfl rfl trivial rfl
  | dequeue i timerID =>
    refine timely.goes enabled ?_ rfl rfl (fun other mine => by cases mine) trivial rfl
    dsimp only [next, goto]
    split
    · exact .same (le_refl _) rfl rfl rfl rfl
    · exact ⟨le_refl _, rfl, fun _ _ found => found, fun _ member => member,
        fun _ member => (DelayQueue.mem_remove.mp member).2⟩
  | forget taskID => exact timely.frame (calms_forget rfl rfl rfl) rfl timely.submissions
  | tick => exact timely.tick orderly
  | fire i timerID => exact timely.fire enabled
  | promote records => exact timely.begin (.same (le_refl _) rfl rfl rfl rfl) rfl rfl (le_refl _) rfl
  | takeUp i now rec records =>
    obtain ⟨_, found, rfl⟩ := at_iff.mp enabled
    have past : now ≤ s.now := timely.steady i _ found
    dsimp only [next, takeUp]
    split
    · exact timely.goes enabled (.same (le_refl _) rfl rfl rfl rfl) rfl rfl (fun other mine => by cases mine) past rfl
    · next takes =>
      obtain ⟨free, only, own, honors⟩ := orderly.resolve_left takes
      refine timely.remember enabled rfl free only own rfl rfl rfl rfl (fun other mine => (Option.some.inj mine).symm)
        (fun _ held => ⟨past, honors, fun taskID named => ?_⟩) rfl
      exact Option.some.inj (named.symm.trans held)
  | launch i now rec records => exact timely.launch enabled
  | promoted i now =>
    exact timely.goes enabled (.same (le_refl _) rfl rfl rfl rfl) rfl rfl (fun other mine => by cases mine) trivial rfl

theorem timely_start (acc : Accessor T) (queue : Bool) (hotWindow : Int) : Timely acc (start queue hotWindow) where
  due _ _ bound := by cases bound
  steady _ _ found := by simp [start] at found
  apart _ _ found := by simp [start] at found
  submissions _ member := by cases member

/-- Nothing fires before the due time of the last completed `Add` or `Reschedule` of its task, if the calls and
promotions are orderly. -/
theorem never_early [DecidableEq T] (acc : Accessor T) (queue : Bool) (hotWindow : Int) (actions : List (Action T))
    (s : EngineCalls T) (ran : (machine acc).run (start queue hotWindow) actions = some s)
    (orderly : (machine acc).Meets (Orderly acc) (start queue hotWindow) actions) :
    ∀ submission ∈ s.submissions, ∀ ms, submission.promised = some ms → unixMilli ms ≤ submission.time := by
  have timely : Timely acc s :=
    Machine.run_keeps_where (I := Timely acc) (fun _ _ known allowed enabled => timely_next known allowed enabled) ran orderly
      (timely_start acc queue hotWindow)
  exact timely.submissions

def fired : List (Action Engine.Plain) :=
  added ++
    [.call true ⟨7, 10, 5000, 1⟩, .stored 1 true ⟨7, 10, 5000, 1⟩ true, .remember 1 true ⟨7, 10, 5000, 1⟩,
      .enqueue 1 true ⟨7, 10, 5000, 1⟩, .complete 1 ⟨7, 10, 5000, 1⟩, .call true ⟨7, 10, 2000, 1⟩,
      .stored 2 true ⟨7, 10, 2000, 1⟩ true, .remember 2 true ⟨7, 10, 2000, 1⟩, .enqueue 2 true ⟨7, 10, 2000, 1⟩,
      .complete 2 ⟨7, 10, 2000, 1⟩, .clock 2000000000, .tick, .fire 0 10]

theorem never_early_added :
    ((machine Engine.plain).after (start false 0) fired).submissions.length = 1 ∧
      ∀ submission ∈ ((machine Engine.plain).after (start false 0) fired).submissions,
        ∀ ms, submission.promised = some ms → unixMilli ms ≤ submission.time :=
  ⟨by decide +kernel, never_early Engine.plain false 0 fired _ (Machine.run_after (by decide +kernel)) (by decide +kernel)⟩

/-- A timer due after a second expires and its callback is launched. Before it runs, a `Reschedule` to five seconds
completes; the callback then fires the rescheduled task at once. -/
theorem stale_callback :
    ∃ s, (machine Engine.plain).run (start false 0)
        (added ++ [.clock 1000000000, .tick, .call true ⟨7, 10, 5000, 1⟩, .stored 1 true ⟨7, 10, 5000, 1⟩ true,
          .remember 1 true ⟨7, 10, 5000, 1⟩, .enqueue 1 true ⟨7, 10, 5000, 1⟩, .complete 1 ⟨7, 10, 5000, 1⟩, .fire 0 10]) = some s ∧
      ∃ submission ∈ s.submissions, submission.promised = some 5000 ∧ submission.task = ⟨7, 10, 5000, 1⟩ ∧
        submission.time < unixMilli 5000 := by
  refine ⟨_, Machine.run_after (by decide +kernel), ?_⟩
  decide +kernel

end EngineCalls

end Skygo.Timer
