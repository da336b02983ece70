import Skygo.Semantics.Machine
import Skygo.Timer.DelayQueue

/-! The timer engine: tasks in memory, the delay queue and the promotion of stored records.

Times are nanoseconds and due times are milliseconds, as in the records. The store answers
through arguments: whether it took a task, and the records a load returned.
-/

set_option autoImplicit false

attribute [-instance] instBooleanRingBool

namespace Skygo.Timer

open Semantics

structure Accessor (T : Type) where
  taskID : T → Int
  timerID : T → Nat
  dueTimeMs : T → Int
  uid : T → Nat

def defaultHotWindow : Int := 30 * 60 * 1000000000

def unixMilli (ms : Int) : Int := ms * 1000000

structure Engine (T : Type) where
  hotWindow : Int
  /-- Whether there is a persistent queue. -/
  queue : Bool
  inMem : Nat → Option T := fun _ => none
  byTask : Int → Option Nat := fun _ => none
  delayQ : DelayQueue := {}
  /-- The goroutines that are about to run `onDelayTimerFire`. -/
  fires : List Nat := []
  /-- The tasks given to `fireSubmit`, or to `doFire` without it. -/
  submitted : List (Nat × T × Nat) := []

namespace Engine

variable {T : Type}

def new (queue : Bool) (hotWindow : Int) : Engine T where
  hotWindow := if hotWindow ≤ 0 then defaultHotWindow else hotWindow
  queue := queue

section Operations

variable (acc : Accessor T) (now : Int)

def inHotWindow (e : Engine T) (dueMs : Int) : Bool :=
  !e.queue || decide (since (unixMilli dueMs) now ≤ e.hotWindow)

def remember (e : Engine T) (task : T) : Engine T :=
  { e with
    inMem := Function.update e.inMem (acc.timerID task) (some task)
    byTask := Function.update e.byTask (acc.taskID task) (some (acc.timerID task)) }

/-- `stored` is the answer of the queue's own `Add`. -/
def add (e : Engine T) (stored : Bool) (task : T) : Engine T :=
  if e.queue && !stored then e
  else if e.inHotWindow now (acc.dueTimeMs task) then
    { e.remember acc task with
      delayQ := e.delayQ.add (acc.timerID task) (unixMilli (acc.dueTimeMs task)) }
  else { e with byTask := Function.update e.byTask (acc.taskID task) (some (acc.timerID task)) }

def reschedule (e : Engine T) (stored : Bool) (task : T) : Engine T :=
  if e.queue && !stored then e
  else if e.inHotWindow now (acc.dueTimeMs task) then
    { e.remember acc task with
      delayQ := e.delayQ.reschedule (acc.timerID task) (unixMilli (acc.dueTimeMs task)) }
  else
    { e with
      delayQ := e.delayQ.remove (acc.timerID task)
      inMem := Function.update e.inMem (acc.timerID task) none
      byTask := Function.update e.byTask (acc.taskID task) (some (acc.timerID task)) }

def forgetTask (e : Engine T) (taskID : Int) : Engine T × Nat :=
  let timerID := (e.byTask taskID).getD 0
  let e := { e with byTask := Function.update e.byTask taskID none }
  (if timerID = 0 then e else { e with inMem := Function.update e.inMem timerID none }, timerID)

def cancel (e : Engine T) (taskID : Int) : Engine T :=
  match e.forgetTask taskID with
  | (e, timerID) => if timerID = 0 then e else { e with delayQ := e.delayQ.remove timerID }

def forget (e : Engine T) (taskID : Int) : Engine T := (e.forgetTask taskID).1

def onDelayTimerFire (e : Engine T) (timerID : Nat) : Engine T :=
  match e.inMem timerID with
  | none => e
  | some task =>
      { e with
        inMem := Function.update e.inMem timerID none
        byTask := Function.update e.byTask (acc.taskID task) none
        submitted := e.submitted ++ [(timerID, task, acc.uid task)] }

def tick (e : Engine T) : Engine T :=
  { e with delayQ := (e.delayQ.checkExpired now).1, fires := e.fires ++ (e.delayQ.checkExpired now).2 }

def promoteRecord (e : Engine T) (rec : T) : Engine T × Bool :=
  if acc.timerID rec = 0 then (e, false)
  else if (e.byTask (acc.taskID rec)).isSome then (e, false)
  else if unixMilli (acc.dueTimeMs rec) < now then
    ({ e.remember acc rec with fires := e.fires ++ [acc.timerID rec] }, true)
  else
    ({ e.remember acc rec with
        delayQ := e.delayQ.add (acc.timerID rec) (unixMilli (acc.dueTimeMs rec)) }, true)

def promoteRecords (e : Engine T) : List T → Engine T × Nat
  | [] => (e, 0)
  | rec :: records =>
      match e.promoteRecord acc now rec with
      | (e, promoted) =>
          match promoteRecords e records with
          | (e, count) => (e, count + promoted.toNat)

end Operations

inductive Action (T : Type) where
  | add (now : Int) (stored : Bool) (task : T)
  | reschedule (now : Int) (stored : Bool) (task : T)
  | cancel (taskID : Int)
  | forget (taskID : Int)
  | tick (now : Int)
  | fire (i : Nat)
  | promote (now : Int) (records : List T)
  | setDedupWindow (d : Int)

/-- Whole operations, one after another. -/
def machine (acc : Accessor T) : Machine (Engine T) (Action T) where
  Enabled e
    | .fire i => i < e.fires.length
    | .promote _ _ => e.queue = true
    | _ => True
  next e
    | .add now stored task => e.add acc now stored task
    | .reschedule now stored task => e.reschedule acc now stored task
    | .cancel taskID => e.cancel taskID
    | .forget taskID => e.forget taskID
    | .tick now => e.tick now
    | .fire i => { e with fires := e.fires.eraseIdx i }.onDelayTimerFire acc (e.fires.getD i 0)
    | .promote now records => (e.promoteRecords acc now records).1
    | .setDedupWindow d => { e with delayQ := e.delayQ.setDedupWindow d }
  decideEnabled e a := by cases a <;> infer_instance

def Live (e : Engine T) (timerID : Nat) : Prop :=
  (e.inMem timerID).isSome = true ∧ (e.delayQ.Holds timerID ∨ timerID ∈ e.fires)

/-- Some record of the timer is the first of its task, and the task has no timer yet. -/
def TakesUp (acc : Accessor T) (e : Engine T) (records : List T) (timerID : Nat) : Prop :=
  ∃ seen rec rest, records = seen ++ rec :: rest ∧ acc.timerID rec = timerID ∧ timerID ≠ 0 ∧
    e.byTask (acc.taskID rec) = none ∧
    ∀ earlier ∈ seen, acc.timerID earlier ≠ 0 → acc.taskID earlier ≠ acc.taskID rec

variable {acc : Accessor T} {now : Int} {e : Engine T} {rec : T} {records : List T} {timerID : Nat}

theorem live_promoteRecord : (e.promoteRecord acc now rec).1.Live timerID ↔
    e.Live timerID ∨ (acc.timerID rec = timerID ∧ timerID ≠ 0 ∧ e.byTask (acc.taskID rec) = none) := by
  unfold promoteRecord
  split
  · grind
  · split
    · next known =>
      have some_ : e.byTask (acc.taskID rec) ≠ none := by
        intro absent
        simp [absent] at known
      grind
    · next nonzero absent =>
      rw [Option.not_isSome_iff_eq_none] at absent
      split
      · simp only [Live, remember, Function.update_apply, List.mem_append, List.mem_singleton]
        grind
      · simp only [Live, remember, Function.update_apply, DelayQueue.add, DelayQueue.holds_schedule]
        grind

theorem byTask_promoteRecord {taskID : Int} : (e.promoteRecord acc now rec).1.byTask taskID = none ↔
    e.byTask taskID = none ∧ (acc.timerID rec ≠ 0 → acc.taskID rec ≠ taskID) := by
  unfold promoteRecord remember
  simp only [Option.isSome_iff_ne_none]
  split_ifs <;> simp only [Function.update_apply] <;> grind

theorem takesUp_cons : TakesUp acc e (rec :: records) timerID ↔
    (acc.timerID rec = timerID ∧ timerID ≠ 0 ∧ e.byTask (acc.taskID rec) = none) ∨
      TakesUp acc (e.promoteRecord acc now rec).1 records timerID := by
  constructor
  · rintro ⟨seen, first, rest, split, names, nonzero, absent, unseen⟩
    cases seen with
    | nil =>
      cases split
      exact .inl ⟨names, nonzero, absent⟩
    | cons head seen =>
      cases split
      refine .inr ⟨seen, first, rest, rfl, names, nonzero, byTask_promoteRecord.mpr ⟨absent, ?_⟩, ?_⟩
      · exact unseen rec (List.mem_cons_self ..)
      · exact fun earlier member => unseen earlier (List.mem_cons_of_mem _ member)
  · rintro (⟨names, nonzero, absent⟩ | ⟨seen, first, rest, rfl, names, nonzero, absent, unseen⟩)
    · exact ⟨[], rec, records, rfl, names, nonzero, absent, fun _ member => (by cases member)⟩
    · obtain ⟨absent, other⟩ := byTask_promoteRecord.mp absent
      refine ⟨rec :: seen, first, rest, rfl, names, nonzero, absent, ?_⟩
      intro earlier member
      rcases List.mem_cons.mp member with rfl | member
      · exact other
      · exact unseen earlier member

theorem live_promoteRecords : (e.promoteRecords acc now records).1.Live timerID ↔
    e.Live timerID ∨ TakesUp acc e records timerID := by
  induction records generalizing e with
  | nil =>
    have none_ : ¬TakesUp acc e [] timerID := by
      rintro ⟨seen, first, rest, split, _⟩
      cases seen <;> cases split
    simp [promoteRecords, none_]
  | cons rec records ih =>
    rw [takesUp_cons, ← or_assoc, ← live_promoteRecord, ← ih]
    rfl

/-- A promotion leaves every record with a timer live if and only if each of their timers was live
before, or was taken up because its task had none. -/
theorem promotion_complete (acc : Accessor T) (e : Engine T) (now : Int) (records : List T) :
    (∀ rec ∈ records, acc.timerID rec ≠ 0 → (e.promoteRecords acc now records).1.Live (acc.timerID rec)) ↔
    ∀ rec ∈ records, acc.timerID rec ≠ 0 →
      e.Live (acc.timerID rec) ∨ TakesUp acc e records (acc.timerID rec) := by
  constructor
  · intro complete rec member nonzero
    exact live_promoteRecords.mp (complete rec member nonzero)
  · intro condition rec member nonzero
    exact live_promoteRecords.mpr (condition rec member nonzero)

structure Plain where
  task : Int
  timer : Nat
  due : Int
  user : Nat
  deriving DecidableEq

def plain : Accessor Plain := ⟨Plain.task, Plain.timer, Plain.due, Plain.user⟩

instance (e : Engine T) (timerID : Nat) : Decidable (e.Live timerID) :=
  inferInstanceAs (Decidable (_ ∧ ((∃ task ∈ _, _) ∨ _)))

/-- A task due in forty minutes is added, and loaded again after twenty: its due time has entered the
window of thirty minutes, and the promotion skips it. -/
theorem promotion_skips :
    ∃ e, (machine plain).run (new true defaultHotWindow)
        [.add 0 true ⟨7, 70, 2400000, 1⟩, .promote 1200000000000 [⟨7, 70, 2400000, 1⟩]] = some e ∧
      e.inHotWindow 1200000000000 2400000 = true ∧ ¬e.Live 70 :=
  ⟨_, Machine.run_after (by decide +kernel), by decide +kernel, by decide +kernel⟩

end Engine

end Skygo.Timer
