import Skygo.Timer.EngineCalls

/-! What `Add` and `Reschedule` leave of a timer when nothing runs beside them.

Both store the task and then either schedule it or, outside the hot window, keep only its timer.
They differ in the second case: `Reschedule` takes the timer out of the delay queue and out of
memory, `Add` leaves both as they were.
-/

set_option autoImplicit false

namespace Skygo.Timer

open Semantics

variable {T : Type}

namespace Engine

/-- The timer is due when the task is and carries it, or is nowhere when that is outside the hot window. -/
def Scheduled (acc : Accessor T) (e : Engine T) (now : Int) (task : T) : Prop :=
  if e.inHotWindow now (acc.dueTimeMs task) then
    e.delayQ.deadlines (acc.timerID task) = some (unixMilli (acc.dueTimeMs task)) ∧
      e.inMem (acc.timerID task) = some task
  else e.delayQ.deadlines (acc.timerID task) = none ∧ e.inMem (acc.timerID task) = none

def Unscheduled (e : Engine T) (timerID : Nat) : Prop :=
  e.delayQ.deadlines timerID = none ∧ e.inMem timerID = none

variable {acc : Accessor T} {e : Engine T} {now : Int} {stored : Bool} {task : T}

theorem scheduled_hot {e' : Engine T} (hot : e'.inHotWindow now (acc.dueTimeMs task) = true) :
    e'.Scheduled acc now task ↔
      e'.delayQ.deadlines (acc.timerID task) = some (unixMilli (acc.dueTimeMs task)) ∧
        e'.inMem (acc.timerID task) = some task := by
  rw [Scheduled, if_pos hot]

theorem scheduled_cold {e' : Engine T} (cold : e'.inHotWindow now (acc.dueTimeMs task) = false) :
    e'.Scheduled acc now task ↔ e'.Unscheduled (acc.timerID task) := by
  rw [Scheduled, if_neg (by simp [cold]), Unscheduled]

theorem scheduled_reschedule (accepted : (e.queue && !stored) = false) :
    (e.reschedule acc now stored task).Scheduled acc now task := by
  unfold reschedule
  rw [if_neg (by simp [accepted])]
  split
  · next hot =>
    refine (scheduled_hot ?_).mpr ⟨?_, Function.update_self ..⟩
    · exact hot
    · exact congrFun DelayQueue.deadlines_schedule _ |>.trans (Function.update_self ..)
  · next cold =>
    rw [Bool.not_eq_true] at cold
    refine (scheduled_cold ?_).mpr ⟨?_, Function.update_self ..⟩
    · exact cold
    · exact congrFun DelayQueue.deadlines_remove _ |>.trans (Function.update_self ..)

/-- `Add` outside the window touches neither the queue nor the task in memory. -/
theorem scheduled_add (accepted : (e.queue && !stored) = false) :
    (e.add acc now stored task).Scheduled acc now task ↔
      (e.inHotWindow now (acc.dueTimeMs task) = false → e.Unscheduled (acc.timerID task)) := by
  unfold add
  rw [if_neg (by simp [accepted])]
  split
  · next hot =>
    refine iff_of_true ((scheduled_hot ?_).mpr ⟨?_, Function.update_self ..⟩) fun cold => by simp [hot] at cold
    · exact hot
    · exact congrFun DelayQueue.deadlines_schedule _ |>.trans (Function.update_self ..)
  · next cold =>
    rw [Bool.not_eq_true] at cold
    exact (scheduled_cold cold).trans ⟨fun absent _ => absent, fun absent => absent cold⟩

end Engine

namespace EngineCalls

variable [DecidableEq T]

/-- An `Add` or `Reschedule` that nothing interrupts, from whatever state, ends. When the store took the task a
`Reschedule` leaves it scheduled, and an `Add` does exactly if it does not find the timer of a task outside the
window in the delay queue or in memory. When the store failed nothing of the schedule changes. -/
theorem establishes_schedule (acc : Accessor T) (s : EngineCalls T) (again ok : Bool) (task : T) :
    ∃ t, (machine acc).run s (s.whole acc again ok task) = some t ∧
      ((s.engine.queue && !ok) = false →
        (t.engine.Scheduled acc s.now task ↔
          (again = false → s.engine.inHotWindow s.now (acc.dueTimeMs task) = false →
            s.engine.Unscheduled (acc.timerID task)))) ∧
      ((s.engine.queue && !ok) = true →
        t.engine.inMem = s.engine.inMem ∧ t.engine.byTask = s.engine.byTask ∧ t.engine.delayQ = s.engine.delayQ) := by
  have engine : ((machine acc).run s (s.whole acc again ok task)).map EngineCalls.engine = _ := engine_whole again ok task
  obtain ⟨t, run, whole⟩ := Option.map_eq_some_iff.mp engine
  refine ⟨t, run, fun accepted => ?_, fun refused => ?_⟩
  · rw [whole]
    cases again with
    | false => simpa using Engine.scheduled_add accepted
    | true => simpa using Engine.scheduled_reschedule accepted
  · have same : t.engine = s.engine := by
      rw [whole]
      cases again with
      | false => exact if_pos refused
      | true => exact if_pos refused
    rw [same]
    exact ⟨rfl, rfl, rfl⟩

/-- A task due in a minute is added, and added again for the next hour: the store has the new due time, and the
engine still holds the old task under the old one. -/
theorem add_keeps_old_schedule :
    ∃ s t, (machine Engine.plain).run (start true defaultHotWindow)
        ((start true defaultHotWindow).whole Engine.plain false true ⟨7, 70, 60000, 1⟩) = some s ∧
      (machine Engine.plain).run s (s.whole Engine.plain false true ⟨7, 70, 3600000, 1⟩) = some t ∧
      t.engine.inHotWindow s.now 3600000 = false ∧
      t.engine.delayQ.deadlines 70 = some 60000000000 ∧ t.engine.inMem 70 = some ⟨7, 70, 60000, 1⟩ :=
  ⟨_, _, Machine.run_after (by decide +kernel), Machine.run_after (by decide +kernel), by decide +kernel,
    by decide +kernel, by decide +kernel⟩

end EngineCalls

end Skygo.Timer
