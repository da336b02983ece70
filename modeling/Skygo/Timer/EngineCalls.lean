import Skygo.Timer.DelayQueueSound
import Skygo.Timer.Engine

/-! The engine's operations as their critical sections, in any interleaving.

The maps are changed under the engine's mutex and the delay queue under its own, so between two
sections of one operation any other operation may run. An `Add` or `Reschedule` asks the store, reads
the clock, and then has one section of each kind; a promotion has them for each of its records. The
callbacks of the delay queue are goroutines that run later.
-/

set_option autoImplicit false

namespace Skygo.Timer

open Semantics

variable {T : Type}

/-- A task outside the hot window: only the timer of the task is kept. `again` tells `Reschedule` from `Add`. -/
def Engine.park (acc : Accessor T) (e : Engine T) (again : Bool) (task : T) : Engine T :=
  { e with
    inMem := if again then Function.update e.inMem (acc.timerID task) none else e.inMem
    byTask := Function.update e.byTask (acc.taskID task) (some (acc.timerID task)) }

def Engine.enqueue (acc : Accessor T) (e : Engine T) (again : Bool) (task : T) : Engine T :=
  { e with
    delayQ :=
      if again then e.delayQ.reschedule (acc.timerID task) (unixMilli (acc.dueTimeMs task))
      else e.delayQ.add (acc.timerID task) (unixMilli (acc.dueTimeMs task)) }

def Engine.dequeue (e : Engine T) (timerID : Nat) : Engine T := { e with delayQ := e.delayQ.remove timerID }

inductive EngineOp (T : Type) where
  | storing (again : Bool) (task : T)
  | remembering (again : Bool) (task : T)
  | enqueuing (again : Bool) (task : T)
  | unqueuing (task : T)
  | parking (again : Bool) (task : T)
  | completing (task : T)
  | dequeuing (timerID : Nat)
  /-- The time that `promoteRecords` read, and the records it has yet to look at. -/
  | promoting (now : Int) (records : List T)
  | launching (now : Int) (rec : T) (records : List T)
  | returned
  deriving DecidableEq

/-- A fire: when it was, and the due time of the last `Add` or `Reschedule` of the task that had completed. -/
structure Submission (T : Type) where
  timerID : Nat
  task : T
  time : Int
  promised : Option Int

structure EngineCalls (T : Type) where
  engine : Engine T
  now : Int := 0
  /-- What the generator has given. -/
  generated : List Nat := []
  /-- What `EnsureTimerID` has returned. -/
  ensured : List (Int × Nat) := []
  ops : List (EngineOp T) := []
  promised : Int → Option Int := fun _ => none
  submissions : List (Submission T) := []

namespace EngineCalls

def start (queue : Bool) (hotWindow : Int) : EngineCalls T := { engine := Engine.new queue hotWindow }

def goto (s : EngineCalls T) (i : Nat) (op : EngineOp T) : EngineCalls T :=
  { s with ops := s.ops.modify i fun _ => op }

inductive Action (T : Type) where
  | clock (now : Int)
  | setDedupWindow (d : Int)
  | ensureTimerID (taskID : Int) (timerID : Nat)
  -- `Add` and `Reschedule`
  | call (again : Bool) (task : T)
  | stored (i : Nat) (again : Bool) (task : T) (ok : Bool)
  | remember (i : Nat) (again : Bool) (task : T)
  | enqueue (i : Nat) (again : Bool) (task : T)
  | unqueue (i : Nat) (task : T)
  | park (i : Nat) (again : Bool) (task : T)
  | complete (i : Nat) (task : T)
  -- `Cancel` and `Forget`
  | cancel (taskID : Int)
  | dequeue (i timerID : Nat)
  | forget (taskID : Int)
  -- the delay queue and its callbacks
  | tick
  | fire (i timerID : Nat)
  -- `promoteRecords`
  | promote (records : List T)
  | takeUp (i : Nat) (now : Int) (rec : T) (records : List T)
  | launch (i : Nat) (now : Int) (rec : T) (records : List T)
  | promoted (i : Nat) (now : Int)

section Machine

variable (acc : Accessor T)

def OpAt (s : EngineCalls T) (i : Nat) (op : EngineOp T) : Prop := At s.ops i fun current => current = op

instance [DecidableEq T] (s : EngineCalls T) (i : Nat) (op : EngineOp T) : Decidable (s.OpAt i op) := by
  unfold OpAt; infer_instance

def Enabled (s : EngineCalls T) : Action T → Prop
  | .clock now => s.now ≤ now
  | .setDedupWindow _ => True
  | .ensureTimerID taskID timerID =>
      -- a timer that is known is returned again; otherwise the generator gives an identifier that it has not given
      let known := (s.engine.byTask taskID).getD 0
      (known = 0 → timerID ≠ 0 ∧ timerID ∉ s.generated) ∧ (known ≠ 0 → timerID = known)
  | .call _ _ => True
  | .stored i again task _ => s.OpAt i (.storing again task)
  | .remember i again task => s.OpAt i (.remembering again task)
  | .enqueue i again task => s.OpAt i (.enqueuing again task)
  | .unqueue i task => s.OpAt i (.unqueuing task)
  | .park i again task => s.OpAt i (.parking again task)
  | .complete i task => s.OpAt i (.completing task)
  | .cancel _ => True
  | .dequeue i timerID => s.OpAt i (.dequeuing timerID)
  | .forget _ => True
  | .tick => True
  | .fire i timerID => s.engine.fires[i]? = some timerID
  | .promote _ => s.engine.queue = true
  | .takeUp i now rec records => s.OpAt i (.promoting now (rec :: records))
  | .launch i now rec records => s.OpAt i (.launching now rec records)
  | .promoted i now => s.OpAt i (.promoting now [])

/-- The callback of a timer runs: its task is taken out of the maps and submitted. -/
def fire (s : EngineCalls T) (i timerID : Nat) : EngineCalls T :=
  let engine := { s.engine with fires := s.engine.fires.eraseIdx i }
  match s.engine.inMem timerID with
  | none => { s with engine := engine }
  | some task =>
      { s with
        engine := engine.onDelayTimerFire acc timerID
        submissions := s.submissions ++ [⟨timerID, task, s.now, s.promised (acc.taskID task)⟩] }

def takeUp (s : EngineCalls T) (i : Nat) (now : Int) (rec : T) (records : List T) : EngineCalls T :=
  if acc.timerID rec = 0 ∨ (s.engine.byTask (acc.taskID rec)).isSome = true then s.goto i (.promoting now records)
  else { s with engine := s.engine.remember acc rec }.goto i (.launching now rec records)

def launch (s : EngineCalls T) (i : Nat) (now : Int) (rec : T) (records : List T) : EngineCalls T :=
  if unixMilli (acc.dueTimeMs rec) < now then
    { s with engine := { s.engine with fires := s.engine.fires ++ [acc.timerID rec] } }.goto i (.promoting now records)
  else { s with engine := s.engine.enqueue acc false rec }.goto i (.promoting now records)

def next (s : EngineCalls T) : Action T → EngineCalls T
  | .clock now => { s with now := now }
  | .setDedupWindow d => { s with engine := { s.engine with delayQ := s.engine.delayQ.setDedupWindow d } }
  | .ensureTimerID taskID timerID =>
      { s with
        generated := if (s.engine.byTask taskID).getD 0 = 0 then timerID :: s.generated else s.generated
        ensured := s.ensured ++ [(taskID, timerID)] }
  | .call again task => { s with ops := s.ops ++ [.storing again task] }
  | .stored i again task ok =>
      if s.engine.queue && !ok then s.goto i .returned
      else if s.engine.inHotWindow s.now (acc.dueTimeMs task) then s.goto i (.remembering again task)
      else if again then s.goto i (.unqueuing task)
      else s.goto i (.parking again task)
  | .remember i again task => { s with engine := s.engine.remember acc task }.goto i (.enqueuing again task)
  | .enqueue i again task => { s with engine := s.engine.enqueue acc again task }.goto i (.completing task)
  | .unqueue i task => { s with engine := s.engine.dequeue (acc.timerID task) }.goto i (.parking true task)
  | .park i again task => { s with engine := s.engine.park acc again task }.goto i (.completing task)
  | .complete i task =>
      { s with promised := Function.update s.promised (acc.taskID task) (some (acc.dueTimeMs task)) }.goto i .returned
  | .cancel taskID =>
      { s with engine := s.engine.forget taskID, ops := s.ops ++ [.dequeuing (s.engine.forgetTask taskID).2] }
  | .dequeue i timerID =>
      { s with engine := if timerID = 0 then s.engine else s.engine.dequeue timerID }.goto i .returned
  | .forget taskID => { s with engine := s.engine.forget taskID }
  | .tick => { s with engine := s.engine.tick s.now }
  | .fire i timerID => s.fire acc i timerID
  | .promote records => { s with ops := s.ops ++ [.promoting s.now records] }
  | .takeUp i now rec records => s.takeUp acc i now rec records
  | .launch i now rec records => s.launch acc i now rec records
  | .promoted i _ => s.goto i .returned

def machine [DecidableEq T] : Machine (EngineCalls T) (Action T) where
  Enabled := Enabled
  next := next acc
  decideEnabled s a := by cases a <;> unfold Enabled <;> infer_instance

end Machine

variable {acc : Accessor T} {s : EngineCalls T} {i : Nat}

def whole (acc : Accessor T) (s : EngineCalls T) (again ok : Bool) (task : T) : List (Action T) :=
  let i := s.ops.length
  let rest :=
    if s.engine.queue && !ok then []
    else if s.engine.inHotWindow s.now (acc.dueTimeMs task) then
      [.remember i again task, .enqueue i again task, .complete i task]
    else if again then [.unqueue i task, .park i true task, .complete i task]
    else [.park i false task, .complete i task]
  .call again task :: .stored i again task ok :: rest

theorem engine_whole [DecidableEq T] (again ok : Bool) (task : T) :
    ((machine acc).run s (s.whole acc again ok task)).map EngineCalls.engine =
      some (if again then s.engine.reschedule acc s.now ok task else s.engine.add acc s.now ok task) := by
  -- the store refused, or the window decides between the two pairs of sections
  cases failed : (s.engine.queue && !ok) <;> cases hot : s.engine.inHotWindow s.now (acc.dueTimeMs task) <;> cases again <;>
    simp [whole, Machine.run, machine, Enabled, next, goto, OpAt, at_last, modify_last, failed, hot, Engine.reschedule,
      Engine.add, Engine.remember, Engine.enqueue, Engine.park, Engine.dequeue]

attribute [grind] start goto OpAt Enabled fire takeUp launch next whole

end EngineCalls

/-- The maps agree: every task in memory is under the timer that is recorded for it. -/
structure Engine.Consistent (acc : Accessor T) (e : Engine T) : Prop where
  known : ∀ timerID task, e.inMem timerID = some task → e.byTask (acc.taskID task) = some timerID
  nonzero : e.inMem 0 = none

def Engine.otherTimer (acc : Accessor T) (e : Engine T) (task : T) : Bool :=
  (e.byTask (acc.taskID task)).any fun known =>
    known != acc.timerID task && (e.inMem known).any fun other => acc.taskID other == acc.taskID task

namespace Engine

variable {acc : Accessor T} {e : Engine T} {task : T} {timerID : Nat} {taskID : Int}

section

variable (consistent : e.Consistent acc) (sole : e.otherTimer acc task = false)
include consistent sole

theorem Consistent.only {other : T}
    (found : e.inMem timerID = some other) (same : acc.taskID other = acc.taskID task) : timerID = acc.timerID task := by
  have recorded := consistent.known timerID other found
  rw [same] at recorded
  simpa [otherTimer, recorded, found, same] using sole

theorem Consistent.remember (nonzero : acc.timerID task ≠ 0) : (e.remember acc task).Consistent acc where
  known timerID other found := by
    simp only [Engine.remember, Function.update_apply] at found ⊢
    split at found
    · next here =>
      cases found
      simp [here]
    · next apart =>
      split
      · next same => exact absurd (consistent.only sole found same) apart
      · exact consistent.known timerID other found
  nonzero := by
    show Function.update e.inMem (acc.timerID task) (some task) 0 = none
    rw [Function.update_of_ne (Ne.symm nonzero)]
    exact consistent.nonzero

theorem Consistent.park (again : Bool) : (e.park acc again task).Consistent acc := by
  have before (timerID : Nat) (other : T) (found : (e.park acc again task).inMem timerID = some other) :
      e.inMem timerID = some other := by
    unfold Engine.park at found
    cases again with
    | false => exact found
    | true =>
      simp only [if_true, Function.update_apply] at found
      split at found
      · cases found
      · exact found
  refine ⟨fun timerID other found => ?_, ?_⟩
  · have was := before timerID other found
    simp only [Engine.park, Function.update_apply]
    split
    · next same => rw [consistent.only sole was same]
    · exact consistent.known timerID other was
  · cases found : (e.park acc again task).inMem 0 with
    | none => rfl
    | some other =>
      have was := before 0 other found
      rw [consistent.nonzero] at was
      cases was

end

theorem Consistent.forget (consistent : e.Consistent acc) (taskID : Int) :
    (e.forget taskID).Consistent acc ∧ ∀ timerID task, (e.forget taskID).inMem timerID = some task → acc.taskID task ≠ taskID := by
  have kept (timerID : Nat) (task : T) (found : (e.forget taskID).inMem timerID = some task) :
      e.inMem timerID = some task ∧ acc.taskID task ≠ taskID := by
    simp only [Engine.forget, Engine.forgetTask] at found
    split at found
    · next zero =>
      refine ⟨found, fun same => ?_⟩
      have recorded := consistent.known timerID task found
      rw [same] at recorded
      rw [recorded, Option.getD_some] at zero
      subst zero
      rw [consistent.nonzero] at found
      cases found
    · simp only [Function.update_apply] at found
      split at found
      · cases found
      · next apart =>
        refine ⟨found, fun same => apart ?_⟩
        have recorded := consistent.known timerID task found
        rw [same] at recorded
        rw [recorded, Option.getD_some]
  have recorded (other : Int) (apart : other ≠ taskID) : (e.forget taskID).byTask other = e.byTask other := by
    simp only [Engine.forget, Engine.forgetTask]
    split <;> exact Function.update_of_ne apart _ _
  refine ⟨⟨fun timerID task found => ?_, ?_⟩, fun timerID task found => (kept timerID task found).2⟩
  · obtain ⟨was, apart⟩ := kept timerID task found
    rw [recorded _ apart]
    exact consistent.known timerID task was
  · cases found : (e.forget taskID).inMem 0 with
    | none => rfl
    | some task =>
      have was := (kept 0 task found).1
      rw [consistent.nonzero] at was
      cases was

theorem Consistent.onDelayTimerFire (consistent : e.Consistent acc) (timerID : Nat) :
    (e.onDelayTimerFire acc timerID).Consistent acc := by
  unfold Engine.onDelayTimerFire
  split
  · exact consistent
  · next task fired =>
    refine ⟨fun other there found => ?_, ?_⟩
    · simp only [Function.update_apply] at found ⊢
      split at found
      · cases found
      · next apart =>
        have recorded := consistent.known other there found
        split
        · next same =>
          -- a second timer of the task would be recorded for it as well
          have fired := consistent.known timerID task fired
          rw [same, fired, Option.some.injEq] at recorded
          exact absurd recorded.symm apart
        · exact recorded
    · simp only [Function.update_apply]
      split
      · rfl
      · exact consistent.nonzero

end Engine

namespace EngineCalls

variable {acc : Accessor T} {s : EngineCalls T}

def task? : EngineOp T → Option T
  | .storing _ task | .remembering _ task | .enqueuing _ task | .unqueuing task | .parking _ task | .completing task => some task
  | _ => none

/-- The caller uses an identifier that `EnsureTimerID` returned for the task, and no section records a timer for a task
that has another one in memory. -/
def SoleTimers (acc : Accessor T) (s : EngineCalls T) : Action T → Prop
  | .call _ task => (acc.taskID task, acc.timerID task) ∈ s.ensured
  | .remember _ _ task | .park _ _ task => s.engine.otherTimer acc task = false
  | _ => True

instance (acc : Accessor T) (s : EngineCalls T) (a : Action T) : Decidable (s.SoleTimers acc a) := by
  cases a <;> unfold SoleTimers <;> infer_instance

structure Mapped (acc : Accessor T) (s : EngineCalls T) : Prop where
  consistent : s.engine.Consistent acc
  ensured : ∀ pair ∈ s.ensured, pair.2 ≠ 0
  ops : ∀ (i : Nat) (op : EngineOp T), s.ops[i]? = some op → ∀ task, task? op = some task → acc.timerID task ≠ 0

variable {s' : EngineCalls T} {op : EngineOp T}

section

variable (mapped : Mapped acc s) (consistent : s'.engine.Consistent acc) (ensured : s'.ensured = s.ensured)
include mapped consistent ensured

theorem Mapped.step {i : Nat}
    (ops : s'.ops = s.ops.modify i fun _ => op) (names : ∀ task, task? op = some task → acc.timerID task ≠ 0) :
    Mapped acc s' where
  consistent := consistent
  ensured := ensured ▸ mapped.ensured
  ops := by
    rw [ops]
    exact forall_modify (fun _ _ => names) fun j other _ found => mapped.ops j other found

theorem Mapped.frame (ops : s'.ops = s.ops) : Mapped acc s' :=
  ⟨consistent, ensured ▸ mapped.ensured, ops ▸ mapped.ops⟩

theorem Mapped.begin (ops : s'.ops = s.ops ++ [op])
    (names : ∀ task, task? op = some task → acc.timerID task ≠ 0) : Mapped acc s' where
  consistent := consistent
  ensured := ensured ▸ mapped.ensured
  ops := by
    rw [ops]
    intro i other found
    rcases lookup_append found with old | ⟨-, rfl⟩
    · exact mapped.ops i other old
    · exact names

end

theorem Mapped.names (mapped : Mapped acc s) {i : Nat} {task : T} (here : s.OpAt i op)
    (names : task? op = some task) : acc.timerID task ≠ 0 := by
  obtain ⟨current, found, rfl⟩ := at_iff.mp here
  exact mapped.ops i current found task names

theorem mapped_next {a : Action T} (mapped : Mapped acc s) (sole : s.SoleTimers acc a) (enabled : s.Enabled a) :
    Mapped acc (s.next acc a) := by
  have same := mapped.consistent
  -- the maps alone decide whether an engine is consistent
  have only {e : Engine T} (inMem : e.inMem = s.engine.inMem) (byTask : e.byTask = s.engine.byTask) : e.Consistent acc :=
    ⟨by rw [inMem, byTask]; exact same.known, by rw [inMem]; exact same.nonzero⟩
  cases a with
  | clock now => exact mapped.frame same rfl rfl
  | setDedupWindow d => exact mapped.frame (only rfl rfl) rfl rfl
  | ensureTimerID taskID timerID =>
    refine ⟨same, fun pair member => ?_, mapped.ops⟩
    rcases List.mem_append.mp member with old | new
    · exact mapped.ensured pair old
    · rw [List.mem_singleton.mp new]
      obtain ⟨fresh, again⟩ := enabled
      by_cases known : (s.engine.byTask taskID).getD 0 = 0
      · exact (fresh known).1
      · exact (again known).symm ▸ known
  | call again task =>
    refine mapped.begin same rfl rfl fun other named => ?_
    cases named
    exact mapped.ensured _ sole
  | stored i again task ok =>
    have nonzero := mapped.names enabled rfl
    have goes (op : EngineOp T) (named : ∀ other, task? op = some other → other = task) : Mapped acc (s.goto i op) :=
      mapped.step same rfl rfl fun other this => named other this ▸ nonzero
    dsimp only [next]
    split
    · exact goes _ nofun
    · split
      · exact goes _ fun other named => (Option.some.inj named).symm
      · split <;> exact goes _ fun other named => (Option.some.inj named).symm
  | remember i again task =>
    have nonzero := mapped.names enabled rfl
    exact mapped.step (same.remember sole nonzero) rfl rfl fun other named => Option.some.inj named ▸ nonzero
  | enqueue i again task =>
    have nonzero := mapped.names enabled rfl
    exact mapped.step (only rfl rfl) rfl rfl fun other named => Option.some.inj named ▸ nonzero
  | unqueue i task =>
    have nonzero := mapped.names enabled rfl
    exact mapped.step (only rfl rfl) rfl rfl fun other named => Option.some.inj named ▸ nonzero
  | park i again task =>
    have nonzero := mapped.names enabled rfl
    exact mapped.step (same.park sole again) rfl rfl fun other named => Option.some.inj named ▸ nonzero
  | complete i task => exact mapped.step same rfl rfl nofun
  | cancel taskID => exact mapped.begin (same.forget taskID).1 rfl rfl nofun
  | dequeue i timerID =>
    refine mapped.step ?_ rfl rfl nofun
    show Engine.Consistent acc (if timerID = 0 then s.engine else s.engine.dequeue timerID)
    split
    · exact same
    · exact only rfl rfl
  | forget taskID => exact mapped.frame (same.forget taskID).1 rfl rfl
  | tick => exact mapped.frame (only rfl rfl) rfl rfl
  | fire i timerID =>
    dsimp only [next, fire]
    split
    · exact mapped.frame (only rfl rfl) rfl rfl
    · have rest : Engine.Consistent acc { s.engine with fires := s.engine.fires.eraseIdx i } := only rfl rfl
      exact mapped.frame (rest.onDelayTimerFire timerID) rfl rfl
  | promote records => exact mapped.begin same rfl rfl nofun
  | takeUp i now rec records =>
    dsimp only [next, takeUp]
    split
    · exact mapped.step same rfl rfl nofun
    · next takes =>
      simp only [not_or, Bool.not_eq_true, Option.isSome_eq_false_iff, Option.isNone_iff_eq_none] at takes
      have free : s.engine.otherTimer acc rec = false := by simp [Engine.otherTimer, takes.2]
      exact mapped.step (same.remember free takes.1) rfl rfl nofun
  | launch i now rec records =>
    dsimp only [next, launch]
    split
    · exact mapped.step (only rfl rfl) rfl rfl nofun
    · exact mapped.step (only rfl rfl) rfl rfl nofun
  | promoted i now => exact mapped.step same rfl rfl nofun

theorem mapped_start (acc : Accessor T) (queue : Bool) (hotWindow : Int) : Mapped acc (start queue hotWindow) where
  consistent := ⟨fun _ _ found => (nomatch found), rfl⟩
  ensured _ member := by cases member
  ops _ _ found := by simp [start] at found

/-- If no section records a timer for a task that has another one in memory, the maps agree: a task has one timer in
memory, a fire drops the record of no other timer, and a cancel takes out every timer of the task. -/
theorem maps_consistent [DecidableEq T] (acc : Accessor T) (queue : Bool) (hotWindow : Int) (actions : List (Action T))
    (s : EngineCalls T) (ran : (machine acc).run (start queue hotWindow) actions = some s)
    (sole : (machine acc).Meets (SoleTimers acc) (start queue hotWindow) actions) :
    (∀ timerID task, s.engine.inMem timerID = some task → s.engine.byTask (acc.taskID task) = some timerID) ∧
      (∀ timerID task other task', s.engine.inMem timerID = some task → s.engine.inMem other = some task' →
        acc.taskID task = acc.taskID task' → timerID = other) ∧
      (∀ timerID other task, other ≠ timerID → s.engine.inMem other = some task →
        (s.engine.onDelayTimerFire acc timerID).byTask (acc.taskID task) = some other) ∧
      ∀ taskID timerID task, (s.engine.forget taskID).inMem timerID = some task → acc.taskID task ≠ taskID := by
  have mapped : Mapped acc s :=
    Machine.run_keeps_where (I := Mapped acc) (fun _ _ known allowed enabled => mapped_next known allowed enabled) ran sole
      (mapped_start acc queue hotWindow)
  have consistent := mapped.consistent
  refine ⟨consistent.known, fun timerID task other task' found there same => ?_, fun timerID other task apart found => ?_,
    fun taskID timerID task found => (consistent.forget taskID).2 timerID task found⟩
  · have first := consistent.known timerID task found
    rw [same, consistent.known other task' there, Option.some.injEq] at first
    exact first.symm
  · have still : (s.engine.onDelayTimerFire acc timerID).inMem other = some task := by
      unfold Engine.onDelayTimerFire
      split
      · exact found
      · rw [← found]
        exact Function.update_of_ne apart _ _
    exact (consistent.onDelayTimerFire timerID).known other task still

def added : List (Action Engine.Plain) :=
  [.ensureTimerID 7 10, .call false ⟨7, 10, 1000, 1⟩, .stored 0 false ⟨7, 10, 1000, 1⟩ true,
    .remember 0 false ⟨7, 10, 1000, 1⟩, .enqueue 0 false ⟨7, 10, 1000, 1⟩, .complete 0 ⟨7, 10, 1000, 1⟩]

def shared : List (Action Engine.Plain) :=
  .ensureTimerID 8 11 :: .ensureTimerID 9 12 :: added ++
    [.call true ⟨7, 10, 5000, 1⟩, .call false ⟨8, 11, 2000, 1⟩, .call false ⟨9, 12, 3000, 1⟩,
      .stored 1 true ⟨7, 10, 5000, 1⟩ true, .stored 2 false ⟨8, 11, 2000, 1⟩ true, .stored 3 false ⟨9, 12, 3000, 1⟩ true,
      .remember 2 false ⟨8, 11, 2000, 1⟩, .remember 1 true ⟨7, 10, 5000, 1⟩, .ensureTimerID 7 10,
      .remember 3 false ⟨9, 12, 3000, 1⟩, .cancel 9, .enqueue 1 true ⟨7, 10, 5000, 1⟩, .enqueue 2 false ⟨8, 11, 2000, 1⟩,
      .dequeue 4 12, .complete 2 ⟨8, 11, 2000, 1⟩, .complete 1 ⟨7, 10, 5000, 1⟩]

theorem maps_consistent_added :
    ((machine Engine.plain).after (start false 0) shared).engine.byTask 7 = some 10 ∧
      ((machine Engine.plain).after (start false 0) shared).engine.inMem 11 = some ⟨8, 11, 2000, 1⟩ ∧
      (((machine Engine.plain).after (start false 0) shared).engine.onDelayTimerFire Engine.plain 11).byTask 7 = some 10 ∧
      ∀ timerID task, (((machine Engine.plain).after (start false 0) shared).engine.forget 8).inMem timerID = some task →
        Engine.plain.taskID task ≠ 8 := by
  obtain ⟨known, -, fires, forgets⟩ :=
    maps_consistent Engine.plain false 0 shared _ (Machine.run_after (by decide +kernel)) (by decide +kernel)
  have held : ((machine Engine.plain).after (start false 0) shared).engine.inMem 10 = some ⟨7, 10, 5000, 1⟩ := by
    decide +kernel
  exact ⟨known 10 _ held, by decide +kernel, fires 11 10 _ (by decide) held, forgets 8⟩

/-- `EnsureTimerID` records nothing, so two callers get two identifiers for one task, and both add it. -/
theorem two_timers :
    ∃ s, (machine Engine.plain).run (start false 0)
        (.ensureTimerID 7 10 :: .ensureTimerID 7 11 :: added.tail ++
          [.call false ⟨7, 11, 1000, 1⟩, .stored 1 false ⟨7, 11, 1000, 1⟩ true, .remember 1 false ⟨7, 11, 1000, 1⟩]) = some s ∧
      (7, 10) ∈ s.ensured ∧ (7, 11) ∈ s.ensured ∧ s.engine.inMem 10 = some ⟨7, 10, 1000, 1⟩ ∧ s.engine.byTask 7 = some 11 ∧
      (s.engine.forget 7).inMem 10 = some ⟨7, 10, 1000, 1⟩ := by
  refine ⟨_, Machine.run_after (by decide +kernel), ?_⟩
  decide +kernel

attribute [grind] SoleTimers

end EngineCalls

attribute [grind] Engine.park Engine.enqueue Engine.dequeue Engine.otherTimer

end Skygo.Timer
