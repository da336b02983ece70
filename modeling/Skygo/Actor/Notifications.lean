import Skygo.Actor.Disposal

/-! What becomes of a notification whose `Send` or `TrySend` returned nil.

`finishPending` completes the session of a discarded call, but a discarded
notification has none and is dropped without a report. The service keeps its
notifications in the runs in which no stop finds one queued or on its way.
-/

set_option autoImplicit false

attribute [-instance] instBooleanRingBool

namespace Skygo.Actor

open Semantics

variable {Msg : Type} {m : ServiceRuntime Msg} {id : Nat} {r : Request Msg}

def Request.Delivered (r : Request Msg) : Prop :=
  r.invocations = 1 ∨ (r.invocations = 0 ∧ r.reports.length = 1)

attribute [grind] Request.Delivered

theorem Request.Trail.counts {drainable : Bool} (trail : r.Trail drainable) :
    r.invocations ≤ 1 ∧ r.reports.length ≤ 1 := by
  cases here : r.pc <;> grind

theorem Request.Executed.delivered {drainable : Bool} (executed : r.Executed drainable)
    (silent : r.expectsResponse = false) : r.Delivered := by
  grind

namespace Runtime

open ServiceRuntime

/-- The action discards no notification: the loop observes the stop with none of them
queued, and receives none afterwards. -/
def Spares (m : ServiceRuntime Msg) : Action Msg → Prop
  | .observeStop => ∀ id ∈ m.ready, At m.requests id fun r => r.started = false → r.expectsResponse = true
  | .enqueue id => m.stopping = true → At m.requests id (·.expectsResponse = true)
  | _ => True

instance (m : ServiceRuntime Msg) (a : Action Msg) : Decidable (Spares m a) := by
  rcases a with _ | _ <;> dsimp only [Spares] <;> infer_instance

theorem next_discarding (m : ServiceRuntime Msg) (a : Action Msg) (id : Nat)
    (held : id ∈ (next m a).loop.discarding) :
    id ∈ m.loop.discarding ∨ (a = .enqueue id ∧ m.stopping = true) ∨
      (a = .observeStop ∧ id ∈ m.ready ∧ m.isStarted id = false) ∨
      (a = .schedule ∧ m.stopping = true ∧ id ∈ m.ready ∧ m.isStarted id = false) := by
  cases a with
  | track sent admitted | complete sent admitted => cases admitted <;> exact .inl held
  | schedule =>
    dsimp only [next] at held
    grind
  | observeStop =>
    simp only [next, LoopPc.discarding_resume, List.mem_filter, Bool.not_eq_true'] at held
    exact .inr (.inr (.inl ⟨rfl, held⟩))
  | finishPending won =>
    dsimp only [next, discardStep] at held
    grind [LoopPc.discarding_resume]
  | _ => grind

def Kept (m : ServiceRuntime Msg) : Prop :=
  m.Sound ∧ ∀ (id : Nat) (r : Request Msg), m.requests[id]? = some r → r.expectsResponse = false →
    r.discards = 0 ∧ id ∉ m.loop.discarding

theorem Kept.not_discarding (kept : Kept m) {a : Action Msg} (spares : Spares m a)
    (found : m.requests[id]? = some r) (silent : r.expectsResponse = false) :
    id ∉ (next m a).loop.discarding := by
  intro held
  rcases next_discarding m a id held with before | ⟨rfl, stopping⟩ | ⟨rfl, queued, fresh⟩ |
    ⟨rfl, stopping, queued, fresh⟩
  · exact (kept.2 id r found silent).2 before
  · have expects := At.here (spares stopping) found
    simp [silent] at expects
  · have expects := At.here (spares id queued) found
    have unstarted : r.started = false := by
      by_contra started
      have known := isStarted_iff.mpr ⟨r, found, by simpa using started⟩
      simp [fresh] at known
    simp [silent, unstarted] at expects
  · -- the stop branch left only started activations in `ready`
    simp [kept.1.settled stopping id queued] at fresh

theorem Sound.unheld (sound : m.Sound) (absent : m.requests[id]? = none) :
    id ∉ m.loop.discarding := by
  have outside : m.shares id = 0 := by
    by_contra held
    have known := sound.known id (by omega)
    rw [List.getElem?_eq_none_iff] at absent
    omega
  exact ((shares_eq_zero m id).mp outside).2.2.2

theorem kept_next (kept : Kept m) (a : Action Msg) (spares : Spares m a) (enabled : Enabled m a) :
    Kept (next m a) := by
  refine ⟨sound_next kept.1 a enabled, fun id r' after silent => ?_⟩
  cases found : m.requests[id]? with
  | none =>
    obtain ⟨_, _, _, _, _, _, rfl, rfl⟩ := next_fresh m a id r' after found
    refine ⟨rfl, fun held => ?_⟩
    have discarding := Sound.unheld kept.1 found
    exact discarding (by simpa [next] using held)
  | some r =>
    obtain ⟨r'', there, later⟩ := evolves_next m a id r found
    rw [after] at there
    cases there
    have notified : r.expectsResponse = false := later.expectsResponse ▸ silent
    obtain ⟨discards, spared⟩ := kept.2 id r found notified
    refine ⟨?_, kept.not_discarding spares found notified⟩
    cases a with
    | finishPending won =>
      have same := discardStep_other won spared
      rw [show (next m (.finishPending won)) = m.discardStep won from rfl, same, found] at after
      cases after
      exact discards
    | _ => exact (later.discards rfl).trans discards

theorem Sound.delivered (sound : m.Sound) (found : m.requests[id]? = some r) (received : r.Received)
    (silent : r.expectsResponse = false) (kept : r.discards = 0 ∧ id ∉ m.loop.discarding) :
    r.invocations ≤ 1 ∧ r.reports.length ≤ 1 ∧
      (m.current = some id ∨ id ∈ m.ready ∨ id ∈ m.suspended ∨ r.Delivered) := by
  have fits := sound.fits id r found
  have counts := fun live : r.Live m.drainable => live.trail.counts
  have settled := fun executed : r.Executed m.drainable => executed.delivered silent
  have outside := (LoopPc.place_eq_outside m.loop id).mpr kept.2
  clear sound
  cases placed : m.place id <;> rw [placed] at fits <;>
    grind [current_of_place, mem_of_place_ready, mem_of_place_suspended, loop_of_place]

/-- In a run that spares its notifications, one whose send returned nil is held by the
loop until its handler ran once or its loss was reported once, and never twice. -/
theorem notification_delivered {name : String} {opts : ServiceOptions} {drainable : Bool}
    {actions : List (Action Msg)}
    (ran : (machine Msg).run (ServiceRuntime.start name opts drainable) actions = some m)
    (spares : (machine Msg).Meets Spares (ServiceRuntime.start name opts drainable) actions)
    (found : m.requests[id]? = some r) (silent : r.expectsResponse = false) (received : r.Received) :
    r.invocations ≤ 1 ∧ r.reports.length ≤ 1 ∧
      (m.current = some id ∨ id ∈ m.ready ∨ id ∈ m.suspended ∨ r.Delivered) ∧
      (m.loop = .exited → r.Delivered) := by
  have fresh : Kept (ServiceRuntime.start name opts drainable : ServiceRuntime Msg) :=
    ⟨sound_start name opts drainable, fun id r found => by simp [start] at found⟩
  have kept : Kept m :=
    Machine.run_keeps_where (I := Kept) (fun _ a kept spares enabled => kept_next kept a spares enabled)
      ran spares fresh
  obtain ⟨invocations, reports, held⟩ :=
    Sound.delivered kept.1 found received silent (kept.2 id r found silent)
  refine ⟨invocations, reports, held, fun exited => ?_⟩
  obtain ⟨_, current, ready, suspended⟩ := kept.1.idle exited
  simpa [current, ready, suspended] using held

def stopWhenIdle : List (Action Unit) :=
  [.submit .background "inc" 0 false false, .track 0 true, .acquire 0, .schedule, .enqueue 0, .schedule,
    .receiveGrant 0, .invoke 0, .handlerReturned 0 0 (.message ()), .finishTracked 0, .report 0,
    .doneEvent 0, .schedule, .cancel, .observeStop, .exit]

theorem notification_delivered_idle :
    ∃ r, (soloRun stopWhenIdle).requests[0]? = some r ∧ r.expectsResponse = false ∧ r.Received ∧ r.Delivered := by
  have ran : (machine Unit).run (.start "counter" { noInterleave := true } false) stopWhenIdle =
      some (soloRun stopWhenIdle) := rfl
  have spares : (machine Unit).Meets Spares (.start "counter" { noInterleave := true } false)
      stopWhenIdle := by decide
  obtain ⟨r, found⟩ : ∃ r, (soloRun stopWhenIdle).requests[0]? = some r := ⟨_, rfl⟩
  have silent : r.expectsResponse = false := by
    cases found
    rfl
  have received : r.Received := by
    cases found
    rfl
  obtain ⟨_, _, _, delivered⟩ := notification_delivered ran spares found silent received
  exact ⟨r, found, silent, received, delivered rfl⟩

/-- A stop while a notification is queued: it was accepted, and the loop exits without
having run its handler or reported the loss. -/
theorem queued_notification_lost :
    (machine Unit).run (.start "counter" { noInterleave := true } false) stopWhileQueued =
      some (soloRun stopWhileQueued) ∧ (soloRun stopWhileQueued).loop = .exited ∧
    ∃ r, (soloRun stopWhileQueued).requests[1]? = some r ∧ r.expectsResponse = false ∧ r.Received ∧
      r.invocations = 0 ∧ r.reports = [] ∧ ¬r.Delivered := by
  refine ⟨rfl, rfl, _, rfl, rfl, rfl, rfl, rfl, ?_⟩
  rintro (once | ⟨_, reported⟩)
  · cases once
  · cases reported

end Runtime

end Skygo.Actor
