import Skygo.Actor.Exclusion

/-! Every envelope the loop receives is disposed of once, and its slot returned once. -/

set_option autoImplicit false

attribute [-instance] instBooleanRingBool

namespace Skygo.Actor

open Semantics

variable {Msg : Type} {m : ServiceRuntime Msg} {id : Nat} {r : Request Msg}

def Request.Received (r : Request Msg) : Prop := r.admission = .returned none

/-- `execute` ran once, to its `eventDone`. -/
def Request.ExecutedOnce (r : Request Msg) : Prop :=
  r.executions = 1 ∧ r.dones = 1 ∧ r.discards = 0

/-- `finishPending` ran once and `execute` never. -/
def Request.DiscardedOnce (r : Request Msg) : Prop :=
  r.executions = 0 ∧ r.invocations = 0 ∧ r.dones = 0 ∧ r.discards = 1

attribute [grind] Request.Received Request.ExecutedOnce Request.DiscardedOnce

structure ServiceRuntime.Accounted (m : ServiceRuntime Msg) : Prop where
  tokens : m.slots = m.requests.countP (·.slotHeld)
  bounded : m.slots ≤ m.capacity
  once : ∀ (id : Nat) (r : Request Msg), m.requests[id]? = some r → r.Received →
    r.executions ≤ 1 ∧ r.dones + r.discards ≤ 1 ∧ r.releases + r.slotHeld.toNat = 1
  closes : m.done = true → m.current = none ∧ m.ready = [] ∧ m.suspended = [] ∧
    ∀ (id : Nat) (r : Request Msg), m.requests[id]? = some r → r.started = true → r.dones = 1
  resumes : ∀ id depth,
    ¬Runtime.Enabled m (.resumeFailed id depth) ∧ ¬Runtime.Enabled m (.grantLost id depth)

namespace Request

variable {drainable : Bool} {place : Place}

theorem Fits.once (fits : r.Fits drainable place) (received : r.Received) :
    r.executions ≤ 1 ∧ r.dones + r.discards ≤ 1 ∧ r.releases + r.slotHeld.toNat = 1 := by
  cases place with
  | discarding stage => cases stage <;> grind
  | _ => grind

theorem Fits.disposed (fits : r.Fits drainable .outside) (received : r.Received) :
    (r.ExecutedOnce ∨ r.DiscardedOnce) ∧ r.releases = 1 ∧ r.slotHeld = false := by
  rcases fits with unsent | executed | discarded <;> grind

end Request

namespace Runtime

open ServiceRuntime

theorem Sound.place_exited (sound : m.Sound) (exited : m.loop = .exited) (id : Nat) :
    m.place id = .outside := by
  obtain ⟨_, current, ready, suspended⟩ := sound.idle exited
  simp [place, LoopPc.place, current, ready, suspended, exited]

theorem Sound.done_of_exited (sound : m.Sound) (exited : m.loop = .exited)
    (found : m.requests[id]? = some r) (started : r.started = true) : r.dones = 1 := by
  have fits := sound.fits id r found
  rw [Sound.place_exited sound exited id] at fits
  rcases fits with unsent | executed | discarded <;> grind

theorem Sound.accounted (sound : m.Sound) : m.Accounted where
  tokens := sound.tokens
  bounded := sound.bounded
  once id r found received := (sound.fits id r found).once received
  closes done := by
    have exited := sound.closed.mp done
    obtain ⟨_, current, ready, suspended⟩ := sound.idle exited
    exact ⟨current, ready, suspended, fun _ _ found started =>
      Sound.done_of_exited sound exited found started⟩
  resumes id depth := by
    refine ⟨fun enabled => ?_, fun enabled => ?_⟩ <;>
    · obtain ⟨⟨r, found, here⟩, done⟩ := And.imp_left at_iff.mp enabled
      rcases Sound.quiet sound done found with idle | ended
      · simp [here] at idle
      · simp [here] at ended

theorem reachable_capacity {name : String} {opts : ServiceOptions} {drainable : Bool}
    (reached : (machine Msg).Reachable (ServiceRuntime.start name opts drainable) m) :
    (m.capacity : Int) = opts.withDefaults.mailboxSize := by
  have positive := opts.withDefaults_settled.2.1
  rw [capacity, reachable_opts reached]
  omega

/-- Exactly-once disposal, from `Start` to the exit of the loop. -/
theorem exactly_once_disposal {name : String} {opts : ServiceOptions} {drainable : Bool}
    (reached : (machine Msg).Reachable (ServiceRuntime.start name opts drainable) m) :
    m.Accounted ∧ (m.slots : Int) ≤ opts.withDefaults.mailboxSize ∧
    (m.loop = .exited → ∀ (id : Nat) (r : Request Msg), m.requests[id]? = some r → r.Received →
      (r.ExecutedOnce ∨ r.DiscardedOnce) ∧ r.releases = 1 ∧ r.slotHeld = false) := by
  have sound := reachable_sound reached
  refine ⟨Sound.accounted sound, ?_, ?_⟩
  · rw [← reachable_capacity reached]
    exact Int.ofNat_le.mpr sound.bounded
  · intro exited id r found received
    have fits := sound.fits id r found
    rw [Sound.place_exited sound exited id] at fits
    exact fits.disposed received

def stopWhileQueued : List (Action Unit) :=
  twoQueued ++ [.cancel, .observeStop, .finishPending true, .finishPending true, .schedule,
    .handlerReturned 0 0 (.message ()), .finishTracked 0, .report 0, .doneEvent 0, .exit]

theorem exactly_once_disposal_stop :
    (soloRun stopWhileQueued).Accounted ∧
    ∀ r ∈ (soloRun stopWhileQueued).requests[1]?,
      (r.ExecutedOnce ∨ r.DiscardedOnce) ∧ r.releases = 1 ∧ r.slotHeld = false := by
  have reached : (machine Unit).Reachable (.start "counter" { noInterleave := true } false)
      (soloRun stopWhileQueued) := ⟨stopWhileQueued, rfl⟩
  have disposal := exactly_once_disposal reached
  refine ⟨disposal.1, ?_⟩
  rintro r found
  exact disposal.2.2 rfl 1 r found (by cases found; rfl)

end Runtime

end Skygo.Actor
