import Mathlib.Data.List.Count
import Mathlib.Tactic.Tauto
import Skygo.Actor.Runtime

/-! The invariant of a service runtime.

The loop's local variables put every request in one place. What the goroutines
working on a request can have done is determined by that place, so the invariant
says, request by request, which records fit where.
-/

set_option autoImplicit false

attribute [-instance] instBooleanRingBool

namespace Skygo.Actor

open Semantics

variable {Msg : Type}

inductive Place where
  | outside | current | ready | suspended
  | discarding (stage : Stage)
  deriving DecidableEq

def LoopPc.place : LoopPc → Nat → Place
  | .discard stage act rest _, id =>
      if id = act then .discarding stage
      else if id ∈ rest then .discarding .track
      else .outside
  | _, _ => .outside

def ServiceRuntime.place (m : ServiceRuntime Msg) (id : Nat) : Place :=
  if m.current = some id then .current
  else if id ∈ m.ready then .ready
  else if id ∈ m.suspended then .suspended
  else m.loop.place id

def ServiceRuntime.shares (m : ServiceRuntime Msg) (id : Nat) : Nat :=
  (if m.current = some id then 1 else 0) + m.ready.count id + m.suspended.count id +
    m.loop.discarding.count id

namespace Request

def Untouched (r : Request Msg) : Prop :=
  r.started = false ∧ r.pc = .idle ∧ r.yielded = false ∧ r.grant = false ∧
  r.invocations = 0 ∧ r.dones = 0 ∧ r.reports = [] ∧ r.executions = 0

def Unsent (drainable : Bool) (r : Request Msg) : Prop :=
  r.Untouched ∧ r.maintenanceFinished = false ∧ r.completion = .owed ∧ r.discards = 0 ∧
  match r.admission with
  | .track => r.drainTracked = false ∧ r.slotHeld = false ∧ r.releases = 0
  | .acquire => r.drainTracked = drainable ∧ r.slotHeld = false ∧ r.releases = 0
  | .emit | .release => r.drainTracked = drainable ∧ r.slotHeld = true ∧ r.releases = 0
  | .unwind _ => r.drainTracked = drainable ∧ r.slotHeld = false
  | .returned (some _) => r.drainTracked = false ∧ r.slotHeld = false
  | .returned none => False

def Queued (drainable : Bool) (r : Request Msg) : Prop :=
  r.Untouched ∧ r.admission = .returned none ∧ r.slotHeld = true ∧ r.releases = 0 ∧
  r.discards = 0 ∧ r.drainTracked = drainable ∧ r.maintenanceFinished = false ∧
  r.completion = .owed

def Discarding (drainable : Bool) (stage : Stage) (r : Request Msg) : Prop :=
  match stage with
  | .track => r.Queued drainable
  | .slot => r.Untouched ∧ r.admission = .returned none ∧ r.slotHeld = true ∧ r.releases = 0 ∧
      r.discards = 1 ∧ r.drainTracked = false ∧ r.maintenanceFinished = drainable ∧
      r.completion = .owed
  | .complete => r.Untouched ∧ r.admission = .returned none ∧ r.slotHeld = false ∧ r.releases = 1 ∧
      r.discards = 1 ∧ r.drainTracked = false ∧ r.maintenanceFinished = drainable ∧
      r.expectsResponse = true ∧ r.completion = .owed
  | .respond => r.Untouched ∧ r.admission = .returned none ∧ r.slotHeld = false ∧ r.releases = 1 ∧
      r.discards = 1 ∧ r.drainTracked = false ∧ r.maintenanceFinished = drainable ∧
      r.expectsResponse = true ∧ r.completion = .taken ∧ r.result = some (.error (.bare .serviceStopping))
  | .missing => r.Untouched ∧ r.admission = .returned none ∧ r.slotHeld = false ∧ r.releases = 1 ∧
      r.discards = 1 ∧ r.drainTracked = false ∧ r.maintenanceFinished = drainable ∧
      r.expectsResponse = true ∧ r.completion = .lost

def Discarded (drainable : Bool) (r : Request Msg) : Prop :=
  r.Untouched ∧ r.admission = .returned none ∧ r.slotHeld = false ∧ r.releases = 1 ∧
  r.discards = 1 ∧ r.drainTracked = false ∧ r.maintenanceFinished = drainable ∧
  ((r.expectsResponse = true ∧ (r.completion = .counted ∨
      (r.completion = .sent ∧ r.result = some (.error (.bare .serviceStopping))))) ∨
    (r.expectsResponse = false ∧ r.completion = .owed))

def Returned (r : Request Msg) : Prop :=
  r.result.isSome ∧
    (r.invocations = 1 ∨ (r.invocations = 0 ∧ (r.result.bind CallResult.fault?).isSome))

def Trail (drainable : Bool) (r : Request Msg) : Prop :=
  match r.pc with
  | .idle => False
  | .first | .opening => r.drainTracked = drainable ∧ r.maintenanceFinished = false ∧
      r.completion = .owed ∧ r.invocations = 0 ∧ r.reports = []
  | .code _ | .yielding _ | .answered _ _ | .resuming _ | .parked _ =>
      r.drainTracked = drainable ∧ r.maintenanceFinished = false ∧
      r.completion = .owed ∧ r.invocations = 1 ∧ r.reports = []
  | .finishing => r.drainTracked = drainable ∧ r.maintenanceFinished = false ∧
      r.completion = .owed ∧ r.Returned ∧ r.reports = []
  | .completing => r.drainTracked = false ∧ r.maintenanceFinished = drainable ∧
      r.completion = .owed ∧ r.Returned ∧ r.reports = []
  | .responding => r.drainTracked = false ∧ r.maintenanceFinished = drainable ∧
      r.expectsResponse = true ∧ r.completion = .taken ∧ r.Returned ∧ r.reports = []
  | .missing => r.drainTracked = false ∧ r.maintenanceFinished = drainable ∧
      r.expectsResponse = true ∧ r.completion = .lost ∧ r.Returned ∧ r.reports = []
  | .leaving | .ended => r.drainTracked = false ∧ r.maintenanceFinished = drainable ∧ r.Returned ∧
      ((r.expectsResponse = true ∧ (r.completion = .sent ∨ r.completion = .counted) ∧ r.reports = []) ∨
        (r.expectsResponse = false ∧ r.completion = .owed ∧
          r.reports.length = if (r.result.bind CallResult.fault?).isSome then 1 else 0))

def Live (drainable : Bool) (r : Request Msg) : Prop :=
  r.admission = .returned none ∧ r.started = true ∧ r.slotHeld = false ∧ r.releases = 1 ∧
  r.discards = 0 ∧ r.executions = 1 ∧ r.Trail drainable

def holdsTurn (pc : Pc) (grant : Bool) : Prop :=
  match pc with
  | .first | .parked 0 => grant = true
  | .opening | .code 0 | .yielding 0 | .answered 0 (some _)
  | .finishing | .completing | .responding | .missing | .leaving => grant = false
  | _ => False

/-- Points of a goroutine whose accepted yield is outstanding. A panic that leaves
the wait takes it back to handler code, or past it, without a resume. -/
def givenUpTurn (pc : Pc) : Prop :=
  match pc with
  | .answered 0 none | .resuming 0
  | .finishing | .completing | .responding | .missing | .leaving => True
  | .code depth | .yielding depth | .answered depth (some _) => depth ≤ 1
  | _ => False

def Running (drainable : Bool) (r : Request Msg) : Prop :=
  r.Live drainable ∧ r.dones = 0 ∧ r.yielded = false ∧ holdsTurn r.pc r.grant

def Suspended (drainable : Bool) (r : Request Msg) : Prop :=
  r.Live drainable ∧ r.dones = 0 ∧ r.yielded = true ∧ r.grant = false ∧ givenUpTurn r.pc

def Resumed (drainable : Bool) (r : Request Msg) : Prop :=
  r.Live drainable ∧ r.dones = 0 ∧ r.yielded = true ∧ r.grant = false ∧ r.pc = .parked 0

def Executed (drainable : Bool) (r : Request Msg) : Prop :=
  r.Live drainable ∧ r.dones = 1 ∧ r.grant = false ∧ r.pc = .ended

def Fits (drainable : Bool) (place : Place) (r : Request Msg) : Prop :=
  match place with
  | .outside => r.Unsent drainable ∨ r.Executed drainable ∨ r.Discarded drainable
  | .current => r.Running drainable
  | .ready => r.Queued drainable ∨ r.Resumed drainable
  | .suspended => r.Suspended drainable
  | .discarding stage => r.Discarding drainable stage

attribute [grind] Untouched Unsent Queued Discarding Discarded Returned Trail Live Running Suspended
  Resumed Executed

end Request

structure ServiceRuntime.Sound (m : ServiceRuntime Msg) : Prop where
  exclusive : ∀ id, m.shares id ≤ 1
  known : ∀ id, 0 < m.shares id → id < m.requests.length
  fits : ∀ (id : Nat) (r : Request Msg), m.requests[id]? = some r → r.Fits m.drainable (m.place id)
  tokens : m.slots = m.requests.countP (·.slotHeld)
  bounded : m.slots ≤ m.capacity
  limited : (m.suspended.length : Int) ≤ m.opts.maxSuspended
  atomic : m.opts.noInterleave = true →
    m.suspended = [] ∧ ∀ (id : Nat) (r : Request Msg), m.requests[id]? = some r → r.yielded = false
  settled : m.stopping = true → ∀ id ∈ m.ready, m.isStarted id = true
  closed : m.done = true ↔ m.loop = .exited
  idle : m.loop = .exited → m.Idle

namespace Request

variable {r : Request Msg} {drainable : Bool} {place : Place}

theorem Untouched.started (fresh : r.Untouched) : r.started = false := fresh.1

theorem Untouched.pc (fresh : r.Untouched) : r.pc = .idle := fresh.2.1

theorem Untouched.yielded (fresh : r.Untouched) : r.yielded = false := fresh.2.2.1

theorem Live.admitted (live : r.Live drainable) : r.admission = .returned none := live.1

theorem Live.started (live : r.Live drainable) : r.started = true := live.2.1

theorem Live.slotHeld (live : r.Live drainable) : r.slotHeld = false := live.2.2.1

theorem Live.trail (live : r.Live drainable) : r.Trail drainable := live.2.2.2.2.2.2

theorem Fits.unsent (fits : r.Fits drainable place) (sending : r.admission ≠ .returned none) :
    place = .outside ∧ r.Unsent drainable := by
  cases place with
  | discarding stage => cases stage <;> grind [Fits]
  | _ => grind [Fits]

theorem Fits.active (fits : r.Fits drainable place) (begun : r.pc ≠ .idle) (open_ : r.pc ≠ .ended) :
    (place = .current ∧ r.Running drainable) ∨ (place = .suspended ∧ r.Suspended drainable) ∨
      (place = .ready ∧ r.Resumed drainable) := by
  cases place with
  | discarding stage => cases stage <;> grind [Fits]
  | _ => grind [Fits]

end Request

end Skygo.Actor
