import Mathlib.Tactic.Simps.Basic
import Skygo.Actor.Base
import Skygo.Semantics.Machine
import Skygo.Semantics.Table

/-! One service: its scheduler loop, its activations and the goroutines that
admit envelopes to it.

Every action is one synchronization of the source with the local statements
around it: a rendezvous on the unbuffered events channel, one select branch, one
critical section, one atomic. An activation is created for one envelope and is
named by it, so a request carries both records and the program points of the
two goroutines that work on it. What other parts of the system decide (a drain
verdict, who removed a session first, a handler's result) is a parameter of the
action.
-/

set_option autoImplicit false

namespace Skygo.Actor

open Semantics

inductive AsyncErrorStage where
  | handler | transportAdmission | transportWrite
  deriving DecidableEq

structure AsyncError where
  service : String
  protocol : String
  remoteNode : String
  stage : AsyncErrorStage
  err : Fault
  deriving DecidableEq

/-- `callResult`: the handler's packed response, or an error. -/
inductive CallResult (Msg : Type) where
  | message (value : Msg)
  | error (fault : Fault)
  deriving DecidableEq

def CallResult.fault? {Msg : Type} : CallResult Msg → Option Fault
  | .message _ => none
  | .error fault => some fault

inductive Admission where
  | track
  | acquire
  | emit
  | release
  | unwind (fault : Fault)
  | returned (fault : Option Fault)
  deriving DecidableEq

/-- Where the activation's goroutine stands. `depth` counts the accepted awaits
on its stack, so `code 0` is handler code outside any wait. -/
inductive Pc where
  | idle
  | first
  | opening
  | code (depth : Nat)
  | yielding (depth : Nat)
  | answered (depth : Nat) (reply : Option Fault)
  | resuming (depth : Nat)
  | parked (depth : Nat)
  | finishing
  | completing
  | responding
  | missing
  | leaving
  | ended
  deriving DecidableEq

/-- Progress of the one `completeSession` call an admitted request leads to. -/
inductive Completion where
  | owed | taken | sent | lost | counted
  deriving DecidableEq

/-- An envelope, its activation and both goroutines. The fields from `failed` on only
record history; `failed` is what `finishTracked` was told when it uncounted the envelope. -/
structure Request (Msg : Type) where
  ctx : Context
  protocol : String
  session : Nat
  expectsResponse : Bool
  nonBlocking : Bool
  drainTracked : Bool := false
  slotHeld : Bool := false
  admission : Admission := .track
  maintenanceFinished : Bool := false
  started : Bool := false
  grant : Bool := false
  yieldAtSegment : Nat := 0
  interleaveVersion : Nat := 0
  pc : Pc := .idle
  result : Option (CallResult Msg) := none
  completion : Completion := .owed
  failed : Bool := false
  yielded : Bool := false
  grants : Nat := 0
  executions : Nat := 0
  invocations : Nat := 0
  dones : Nat := 0
  discards : Nat := 0
  releases : Nat := 0
  reports : List AsyncError := []
  deriving DecidableEq

inductive Stage where
  | track | slot | complete | respond | missing
  deriving DecidableEq

/-- Where the loop stands. In `discard` it runs `finishPending` on `act` and has
`rest` still to discard; `inSchedule` says whether `schedule` made the call. -/
inductive LoopPc where
  | top
  | select
  | discard (stage : Stage) (act : Nat) (rest : List Nat) (inSchedule : Bool)
  | exited
  deriving DecidableEq

def LoopPc.resume (rest : List Nat) (inSchedule : Bool) : LoopPc :=
  match rest with
  | [] => if inSchedule then .select else .top
  | act :: rest => .discard .track act rest inSchedule

def LoopPc.discarding : LoopPc → List Nat
  | .discard _ act rest _ => act :: rest
  | _ => []

structure ServiceRuntime (Msg : Type) where
  name : String
  opts : ServiceOptions
  drainable : Bool
  requests : List (Request Msg) := []
  slots : Nat := 0
  canceled : Bool := false
  done : Bool := false
  loop : LoopPc := .top
  current : Option Nat := none
  ready : List Nat := []
  suspended : List Nat := []
  segmentSeq : Nat := 0
  stopping : Bool := false
  deriving DecidableEq

inductive Action (Msg : Type) where
  | submit (ctx : Context) (protocol : String) (session : Nat) (expectsResponse nonBlocking : Bool)
  | track (id : Nat) (admitted : Bool)
  | acquire (id : Nat)
  | refuse (id : Nat) (fault : Fault)
  | enqueue (id : Nat)
  | emitFailed (id : Nat)
  | release (id : Nat)
  | unwind (id : Nat) (fault : Fault)
  | receiveGrant (id : Nat)
  | unpackFailed (id : Nat) (detail : String)
  | invoke (id : Nat)
  | yield (id depth : Nat)
  | yieldEvent (id depth : Nat)
  | yieldFailed (id depth : Nat)
  | hear (id depth : Nat) (reply : Option Fault)
  | waitReturned (id depth : Nat)
  | resumeEvent (id depth : Nat)
  | resumeFailed (id depth : Nat)
  | regrant (id depth : Nat)
  | grantLost (id depth : Nat)
  | recovered (id depth kept : Nat)
  | handlerReturned (id depth : Nat) (result : CallResult Msg)
  | finishTracked (id : Nat)
  | complete (id : Nat) (won : Bool)
  | respond (id : Nat)
  | missed (id : Nat)
  | report (id : Nat)
  | doneEvent (id : Nat)
  | doneFailed (id : Nat)
  | cancel
  | exit
  | schedule
  | observeStop
  | finishPending (won : Bool)
  deriving DecidableEq

namespace ServiceRuntime

variable {Msg : Type}

def start (name : String) (opts : ServiceOptions) (drainable : Bool) : ServiceRuntime Msg where
  name := name
  opts := opts.withDefaults
  drainable := drainable

def capacity (m : ServiceRuntime Msg) : Nat := m.opts.mailboxSize.toNat

@[simps]
def update (m : ServiceRuntime Msg) (id : Nat) (f : Request Msg → Request Msg) : ServiceRuntime Msg :=
  { m with requests := m.requests.modify id f }

def isStarted (m : ServiceRuntime Msg) (id : Nat) : Bool := decide (At m.requests id (·.started = true))

def holdsSlot (m : ServiceRuntime Msg) (id : Nat) : Bool := decide (At m.requests id (·.slotHeld = true))

def awaitsResponse (m : ServiceRuntime Msg) (id : Nat) : Bool :=
  decide (At m.requests id (·.expectsResponse = true))

/-- `<-rt.slots` with `slotHeld = false`, where the envelope holds a slot. -/
def freeSlot (m : ServiceRuntime Msg) (id : Nat) : ServiceRuntime Msg :=
  if m.holdsSlot id then
    { m with slots := m.slots - 1 }.update id fun r =>
      { r with slotHeld := false, releases := r.releases + 1 }
  else m

def hasFailed (m : ServiceRuntime Msg) (id : Nat) : Bool :=
  decide (At m.requests id fun r => (r.result.bind CallResult.fault?).isSome = true)

def markFinished (m : ServiceRuntime Msg) (id : Nat) (hasActivation failed : Bool) : ServiceRuntime Msg :=
  if m.drainable then
    m.update id fun r =>
      { r with
        drainTracked := false
        maintenanceFinished := r.maintenanceFinished || hasActivation
        failed := if r.drainTracked then failed else r.failed }
  else m

/-- The error a select in `admit`, or the default in `tryAdmit`, returns. -/
def Refusal (m : ServiceRuntime Msg) (r : Request Msg) (fault : Fault) : Prop :=
  if r.nonBlocking then fault = .bare .mailboxFull ∧ m.capacity ≤ m.slots
  else fault = .bare .mailboxTimeout ∨ fault = .context .canceled ∨
    fault = .context .deadlineExceeded ∨ (fault = .bare .serviceStopping ∧ m.canceled = true)

instance (m : ServiceRuntime Msg) (r : Request Msg) (fault : Fault) : Decidable (m.Refusal r fault) :=
  inferInstanceAs (Decidable (if r.nonBlocking then _ else _))

def yieldReply (m : ServiceRuntime Msg) (id : Nat) : Option Fault :=
  if m.opts.noInterleave then
    some (.wrapped .runtimeInvariant ("NoInterleave service " ++ m.name ++ " emitted yield"))
  else if m.current ≠ some id then some (.plain "actor: activation is not running")
  else if m.opts.maxSuspended ≤ m.suspended.length then some (.bare .suspendLimit)
  else none

/-- `schedule` finds nothing to do, or pops the first ready activation. -/
def picked (m : ServiceRuntime Msg) : Option Nat :=
  match m.current, m.ready with
  | none, act :: _ => some act
  | _, _ => none

def Idle (m : ServiceRuntime Msg) : Prop :=
  m.stopping = true ∧ m.current = none ∧ m.ready = [] ∧ m.suspended = []

instance (m : ServiceRuntime Msg) : Decidable m.Idle := inferInstanceAs (Decidable (_ ∧ _))

/-- The rest of `schedule` for an activation it grants. The goroutine that waits
on the grant is started with the first grant. -/
def grantTurn (m : ServiceRuntime Msg) (act : Nat) : ServiceRuntime Msg :=
  let freed := m.freeSlot act
  { freed with
    current := some act
    segmentSeq := m.segmentSeq + 1
    loop := .select }.update act fun r =>
      { r with
        interleaveVersion :=
          if r.started ∧ r.yieldAtSegment < m.segmentSeq then r.interleaveVersion + 1
          else r.interleaveVersion
        pc := if r.started then r.pc else .first
        executions := if r.started then r.executions else r.executions + 1
        started := true
        grant := true
        yielded := false
        grants := r.grants + 1 }

/-- One statement of `finishPending`; `won` is the outcome of `LoadAndDelete`. -/
def discardStep (m : ServiceRuntime Msg) (won : Bool) : ServiceRuntime Msg :=
  match m.loop with
  | .discard .track act rest inSchedule =>
      { m with loop := .discard .slot act rest inSchedule }.markFinished act true true |>.update act
        fun r => { r with discards := r.discards + 1 }
  | .discard .slot act rest inSchedule =>
      { m.freeSlot act with
        loop := if m.awaitsResponse act then .discard .complete act rest inSchedule
          else .resume rest inSchedule }
  | .discard .complete act rest inSchedule =>
      { m with loop := .discard (if won then .respond else .missing) act rest inSchedule }.update act
        fun r => { r with
          result := some (.error (.bare .serviceStopping))
          completion := if won then .taken else .lost }
  | .discard .respond act rest inSchedule =>
      { m with loop := .resume rest inSchedule }.update act fun r => { r with completion := .sent }
  | .discard .missing act rest inSchedule =>
      { m with loop := .resume rest inSchedule }.update act fun r => { r with completion := .counted }
  | _ => m

/-- `ReportAsyncError` for the error of a notification's handler. -/
def reportFor (m : ServiceRuntime Msg) (r : Request Msg) : List AsyncError :=
  match r.result.bind CallResult.fault? with
  | some fault => [⟨m.name, r.protocol, "", .handler, fault⟩]
  | none => []

attribute [grind] start capacity update isStarted holdsSlot awaitsResponse freeSlot hasFailed markFinished Refusal
  yieldReply picked Idle grantTurn discardStep reportFor

end ServiceRuntime

namespace Runtime

open ServiceRuntime

variable {Msg : Type}

def Enabled (m : ServiceRuntime Msg) : Action Msg → Prop
  | .submit .. => True
  | .track id admitted => At m.requests id (·.admission = .track) ∧ (m.drainable = false → admitted = true)
  | .acquire id => At m.requests id (·.admission = .acquire) ∧ m.slots < m.capacity
  | .refuse id fault => At m.requests id fun r => r.admission = .acquire ∧ m.Refusal r fault
  | .enqueue id => At m.requests id (·.admission = .emit) ∧ m.loop = .select
  | .emitFailed id => At m.requests id (·.admission = .emit) ∧ m.done = true
  | .release id => At m.requests id (·.admission = .release) ∧ 0 < m.slots
  | .unwind id fault => At m.requests id (·.admission = .unwind fault)
  | .receiveGrant id => At m.requests id fun r => r.pc = .first ∧ r.grant = true
  | .unpackFailed id _ => At m.requests id (·.pc = .opening)
  | .invoke id => At m.requests id (·.pc = .opening)
  -- also in a NoInterleave service, whose `Call` never yields: the loop then answers with its invariant error
  | .yield id depth => At m.requests id (·.pc = .code depth)
  | .yieldEvent id depth => At m.requests id (·.pc = .yielding depth) ∧ m.loop = .select
  | .yieldFailed id depth => At m.requests id (·.pc = .yielding depth) ∧ m.done = true
  | .hear id depth reply => At m.requests id (·.pc = .answered depth reply)
  | .waitReturned id depth => At m.requests id (·.pc = .code (depth + 1))
  | .resumeEvent id depth => At m.requests id (·.pc = .resuming depth) ∧ m.loop = .select
  | .resumeFailed id depth => At m.requests id (·.pc = .resuming depth) ∧ m.done = true
  | .regrant id depth => At m.requests id fun r => r.pc = .parked depth ∧ r.grant = true
  | .grantLost id depth => At m.requests id (·.pc = .parked depth) ∧ m.done = true
  | .recovered id depth kept => At m.requests id (·.pc = .code depth) ∧ kept < depth
  | .handlerReturned id depth result =>
      At m.requests id (·.pc = .code depth) ∧ (depth = 0 ∨ result.fault?.isSome)
  | .finishTracked id => At m.requests id (·.pc = .finishing)
  | .complete id _ => At m.requests id fun r => r.pc = .completing ∧ r.expectsResponse = true
  | .respond id => At m.requests id (·.pc = .responding)
  | .missed id => At m.requests id (·.pc = .missing)
  | .report id => At m.requests id fun r => r.pc = .completing ∧ r.expectsResponse = false
  | .doneEvent id => At m.requests id (·.pc = .leaving) ∧ m.loop = .select
  | .doneFailed id => At m.requests id (·.pc = .leaving) ∧ m.done = true
  | .cancel => True
  | .exit => m.loop = .top ∧ m.Idle
  | .schedule => m.loop = .top ∧ ¬m.Idle ∧
      ∀ act ∈ m.picked, At m.requests act fun r => (r.slotHeld = true → 0 < m.slots) ∧ r.grant = false
  | .observeStop => m.loop = .select ∧ m.canceled = true ∧ m.stopping = false
  | .finishPending _ =>
      match m.loop with
      | .discard .slot act _ _ => At m.requests act fun r => r.slotHeld = true → 0 < m.slots
      | .discard .. => True
      | _ => False

def next (m : ServiceRuntime Msg) : Action Msg → ServiceRuntime Msg
  | .submit ctx protocol session expectsResponse nonBlocking =>
      { m with requests := m.requests ++ [{
          ctx := ctx
          protocol := protocol
          session := session
          expectsResponse := expectsResponse
          nonBlocking := nonBlocking }] }
  | .track id true => m.update id fun r =>
      { r with admission := .acquire, drainTracked := m.drainable }
  | .track id false => m.update id fun r =>
      { r with admission := .returned (some (.bare .maintenance)) }
  | .acquire id => { m with slots := m.slots + 1 }.update id fun r =>
      { r with slotHeld := true, admission := .emit }
  | .refuse id fault => m.update id fun r => { r with admission := .unwind fault }
  | .enqueue id =>
      let told := m.update id fun r => { r with admission := .returned none }
      if m.stopping then { told with loop := .discard .track id [] false }
      else { told with ready := m.ready ++ [id], loop := .top }
  | .emitFailed id => m.update id fun r => { r with admission := .release }
  | .release id => (m.freeSlot id).update id fun r =>
      { r with admission := .unwind (.bare .serviceStopping) }
  | .unwind id fault => (m.markFinished id false false).update id fun r =>
      { r with admission := .returned (some fault) }
  | .receiveGrant id => m.update id fun r => { r with pc := .opening, grant := false }
  | .unpackFailed id detail => m.update id fun r =>
      { r with pc := .finishing, result := some (.error (.wrapped .codec detail)) }
  | .invoke id => m.update id fun r => { r with pc := .code 0, invocations := r.invocations + 1 }
  | .yield id depth => m.update id fun r => { r with pc := .yielding depth }
  | .yieldEvent id depth =>
      match m.yieldReply id with
      | some fault => { m with loop := .top }.update id fun r =>
          { r with pc := .answered depth (some fault) }
      | none =>
          { m with loop := .top, current := none, suspended := m.suspended.insert id }.update id
            fun r => { r with
              pc := .answered depth none
              yieldAtSegment := m.segmentSeq
              yielded := true }
  | .yieldFailed id depth => m.update id fun r => { r with pc := .code depth }
  | .hear id depth reply => m.update id fun r =>
      { r with pc := .code (if reply.isNone then depth + 1 else depth) }
  | .waitReturned id depth => m.update id fun r => { r with pc := .resuming depth }
  | .resumeEvent id depth =>
      let told := m.update id fun r => { r with pc := .parked depth }
      if id ∈ m.suspended then
        { told with suspended := m.suspended.erase id, ready := m.ready ++ [id], loop := .top }
      else { told with loop := .top }
  | .resumeFailed id depth => m.update id fun r => { r with pc := .code depth }
  | .regrant id depth => m.update id fun r => { r with pc := .code depth, grant := false }
  | .grantLost id depth => m.update id fun r => { r with pc := .code depth }
  | .recovered id _ kept => m.update id fun r => { r with pc := .code kept }
  | .handlerReturned id _ result => m.update id fun r =>
      { r with pc := .finishing, result := some result }
  | .finishTracked id => (m.markFinished id true (m.hasFailed id)).update id fun r =>
      { r with pc := .completing }
  | .complete id true => m.update id fun r => { r with pc := .responding, completion := .taken }
  | .complete id false => m.update id fun r => { r with pc := .missing, completion := .lost }
  | .respond id => m.update id fun r => { r with pc := .leaving, completion := .sent }
  | .missed id => m.update id fun r => { r with pc := .leaving, completion := .counted }
  | .report id => m.update id fun r => { r with pc := .leaving, reports := r.reports ++ m.reportFor r }
  | .doneEvent id =>
      { m with
        loop := .top
        current := if m.current = some id then none else m.current
        suspended := m.suspended.erase id }.update id fun r =>
          { r with pc := .ended, dones := r.dones + 1 }
  | .doneFailed id => m.update id fun r => { r with pc := .ended }
  | .cancel => { m with canceled := true }
  | .exit => { m with loop := .exited, done := true }
  | .schedule =>
      match m.picked with
      | none => { m with loop := .select }
      | some act =>
          let popped := { m with ready := m.ready.tail }
          if m.stopping ∧ m.isStarted act = false then
            { popped with loop := .discard .track act [] true }
          else popped.grantTurn act
  | .observeStop =>
      { m with
        stopping := true
        ready := m.ready.filter m.isStarted
        loop := .resume (m.ready.filter fun act => !m.isStarted act) false }
  | .finishPending won => m.discardStep won

def decideEnabled (m : ServiceRuntime Msg) (a : Action Msg) : Decidable (Enabled m a) := by
  cases a <;> dsimp only [Enabled] <;> (try split) <;> infer_instance

instance (m : ServiceRuntime Msg) (a : Action Msg) : Decidable (Enabled m a) := decideEnabled m a

def machine (Msg : Type) : Machine (ServiceRuntime Msg) (Action Msg) where
  Enabled := Enabled
  next := next
  decideEnabled := decideEnabled

attribute [grind] Enabled next

end Runtime

attribute [grind] CallResult.fault? LoopPc.resume LoopPc.discarding

end Skygo.Actor
