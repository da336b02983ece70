import Skygo.Actor.Base
import Skygo.Transport.Admission
import Skygo.Transport.Handshake

/-! The inbound side of a node: the readers of the accepted connections, the dispatcher's shards, the
goroutines that send responses and those of the admission barriers.

The steps are those at which the goroutines synchronize: the mutex of a connection's admission
counters, its map of calls, the two semaphores and the shard channels of the dispatcher, and the
admission to the target's mailbox. A request is known by the order in which the node read it.
-/

set_option autoImplicit false

namespace Skygo.Transport

open Semantics

def admissionBarrierProtocol : String := "__skygo_admission_barrier_v1"

structure Target where
  node : String
  incarnation : String
  service : String
  address : Nat
  generation : Nat
  deriving DecidableEq

/-- The fields of `wire.Envelope` that the read loop and `dispatch` look at. -/
structure Envelope where
  version : Nat := protocolVersion
  kind : Kind
  requestID : Nat := 0
  sourceNode : String
  target : Option Target := none
  protocol : String := ""
  deriving DecidableEq

def Envelope.service (e : Envelope) : String := (e.target.map Target.service).getD ""

structure InboundJob where
  conn : Nat
  admissionSeq : Nat
  envelope : Envelope
  canceled : Bool := false
  deriving DecidableEq

inductive Reader where
  | reading
  | storing (j : Nat)
  | submitting (j : Nat)
  /-- In the second select of `submit`, with a slot. -/
  | pushing (j : Nat)
  | full (j : Nat)
  /-- `submit` returned false. -/
  | refused (j : Nat)
  /-- After `finishAdmission`. -/
  | rejected (j : Nat)
  | leaving
  | exited
  deriving DecidableEq

def Reader.hand : Reader → Hand
  | .storing j | .submitting j | .pushing j | .full j | .refused j => .holding j
  | .rejected j => .telling j
  | .reading | .leaving | .exited => .empty

inductive Worker where
  | idle
  | releasing (j : Nat)
  | checking (j : Nat)
  | accepting (j : Nat)
  | dispatching (j : Nat)
  /-- At the deferred `finishAdmission`. -/
  | ended (j : Nat)
  | exited
  deriving DecidableEq

def Worker.grip : Worker → Grip
  | .releasing j | .checking j | .accepting j | .dispatching j => .holding j
  | .ended j => .spent j
  | .idle | .exited => .empty

structure Pong where
  requestID : Nat
  protocol : String
  deriving DecidableEq

structure InboundConn where
  remoteNode : String
  /-- `admissionNext`, `admissionDone` and `admissionFinished`. -/
  admission : Watermark := {}
  /-- How often `admissionChanged` was closed. -/
  admissionChanged : Nat := 0
  barrierPending : Bool := false
  calls : Nat → Option Nat := fun _ => none
  reader : Reader := .reading
  /-- `close` has begun, and it has closed the socket. -/
  closing : Bool := false
  closed : Bool := false
  barriers : List Barrier := []
  /-- What was read, in order. -/
  log : List Read := []
  pongs : List Pong := []

namespace InboundConn

def finishAdmission (conn : InboundConn) (sequence : Nat) : InboundConn :=
  if sequence = 0 then conn
  else
    { conn with
      admission := conn.admission.finish sequence
      admissionChanged := conn.admissionChanged + 1 }

/-- `barrier` up to the start of its goroutine. -/
def barrier (conn : InboundConn) (request : Envelope) : InboundConn :=
  if conn.barrierPending then
    { conn with
      log := conn.log ++ [.other]
      pongs := conn.pongs ++ [{ requestID := request.requestID, protocol := "barrier_busy" }] }
  else
    { conn with
      log := conn.log ++ [.barrier conn.barriers.length]
      barriers := conn.barriers ++ [{ requestID := request.requestID, sequence := conn.admission.next }]
      barrierPending := true }

def skip (conn : InboundConn) : InboundConn := { conn with log := conn.log ++ [.other] }

def line (conn : InboundConn) : Line where
  mark := conn.admission
  changed := conn.admissionChanged
  hand := conn.reader.hand
  log := conn.log
  barriers := conn.barriers

def setBarrier (conn : InboundConn) (b : Nat) (f : Barrier → Barrier) : InboundConn :=
  { conn with barriers := conn.barriers.modify b f }

attribute [grind] finishAdmission barrier skip line setBarrier

end InboundConn

structure Shard where
  queue : List Nat := []
  worker : Worker := .idle
  /-- What was admitted or turned away, in order. -/
  handled : List Nat := []
  deriving DecidableEq

def Shard.lane (shard : Shard) : Lane where
  queue := shard.queue
  grip := shard.worker.grip
  handled := shard.handled

inductive AsyncErrorStage where
  | handler | transportAdmission | transportWrite
  deriving DecidableEq

structure AsyncError where
  service : String
  protocol : String
  remoteNode : String
  stage : AsyncErrorStage
  err : Actor.Fault
  deriving DecidableEq

/-- What the node made known about a request: a report to `ReportAsyncError`, a response frame, or
nothing, when the call was canceled before its dispatch. -/
inductive Notice where
  | report (j : Nat) (error : AsyncError)
  | response (j requestID : Nat) (err : Option Actor.Fault)
  | discard (j : Nat)
  deriving DecidableEq

def Notice.job : Notice → Nat
  | .report j _ | .response j _ _ | .discard j => j

inductive ReplyPlace where
  | waiting
  | responding (err : Option Actor.Fault)
  | releasing
  | returned
  deriving DecidableEq

structure Reply where
  job : Nat
  place : ReplyPlace := .waiting
  deriving DecidableEq

structure Inbound where
  nodeID : String
  incarnation : String
  inboundQueue : Nat
  maxInboundCalls : Nat
  shards : List Shard
  conns : List InboundConn := []
  jobs : List InboundJob := []
  /-- The tokens in `d.slots` and in `d.calls`. -/
  slots : Nat := 0
  calls : Nat := 0
  replies : List Reply := []
  /-- The node's context ended. -/
  stopped : Bool := false
  /-- The requests in the order in which `finishAdmission` ran for them. -/
  ended : List Nat := []
  /-- The requests in the order in which their `eventEnqueue` reached a runtime. -/
  received : List Nat := []
  notices : List Notice := []

namespace Inbound

def setConn (s : Inbound) (c : Nat) (f : InboundConn → InboundConn) : Inbound :=
  { s with conns := s.conns.modify c f }

def setShard (s : Inbound) (w : Nat) (f : Shard → Shard) : Inbound :=
  { s with shards := s.shards.modify w f }

def setReader (s : Inbound) (c : Nat) (reader : Reader) : Inbound :=
  s.setConn c fun conn => { conn with reader := reader }

def setWorker (s : Inbound) (w : Nat) (worker : Worker) : Inbound :=
  s.setShard w fun shard => { shard with worker := worker }

def setReply (s : Inbound) (r : Nat) (place : ReplyPlace) : Inbound :=
  { s with replies := s.replies.modify r fun reply => { reply with place := place } }

def cancel (s : Inbound) (j : Nat) : Inbound :=
  { s with jobs := s.jobs.modify j fun job => { job with canceled := true } }

def notify (s : Inbound) (notice : Notice) : Inbound := { s with notices := s.notices ++ [notice] }

def shardOf (s : Inbound) (e : Envelope) : Option Nat :=
  match e.target with
  | some target => if s.shards.length = 0 then none else some (target.address % s.shards.length)
  | none => none

def validateInboundTarget (s : Inbound) (e : Envelope) : Bool :=
  match e.target with
  | some target => target.node = s.nodeID && target.incarnation = s.incarnation
  -- the zero target
  | none => "" = s.nodeID && "" = s.incarnation

def finishAdmission (s : Inbound) (j : Nat) : Inbound :=
  match s.jobs[j]? with
  | some job =>
      { s.setConn job.conn fun conn => conn.finishAdmission job.admissionSeq with ended := s.ended ++ [j] }
  | none => s

def forgetCall (s : Inbound) (job : InboundJob) : Inbound :=
  s.setConn job.conn fun conn => { conn with calls := Function.update conn.calls job.envelope.requestID none }

def remoteNode (s : Inbound) (job : InboundJob) : String :=
  ((s.conns[job.conn]?).map InboundConn.remoteNode).getD ""

/-- A request that was not admitted: a report for a notification, a response for a call. -/
def turnAway (s : Inbound) (j : Nat) (err : Actor.Fault) : Inbound :=
  match s.jobs[j]? with
  | some job =>
      if job.envelope.kind = .send then
        s.notify (.report j
          { service := job.envelope.service
            protocol := job.envelope.protocol
            remoteNode := s.remoteNode job
            stage := .transportAdmission
            err := err })
      else (s.forgetCall job).notify (.response j job.envelope.requestID (some err))
  | none => s

/-- `beginAdmission` of a request just read; a call is stored next, a notification submitted. -/
def beginAdmission (s : Inbound) (c : Nat) (conn : InboundConn) (e : Envelope) (place : Nat → Reader) : Inbound :=
  { s.setConn c fun conn =>
      { conn with
        admission := conn.admission.begin
        reader := place s.jobs.length
        log := conn.log ++ [.request s.jobs.length] } with
    jobs := s.jobs ++ [{ conn := c, admissionSeq := conn.admission.next + 1, envelope := e }] }

/-- One turn of the read loop, up to the first step on what was read. -/
def read (s : Inbound) (c : Nat) (e : Envelope) : Inbound :=
  match s.conns[c]? with
  | none => s
  | some conn =>
    if e.version ≠ protocolVersion ∨ e.sourceNode ≠ conn.remoteNode then
      s.setConn c fun conn => { conn.skip with reader := .leaving }
    else
      match e.kind with
      | .call => s.beginAdmission c conn e .storing
      | .send => s.beginAdmission c conn e .submitting
      | .cancel =>
        match conn.calls e.requestID with
        | some j => (s.cancel j).setConn c .skip
        | none => s.setConn c .skip
      | .ping =>
        if e.protocol = admissionBarrierProtocol then s.setConn c fun conn => conn.barrier e
        else s.setConn c fun conn =>
          { conn.skip with pongs := conn.pongs ++ [{ requestID := e.requestID, protocol := "" }] }
      | _ => s.setConn c .skip

/-- `submit` up to the slot. -/
def submit (s : Inbound) (c j : Nat) (job : InboundJob) : Inbound :=
  match s.shardOf job.envelope with
  | none => s.setReader c (.refused j)
  | some _ =>
    if s.slots < s.inboundQueue then { s.setReader c (.pushing j) with slots := s.slots + 1 }
    else s.setReader c (.refused j)

def push (s : Inbound) (c j : Nat) (job : InboundJob) : Inbound :=
  match s.shardOf job.envelope with
  | none => s.setReader c (.full j)
  | some w =>
    if At s.shards w (fun shard => shard.queue.length < s.inboundQueue) then
      (s.setReader c .reading).setShard w fun shard => { shard with queue := shard.queue ++ [j] }
    else s.setReader c (.full j)

def conclude (s : Inbound) (w j : Nat) : Inbound :=
  s.setShard w fun shard => { shard with worker := .ended j, handled := shard.handled ++ [j] }

/-- `dispatch` from its validation to the call of `DispatchRemoteAsync`. -/
def acquire (s : Inbound) (w j : Nat) (job : InboundJob) : Inbound :=
  if s.validateInboundTarget job.envelope = false then (s.turnAway j (.bare .staleRef)).conclude w j
  else if job.envelope.kind = .call then
    if s.calls < s.maxInboundCalls then { s.setWorker w (.dispatching j) with calls := s.calls + 1 }
    else (s.turnAway j (.bare .transportBackpressure)).conclude w j
  else s.setWorker w (.dispatching j)

def deliver (s : Inbound) (w j : Nat) (job : InboundJob) : Inbound :=
  { s.conclude w j with
    received := s.received ++ [j]
    replies := if job.envelope.kind = .send then s.replies else s.replies ++ [{ job := j }] }

def fail (s : Inbound) (w j : Nat) (job : InboundJob) (err : Actor.Fault) : Inbound :=
  { (s.turnAway j err).conclude w j with
    calls := if job.envelope.kind = .send then s.calls else s.calls - 1 }

inductive Action where
  | accept (remoteNode : String)
  | read (c : Nat) (e : Envelope)
  | readFailed (c : Nat)
  | store (c j : Nat)
  | submit (c j : Nat)
  | push (c j : Nat)
  | restore (c j : Nat)
  | refuse (c j : Nat)
  | reject (c j : Nat)
  | leave (c : Nat)
  | close (c : Nat)
  | cancelCall (c requestID j : Nat)
  | disconnect (c : Nat)
  | look (c b : Nat)
  | wake (c b : Nat)
  | pong (c b : Nat)
  | giveUp (c b : Nat)
  | clear (c b : Nat)
  | take (w j : Nat)
  | release (w j : Nat)
  | check (w j : Nat)
  | acquire (w j : Nat)
  | deliver (w j : Nat)
  | fail (w j : Nat) (err : Actor.Fault)
  | finish (w j : Nat)
  | exit (w : Nat)
  | complete (r j : Nat) (err : Option Actor.Fault)
  | cutOff (r j : Nat)
  | respond (r j : Nat) (err : Option Actor.Fault)
  | free (r : Nat)
  | stop
  deriving DecidableEq

def AtBarrier (s : Inbound) (c b : Nat) (p : InboundConn → Barrier → Prop) : Prop :=
  At s.conns c fun conn => At conn.barriers b fun bar => p conn bar

instance (s : Inbound) (c b : Nat) (p : InboundConn → Barrier → Prop) [∀ conn, DecidablePred (p conn)] :
    Decidable (s.AtBarrier c b p) := by
  unfold AtBarrier
  infer_instance

def Enabled (s : Inbound) : Action → Prop
  | .accept _ => True
  | .read c _ => At s.conns c fun conn => conn.reader = .reading ∧ conn.closed = false
  | .readFailed c => At s.conns c fun conn => conn.reader = .reading
  | .store c j => At s.conns c fun conn => conn.reader = .storing j
  | .submit c j => At s.conns c fun conn => conn.reader = .submitting j
  | .push c j => At s.conns c fun conn => conn.reader = .pushing j
  | .restore c j => At s.conns c fun conn => conn.reader = .full j
  | .refuse c j => At s.conns c fun conn => conn.reader = .refused j
  | .reject c j => At s.conns c fun conn => conn.reader = .rejected j
  | .leave c => At s.conns c fun conn => conn.reader = .leaving ∧ conn.closed = true
  | .close c => At s.conns c fun conn => conn.closing = false
  -- the calls that `Range` visits
  | .cancelCall c requestID j => At s.conns c fun conn => conn.closing = true ∧ conn.calls requestID = some j
  | .disconnect c => At s.conns c fun conn => conn.closing = true ∧ conn.closed = false
  | .look c b => s.AtBarrier c b fun _ bar => bar.place = .checking
  | .wake c b => s.AtBarrier c b fun conn bar => bar.woken conn.line = true
  | .pong c b => s.AtBarrier c b fun _ bar => bar.place = .ponging
  -- the connection's context ended or thirty seconds are over
  | .giveUp c b => s.AtBarrier c b fun _ bar => bar.waits = true
  | .clear c b => s.AtBarrier c b fun _ bar => bar.place = .clearing
  | .take w j => At s.shards w fun shard => shard.worker = .idle ∧ shard.queue.head? = some j
  | .release w j => At s.shards w fun shard => shard.worker = .releasing j
  | .check w j => At s.shards w fun shard => shard.worker = .checking j
  | .acquire w j => At s.shards w fun shard => shard.worker = .accepting j
  | .deliver w j => At s.shards w fun shard => shard.worker = .dispatching j
  | .fail w j _ => At s.shards w fun shard => shard.worker = .dispatching j
  | .finish w j => At s.shards w fun shard => shard.worker = .ended j
  | .exit w => At s.shards w (fun shard => shard.worker = .idle) ∧ s.stopped = true
  | .complete r j _ => At s.replies r fun reply => reply.job = j ∧ reply.place = .waiting
  | .cutOff r j => At s.replies r (fun reply => reply.job = j ∧ reply.place = .waiting) ∧ s.stopped = true
  | .respond r j err => At s.replies r fun reply => reply.job = j ∧ reply.place = .responding err
  | .free r => At s.replies r fun reply => reply.place = .releasing
  | .stop => True

def withJob (s : Inbound) (j : Nat) (f : InboundJob → Inbound) : Inbound :=
  match s.jobs[j]? with
  | some job => f job
  | none => s

def next (s : Inbound) : Action → Inbound
  | .accept remoteNode => { s with conns := s.conns ++ [{ remoteNode := remoteNode }] }
  | .read c e => s.read c e
  | .readFailed c => s.setReader c .leaving
  | .store c j => s.withJob j fun job =>
      (s.setReader c (.submitting j)).setConn c fun conn =>
        { conn with calls := Function.update conn.calls job.envelope.requestID (some j) }
  | .submit c j => s.withJob j fun job => s.submit c j job
  | .push c j => s.withJob j fun job => s.push c j job
  | .restore c j => { s.setReader c (.refused j) with slots := s.slots - 1 }
  | .refuse c j => (s.setReader c (.rejected j)).finishAdmission j
  | .reject c j => s.withJob j fun _ => (s.setReader c .reading).turnAway j (.bare .transportBackpressure)
  | .leave c => s.setReader c .exited
  | .close c => s.setConn c fun conn => { conn with closing := true }
  | .cancelCall _ _ j => s.cancel j
  | .disconnect c => s.setConn c fun conn => { conn with closed := true }
  | .look c b => s.setConn c fun conn => conn.setBarrier b fun bar => bar.look conn.line
  | .wake c b => s.setConn c fun conn => conn.setBarrier b (.moveTo .checking)
  | .pong c b => s.setConn c fun conn =>
      { conn.setBarrier b .pong with
        pongs := conn.pongs ++ ((conn.barriers[b]?).map fun bar =>
          { requestID := bar.requestID, protocol := admissionBarrierProtocol }).toList }
  | .giveUp c b => s.setConn c fun conn => conn.setBarrier b (.moveTo .clearing)
  | .clear c b => s.setConn c fun conn => { conn.setBarrier b (.moveTo .done) with barrierPending := false }
  | .take w j => s.setShard w fun shard => { shard with queue := shard.queue.tail, worker := .releasing j }
  | .release w j => { s.setWorker w (.checking j) with slots := s.slots - 1 }
  | .check w j => s.withJob j fun job =>
      if job.canceled then ((s.forgetCall job).notify (.discard j)).conclude w j
      else s.setWorker w (.accepting j)
  | .acquire w j => s.withJob j fun job => s.acquire w j job
  | .deliver w j => s.withJob j fun job => s.deliver w j job
  | .fail w j err => s.withJob j fun job => s.fail w j job err
  | .finish w j => (s.setWorker w .idle).finishAdmission j
  | .exit w => s.setWorker w .exited
  | .complete r j err => s.withJob j fun job => (s.forgetCall job).setReply r (.responding err)
  | .cutOff r j => s.withJob j fun job => ((s.cancel j).forgetCall job).setReply r .releasing
  | .respond r j err => s.withJob j fun job =>
      if job.canceled then s.setReply r .releasing
      else (s.notify (.response j job.envelope.requestID err)).setReply r .releasing
  | .free r => { s.setReply r .returned with calls := s.calls - 1 }
  | .stop => { s with stopped := true }

def machine : Machine Inbound Action where
  Enabled := Enabled
  next := next
  decideEnabled s a := by
    cases a <;> unfold Enabled <;> infer_instance

def initial (nodeID incarnation : String) (inboundShards inboundQueue maxInboundCalls : Nat) : Inbound where
  nodeID := nodeID
  incarnation := incarnation
  inboundQueue := inboundQueue
  maxInboundCalls := maxInboundCalls
  shards := List.replicate inboundShards {}

attribute [grind] setConn setShard setReader setWorker setReply cancel notify
  finishAdmission forgetCall turnAway beginAdmission read submit push conclude acquire deliver fail
  AtBarrier Enabled withJob next

end Inbound

attribute [grind] Envelope.service Reader.hand Worker.grip Shard.lane Notice.job

end Skygo.Transport
