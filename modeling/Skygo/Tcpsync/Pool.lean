import Skygo.Frame.Frame
import Skygo.Semantics.Machine
import Skygo.Semantics.Table

/-! The pool of synchronous connections: `Do`, `sweepIdle` and `Close` of any number of goroutines.

An action is one channel operation, one critical section of the pool's mutex, one exchange on a
connection or one `Conn.close`. A select with several ready cases may take any of them; its
default needs all of them blocked. Responses are counted, not looked into: the response with
number `n` on a connection is the one that comes after `n` others.
-/

set_option autoImplicit false

namespace Skygo.Tcpsync

open Semantics

structure Options where
  maxSize : Int := 0
  retryCount : Int := 0
  heartbeatInterval : Int := 0
  idleTimeout : Int := 0
  pinger : Bool := false
  deriving DecidableEq

def Options.setDefaults (o : Options) : Options :=
  { o with
    maxSize := if o.maxSize ≤ 0 then 100 else o.maxSize
    retryCount := if o.retryCount < 0 then 0 else o.retryCount }

/-- A request frame on a connection: an attempt of a `Do`, or a frame of the pinger. -/
structure Request where
  caller : Option Nat
  attempt : Nat := 0
  payload : List UInt8
  deriving DecidableEq

/-- A response frame, by its connection and its number there. -/
structure Response where
  conn : Nat
  number : Nat
  deriving DecidableEq

structure Conn where
  /-- `netConn` is nil. -/
  closed : Bool := false
  lastUsed : Int := 0
  lastPinged : Option Int := none
  sent : List Request := []
  received : Nat := 0
  deriving DecidableEq

inductive Failure where
  | poolExhausted
  | closed
  | context
  | transport
  /-- No attempt was made. -/
  | attempts (maxAttempts : Int)
  deriving DecidableEq

/-- Where a `Do` is. What comes after the release of a connection is already known when it begins. -/
inductive Place where
  | checking
  | taking
  | locking
  | dialing
  | undialing
  | sending (c : Nat)
  | receiving (c : Nat)
  | releasing (c : Nat) (resp : Response)
  | closing (c : Nat) (outcome : Except Failure Response)
  | uncounting (c : Nat) (outcome : Except Failure Response)
  | sleeping
  | returned (outcome : Except Failure Response)
  deriving DecidableEq

structure Call where
  req : List UInt8
  cancelled : Bool := false
  attempt : Nat := 0
  place : Place
  deriving DecidableEq

def Options.maxAttempts (o : Options) : Int := 1 + o.retryCount

def Call.start (opts : Options) (req : List UInt8) : Call where
  req := req
  place := if 0 < opts.maxAttempts then .checking else .returned (.error (.attempts opts.maxAttempts))

def Call.conclude (opts : Options) (outcome : Except Failure Response) (call : Call) : Call :=
  match outcome with
  | .ok resp => { call with place := .returned (.ok resp) }
  | .error failure =>
      if (call.attempt + 1 : Int) < opts.maxAttempts then { call with attempt := call.attempt + 1, place := .sleeping }
      else { call with place := .returned (.error failure) }

inductive SweepPlace where
  | checking
  | draining
  | visiting
  | putting
  | closing
  | uncounting
  | returned
  deriving DecidableEq

/-- The connections still to visit; the first one is being visited. -/
structure Sweep where
  batch : List Nat := []
  place : SweepPlace := .checking
  deriving DecidableEq

inductive Closer where
  | waiting
  | draining
  | closing (c : Nat)
  | uncounting (c : Nat)
  | returned
  deriving DecidableEq

structure Pool where
  opts : Options
  now : Int := 0
  idle : List Nat := []
  total : Int := 0
  closed : Bool := false
  conns : List Conn := []
  calls : List Call := []
  sweeps : List Sweep := []
  closer : Closer := .waiting
  deriving DecidableEq

def new (opts : Options) : Except String Pool :=
  if opts.setDefaults.maxSize ≤ 0 then .error "tcpsync: MaxSize must be positive"
  else .ok { opts := opts.setDefaults }

namespace Pool

def setPlace (s : Pool) (i : Nat) (place : Place) : Pool :=
  { s with calls := s.calls.modify i fun call => { call with place := place } }

def conclude (s : Pool) (i : Nat) (outcome : Except Failure Response) : Pool :=
  { s with calls := s.calls.modify i (Call.conclude s.opts outcome) }

def setConn (s : Pool) (c : Nat) (f : Conn → Conn) : Pool := { s with conns := s.conns.modify c f }

def write (s : Pool) (c : Nat) (request : Request) : Pool :=
  s.setConn c fun conn => { conn with sent := conn.sent ++ [request] }

def use (s : Pool) (c : Nat) : Pool := s.setConn c fun conn => { conn with lastUsed := s.now }

def shut (s : Pool) (c : Nat) : Pool := s.setConn c fun conn => { conn with closed := true }

def setSweep (s : Pool) (k : Nat) (f : Sweep → Sweep) : Pool := { s with sweeps := s.sweeps.modify k f }

def leave (s : Pool) (k : Nat) : Pool := s.setSweep k fun sweep => ⟨sweep.batch.tail, .visiting⟩

def expired (s : Pool) (conn : Conn) : Prop := 0 < s.opts.idleTimeout ∧ s.opts.idleTimeout < s.now - conn.lastUsed

def lastActivity (conn : Conn) : Int :=
  match conn.lastPinged with
  | some pinged => if conn.lastUsed < pinged then pinged else conn.lastUsed
  | none => conn.lastUsed

def pingDue (s : Pool) (conn : Conn) : Prop :=
  0 < s.opts.heartbeatInterval ∧ s.opts.pinger = true ∧ s.opts.heartbeatInterval ≤ s.now - lastActivity conn

instance (s : Pool) (conn : Conn) : Decidable (s.expired conn) := by unfold expired; infer_instance

instance (s : Pool) (conn : Conn) : Decidable (s.pingDue conn) := by unfold pingDue; infer_instance

def Full (s : Pool) : Prop := s.opts.maxSize ≤ s.idle.length

instance (s : Pool) : Decidable s.Full := by unfold Full; infer_instance

inductive Action where
  | clock (now : Int)
  | cancel (i : Nat)
  -- `Do` and `acquire`
  | start (req : List UInt8)
  | check (i : Nat)
  | takeCancelled (i : Nat)
  | take (i c : Nat)
  | noneIdle (i : Nat)
  | lock (i : Nat)
  | dialed (i : Nat)
  | dialFailed (i : Nat)
  | undial (i : Nat)
  -- `sendRecv`
  | send (i c : Nat) (request : Request)
  | sendFailed (i c : Nat) (delivered : Option Request)
  | receive (i c number : Nat)
  | receiveFailed (i c : Nat)
  -- `release`
  | releaseClosed (i c : Nat) (resp : Response)
  | releaseIdle (i c : Nat) (resp : Response)
  | releaseFull (i c : Nat) (resp : Response)
  | closeConn (i c : Nat) (outcome : Except Failure Response)
  | uncount (i c : Nat) (outcome : Except Failure Response)
  -- `sleepRetry`
  | wake (i : Nat)
  | wakeCancelled (i : Nat)
  | wakeClosed (i : Nat)
  -- `sweepIdle`
  | sweep
  | sweepCheck (k : Nat)
  | sweepTake (k c : Nat)
  | sweepDrained (k : Nat)
  | sweepExpired (k c : Nat)
  | sweepFresh (k c : Nat)
  | sweepPing (k c : Nat) (pings : List (List UInt8)) (received : Nat)
  | sweepPingFailed (k c : Nat) (pings : List (List UInt8)) (received : Nat)
  | sweepPutClosed (k c : Nat)
  | sweepPut (k c : Nat)
  | sweepPutFull (k c : Nat)
  | sweepClose (k c : Nat)
  | sweepUncount (k c : Nat)
  | sweepEnd (k : Nat)
  -- `Close`
  | close
  | closeTake (c : Nat)
  | closeIdle (c : Nat)
  | closeUncount (c : Nat)
  | closeEnd
  deriving DecidableEq

def CallAt (s : Pool) (i : Nat) (place : Place) : Prop := At s.calls i fun call => call.place = place

def SweepAt (s : Pool) (k : Nat) (place : SweepPlace) (c : Nat) : Prop :=
  At s.sweeps k fun sweep => sweep.place = place ∧ sweep.batch.head? = some c

def Sends (s : Pool) (i : Nat) (request : Request) : Prop :=
  At s.calls i fun call =>
    request = ⟨some i, call.attempt, call.req⟩ ∧ call.req.length ≤ Frame.maxPayload.toNat

instance (s : Pool) (i : Nat) (place : Place) : Decidable (s.CallAt i place) := by unfold CallAt; infer_instance

instance (s : Pool) (k : Nat) (place : SweepPlace) (c : Nat) : Decidable (s.SweepAt k place c) := by
  unfold SweepAt; infer_instance

instance (s : Pool) (i : Nat) (request : Request) : Decidable (s.Sends i request) := by unfold Sends; infer_instance

def Enabled (s : Pool) : Action → Prop
  | .clock now => s.now ≤ now
  | .cancel i => i < s.calls.length
  | .start _ => True
  | .check i => s.CallAt i .checking
  | .takeCancelled i => At s.calls i fun call => call.place = .taking ∧ call.cancelled = true
  | .take i c => s.CallAt i .taking ∧ s.idle.head? = some c
  | .noneIdle i => (At s.calls i fun call => call.place = .taking ∧ call.cancelled = false) ∧ s.idle = []
  | .lock i => s.CallAt i .locking
  | .dialed i => s.CallAt i .dialing
  | .dialFailed i => s.CallAt i .dialing
  | .undial i => s.CallAt i .undialing
  | .send i c request =>
      s.CallAt i (.sending c) ∧ s.Sends i request ∧ At s.conns c fun conn => conn.closed = false
  | .sendFailed i c delivered => s.CallAt i (.sending c) ∧ ∀ request ∈ delivered, s.Sends i request
  | .receive i c number => s.CallAt i (.receiving c) ∧ At s.conns c fun conn => conn.received = number
  | .receiveFailed i c => s.CallAt i (.receiving c)
  | .releaseClosed i c resp => s.CallAt i (.releasing c resp) ∧ s.closed = true
  | .releaseIdle i c resp => s.CallAt i (.releasing c resp) ∧ ¬ s.Full
  | .releaseFull i c resp => s.CallAt i (.releasing c resp) ∧ s.closed = false ∧ s.Full
  | .closeConn i c outcome => s.CallAt i (.closing c outcome)
  | .uncount i c outcome => s.CallAt i (.uncounting c outcome)
  | .wake i => s.CallAt i .sleeping
  | .wakeCancelled i => At s.calls i fun call => call.place = .sleeping ∧ call.cancelled = true
  | .wakeClosed i => s.CallAt i .sleeping ∧ s.closed = true
  | .sweep => True
  | .sweepCheck k => At s.sweeps k fun sweep => sweep.place = .checking
  | .sweepTake k c => (At s.sweeps k fun sweep => sweep.place = .draining) ∧ s.idle.head? = some c
  | .sweepDrained k => (At s.sweeps k fun sweep => sweep.place = .draining) ∧ s.idle = []
  | .sweepExpired k c => s.SweepAt k .visiting c ∧ At s.conns c fun conn => s.expired conn
  | .sweepFresh k c => s.SweepAt k .visiting c ∧ At s.conns c fun conn => ¬ s.expired conn ∧ ¬ s.pingDue conn
  | .sweepPing k c _ _ => s.SweepAt k .visiting c ∧ At s.conns c fun conn => ¬ s.expired conn ∧ s.pingDue conn
  | .sweepPingFailed k c _ _ => s.SweepAt k .visiting c ∧ At s.conns c fun conn => ¬ s.expired conn ∧ s.pingDue conn
  | .sweepPutClosed k c => s.SweepAt k .putting c ∧ s.closed = true
  | .sweepPut k c => s.SweepAt k .putting c ∧ ¬ s.Full
  | .sweepPutFull k c => s.SweepAt k .putting c ∧ s.closed = false ∧ s.Full
  | .sweepClose k c => s.SweepAt k .closing c
  | .sweepUncount k c => s.SweepAt k .uncounting c
  | .sweepEnd k => At s.sweeps k fun sweep => sweep.place = .visiting ∧ sweep.batch = []
  | .close => s.closer = .waiting
  | .closeTake c => s.closer = .draining ∧ s.idle.head? = some c
  | .closeIdle c => s.closer = .closing c
  | .closeUncount c => s.closer = .uncounting c
  | .closeEnd => s.closer = .draining ∧ s.idle = []

def next (s : Pool) : Action → Pool
  | .clock now => { s with now := now }
  | .cancel i => { s with calls := s.calls.modify i fun call => { call with cancelled := true } }
  | .start req => { s with calls := s.calls ++ [Call.start s.opts req] }
  | .check i => if s.closed then s.conclude i (.error .closed) else s.setPlace i .taking
  | .takeCancelled i => s.conclude i (.error .context)
  | .take i c => { s with idle := s.idle.tail }.setPlace i (.sending c)
  | .noneIdle i => s.setPlace i .locking
  | .lock i =>
      if s.closed then s.conclude i (.error .closed)
      else if s.opts.maxSize ≤ s.total then s.setPlace i (.returned (.error .poolExhausted))
      else { s with total := s.total + 1 }.setPlace i .dialing
  | .dialed i => { s with conns := s.conns ++ [({ lastUsed := s.now } : Conn)] }.setPlace i (.sending s.conns.length)
  | .dialFailed i => s.setPlace i .undialing
  | .undial i => { s with total := s.total - 1 }.conclude i (.error .transport)
  | .send i c request => (s.write c request).setPlace i (.receiving c)
  | .sendFailed i c none => s.setPlace i (.closing c (.error .transport))
  | .sendFailed i c (some request) => (s.write c request).setPlace i (.closing c (.error .transport))
  | .receive i c number =>
      (s.setConn c fun conn => { conn with received := conn.received + 1 }).setPlace i (.releasing c ⟨c, number⟩)
  | .receiveFailed i c => s.setPlace i (.closing c (.error .transport))
  | .releaseClosed i c resp => (s.use c).setPlace i (.closing c (.ok resp))
  | .releaseIdle i c resp => { s.use c with idle := s.idle ++ [c] }.conclude i (.ok resp)
  | .releaseFull i c resp => (s.use c).setPlace i (.closing c (.ok resp))
  | .closeConn i c outcome => (s.shut c).setPlace i (.uncounting c outcome)
  | .uncount i _ outcome => { s with total := s.total - 1 }.conclude i outcome
  | .wake i => s.setPlace i .checking
  | .wakeCancelled i => s.setPlace i (.returned (.error .context))
  | .wakeClosed i => s.setPlace i (.returned (.error .closed))
  | .sweep => { s with sweeps := s.sweeps ++ [{}] }
  | .sweepCheck k => s.setSweep k fun sweep => { sweep with place := if s.closed then .returned else .draining }
  | .sweepTake k c =>
      { s with idle := s.idle.tail }.setSweep k fun sweep => { sweep with batch := sweep.batch ++ [c] }
  | .sweepDrained k => s.setSweep k fun sweep => { sweep with place := .visiting }
  | .sweepExpired k _ => s.setSweep k fun sweep => { sweep with place := .closing }
  | .sweepFresh k _ => s.setSweep k fun sweep => { sweep with place := .putting }
  | .sweepPing k c pings received =>
      (s.setConn c fun conn => { conn with
        sent := conn.sent ++ pings.map fun payload => { caller := none, payload := payload }
        received := received
        lastPinged := some s.now }).setSweep k fun sweep => { sweep with place := .putting }
  | .sweepPingFailed k c pings received =>
      (s.setConn c fun conn => { conn with
        sent := conn.sent ++ pings.map fun payload => { caller := none, payload := payload }
        received := received }).setSweep k fun sweep => { sweep with place := .closing }
  | .sweepPutClosed k _ => s.setSweep k fun sweep => { sweep with place := .closing }
  | .sweepPut k c => { s with idle := s.idle ++ [c] }.leave k
  | .sweepPutFull k _ => s.setSweep k fun sweep => { sweep with place := .closing }
  | .sweepClose k c => (s.shut c).setSweep k fun sweep => { sweep with place := .uncounting }
  | .sweepUncount k _ => { s with total := s.total - 1 }.leave k
  | .sweepEnd k => s.setSweep k fun sweep => { sweep with place := .returned }
  | .close => { s with closed := true, closer := .draining }
  | .closeTake c => { s with idle := s.idle.tail, closer := .closing c }
  | .closeIdle c => { s.shut c with closer := .uncounting c }
  | .closeUncount _ => { s with total := s.total - 1, closer := .draining }
  | .closeEnd => { s with closer := .returned }

def machine : Machine Pool Action where
  Enabled := Enabled
  next := next
  decideEnabled s a := by
    cases a <;> unfold Enabled <;> infer_instance

attribute [grind] setPlace conclude setConn write use shut setSweep leave expired lastActivity pingDue Full CallAt
  SweepAt Sends Enabled next

end Pool

attribute [grind] Call.start Call.conclude

end Skygo.Tcpsync
