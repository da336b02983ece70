import Mathlib.Data.List.Basic
import Skygo.Semantics.Machine
import Skygo.Semantics.Table

/-! The connection pool: the goroutines of each slot, the calls of `Send` and the calls of `Close`.

A slot is worked on by its `lifecycle`, its `sendLoop` and whoever sends or stops. The steps are those at
which they synchronize: the lock of the slot with its condition variable, the channels `stopped` and
`sendCh`, the `Once` of `stop`, and the calls of the dialer and of the callbacks. A connection of a slot is
known by the order of its dials. Left out are panics, the lengths of the delays, keepalive and the choice of
the slot that `Send` makes.
-/

set_option autoImplicit false

namespace Skygo.Tcppool

open Semantics

structure Options where
  poolSize : Int
  sendBufSize : Int
  deriving DecidableEq

def Options.setDefaults (o : Options) : Options where
  poolSize := if o.poolSize ≤ 0 then 1 else o.poolSize
  sendBufSize := if o.sendBufSize ≤ 0 then 128 else o.sendBufSize

structure Conn where
  closed : Bool := false
  deriving DecidableEq

inductive Lifecycle where
  /-- The select at the top of the loop. -/
  | checking
  | dialing
  | preReady (c : Nat)
  | installing (c : Nat)
  /-- Past the lock, at the branch on `readFn`. -/
  | connected (c : Nat)
  | reading (c : Nat)
  /-- A send-only pool waits for shutdown. -/
  | waiting (c : Nat)
  /-- After `readFn`. -/
  | clearing (c : Nat)
  | closing (c : Nat)
  | onClose
  /-- The select after `OnClose`. -/
  | leaving
  | backoff
  | returned
  deriving DecidableEq

inductive SendLoop (D : Type) where
  | selecting
  /-- `waitConn` is about to look, or sleeps on the condition variable. -/
  | waitConn (data : D)
  | sleeping (data : D)
  | writing (c : Nat) (data : D)
  | breaking (c : Nat)
  | returned
  deriving DecidableEq

inductive SendPlace where
  | checking
  | selecting
  | returned (ok : Bool)
  deriving DecidableEq

structure SendCall (D : Type) where
  data : D
  place : SendPlace := .checking
  deriving DecidableEq

inductive Once where
  | unused | running | done
  deriving DecidableEq

structure Slot (D : Type) where
  conns : List Conn := []
  conn : Option Nat := none
  stopped : Bool := false
  once : Once := .unused
  sendCh : List D := []
  lifecycle : Lifecycle := .checking
  sendLoop : SendLoop D := .selecting
  sends : List (SendCall D) := []
  deriving DecidableEq

inductive Closer where
  | calling (i : Nat)
  /-- In the body of `stop`, with the channel closed. -/
  | stopping (i : Nat)
  | returned
  deriving DecidableEq

/-- The read-only part of `Pool`. -/
structure Config where
  /-- `readFn` was given. -/
  readFn : Bool
  sendBufSize : Nat
  deriving DecidableEq

structure Pool (D : Type) where
  config : Config
  slots : List (Slot D)
  closers : List Closer := []
  deriving DecidableEq

namespace Slot

variable {D : Type}

def broadcast (s : Slot D) : Slot D :=
  { s with sendLoop := match s.sendLoop with
      | .sleeping data => .waitConn data
      | place => place }

def closeConn (s : Slot D) (c : Nat) : Slot D :=
  { s with conns := s.conns.modify c fun conn => { conn with closed := true } }

def stop (s : Slot D) : Slot D := { s with stopped := true, once := .running }

def disconnect (s : Slot D) : Slot D :=
  match s.conn with
  | some c => { (s.closeConn c).broadcast with conn := none, once := .done }
  | none => { s.broadcast with once := .done }

def breakConn (s : Slot D) (c : Nat) : Slot D :=
  if s.conn = some c then { (s.closeConn c).broadcast with conn := none } else s

def waitConn (s : Slot D) (data : D) : SendLoop D :=
  if s.stopped then .returned
  else
    match s.conn with
    | some c => .writing c data
    | none => .sleeping data

def setSend (s : Slot D) (m : Nat) (place : SendPlace) : Slot D :=
  { s with sends := s.sends.modify m fun call => { call with place := place } }

inductive Action (D : Type) where
  | check
  | dial
  | dialFailed
  | ready (c : Nat)
  | install (c : Nat)
  | serve (c : Nat)
  | readFnReturned (c : Nat)
  | seeStopped
  | clear (c : Nat)
  | close (c : Nat)
  | onCloseReturned
  | leave
  | wake
  | wakeStopped
  | take (data : D)
  | takeStopped
  | look (data : D)
  | written
  | writeFailed (c : Nat)
  | breakConn (c : Nat)
  | send (data : D)
  | sendCheck (m : Nat)
  | sendStopped (m : Nat)
  | sendPush (m : Nat) (data : D)
  | sendFull (m : Nat)
  deriving DecidableEq

def isWaiting (s : Slot D) : Bool :=
  match s.lifecycle with
  | .waiting _ => true
  | _ => false

def isWriting (s : Slot D) : Bool :=
  match s.sendLoop with
  | .writing _ _ => true
  | _ => false

def WritesTo (s : Slot D) (c : Nat) : Prop :=
  match s.sendLoop with
  | .writing c' _ => c' = c
  | _ => False

instance (s : Slot D) (c : Nat) : Decidable (s.WritesTo c) := by
  unfold WritesTo
  split <;> infer_instance

def Enabled (config : Config) (s : Slot D) : Action D → Prop
  | .check => s.lifecycle = .checking
  | .dial | .dialFailed => s.lifecycle = .dialing
  | .ready c => s.lifecycle = .preReady c
  | .install c => s.lifecycle = .installing c
  | .serve c => s.lifecycle = .connected c
  | .readFnReturned c => s.lifecycle = .reading c
  | .seeStopped => s.isWaiting = true ∧ s.stopped = true
  | .clear c => s.lifecycle = .clearing c
  | .close c => s.lifecycle = .closing c
  | .onCloseReturned => s.lifecycle = .onClose
  | .leave => s.lifecycle = .leaving
  | .wake => s.lifecycle = .backoff
  | .wakeStopped => s.lifecycle = .backoff ∧ s.stopped = true
  | .take data => s.sendLoop = .selecting ∧ s.sendCh.head? = some data
  -- ready together with `take`, whatever is in the channel
  | .takeStopped => s.sendLoop = .selecting ∧ s.stopped = true
  | .look data => s.sendLoop = .waitConn data
  | .written => s.isWriting = true
  | .writeFailed c => s.WritesTo c
  | .breakConn c => s.sendLoop = .breaking c
  | .send _ => True
  | .sendCheck m => At s.sends m fun call => call.place = .checking
  | .sendStopped m => At s.sends m (fun call => call.place = .selecting) ∧ s.stopped = true
  | .sendPush m data => At s.sends m (fun call => call.place = .selecting ∧ call.data = data) ∧
      s.sendCh.length < config.sendBufSize
  -- a select takes its default only when no other case is ready
  | .sendFull m => At s.sends m (fun call => call.place = .selecting) ∧ s.stopped = false ∧
      config.sendBufSize ≤ s.sendCh.length

def next (config : Config) (s : Slot D) : Action D → Slot D
  | .check => { s with lifecycle := if s.stopped then .returned else .dialing }
  | .dial => { s with conns := s.conns ++ [{}], lifecycle := .preReady s.conns.length }
  | .dialFailed => { s with lifecycle := .backoff }
  | .ready c => { s with lifecycle := .installing c }
  -- `stopped` may have been closed since the dial and is not looked at again
  | .install c => { s.broadcast with conn := some c, lifecycle := .connected c }
  | .serve c => { s with lifecycle := if config.readFn then .reading c else .waiting c }
  | .readFnReturned c => { s with lifecycle := .clearing c }
  -- it returns without a look at the connection
  | .seeStopped => { s with lifecycle := .returned }
  | .clear c =>
      if s.conn = some c then { s.broadcast with conn := none, lifecycle := .closing c }
      else { s with lifecycle := .closing c }
  | .close c => { s.closeConn c with lifecycle := .onClose }
  | .onCloseReturned => { s with lifecycle := .leaving }
  | .leave => { s with lifecycle := if s.stopped then .returned else .backoff }
  | .wake => { s with lifecycle := .checking }
  | .wakeStopped => { s with lifecycle := .returned }
  | .take data => { s with sendCh := s.sendCh.tail, sendLoop := .waitConn data }
  | .takeStopped => { s with sendLoop := .returned }
  | .look data => { s with sendLoop := s.waitConn data }
  | .written => { s with sendLoop := .selecting }
  | .writeFailed c => { s with sendLoop := .breaking c }
  | .breakConn c => { s.breakConn c with sendLoop := .selecting }
  | .send data => { s with sends := s.sends ++ [{ data := data }] }
  | .sendCheck m => s.setSend m (if s.stopped then .returned false else .selecting)
  | .sendStopped m => s.setSend m (.returned false)
  | .sendPush m data => { s.setSend m (.returned true) with sendCh := s.sendCh ++ [data] }
  | .sendFull m => s.setSend m (.returned false)

instance [DecidableEq D] (config : Config) (s : Slot D) (a : Action D) : Decidable (Enabled config s a) := by
  cases a <;> unfold Enabled <;> infer_instance

attribute [grind] broadcast closeConn stop disconnect breakConn waitConn setSend isWaiting isWriting WritesTo Enabled
  next

end Slot

namespace Pool

variable {D : Type}

inductive Action (D : Type) where
  | slot (i : Nat) (a : Slot.Action D)
  | close
  | stop (k i : Nat)
  | disconnect (k i : Nat)
  /-- `once.Do` of a slot that was stopped. -/
  | pass (k i : Nat)
  | closed (k i : Nat)
  deriving DecidableEq

def setSlot (p : Pool D) (i : Nat) (f : Slot D → Slot D) : Pool D := { p with slots := p.slots.modify i f }

def setCloser (p : Pool D) (k : Nat) (place : Closer) : Pool D :=
  { p with closers := p.closers.modify k fun _ => place }

def Enabled (p : Pool D) : Action D → Prop
  | .slot i a => At p.slots i fun s => s.Enabled p.config a
  | .close => True
  | .stop k i => p.closers[k]? = some (.calling i) ∧ At p.slots i fun s => s.once = .unused
  | .disconnect k i => p.closers[k]? = some (.stopping i) ∧ At p.slots i fun s => s.once = .running
  | .pass k i => p.closers[k]? = some (.calling i) ∧ At p.slots i fun s => s.once = .done
  | .closed k i => p.closers[k]? = some (.calling i) ∧ p.slots.length ≤ i

def next (p : Pool D) : Action D → Pool D
  | .slot i a => p.setSlot i fun s => s.next p.config a
  | .close => { p with closers := p.closers ++ [.calling 0] }
  | .stop k i => (p.setSlot i .stop).setCloser k (.stopping i)
  | .disconnect k i => (p.setSlot i .disconnect).setCloser k (.calling (i + 1))
  | .pass k i => p.setCloser k (.calling (i + 1))
  | .closed k _ => p.setCloser k .returned

def machine (D : Type) [DecidableEq D] : Machine (Pool D) (Action D) where
  Enabled := Enabled
  next := next
  decideEnabled p a := by
    cases a <;> unfold Enabled <;> infer_instance

def new (D : Type) (readFn : Bool) (opts : Options) : Pool D where
  config := { readFn := readFn, sendBufSize := opts.setDefaults.sendBufSize.toNat }
  slots := List.replicate opts.setDefaults.poolSize.toNat {}

def connCount (p : Pool D) : Nat := p.slots.countP fun s => s.conn.isSome

attribute [grind] setSlot setCloser Enabled next

end Pool

end Skygo.Tcppool
