import Mathlib.Data.List.Basic
import Skygo.Semantics.Machine
import Skygo.Semantics.Table

/-! One outbound connection: the calls of `enqueue`, the write loop and `close`.

An item is known by the call of `enqueue` that carries it. The steps are those at which the
goroutines synchronize: the mutex and the wait group of `enqueue`, the channels, the socket and
the `Once` of `close`. Any goroutine may call `close` at any time, as the read loop does.
-/

set_option autoImplicit false

namespace Skygo.Transport

open Semantics

structure Outbound (M : Type) where
  message : M
  notify : Bool
  deriving DecidableEq

inductive Fault where
  | remoteUnavailable
  | contextDone
  | transportBackpressure
  deriving DecidableEq

inductive Place where
  | called
  | selecting
  | leaving (result : Option Fault)
  | returned (result : Option Fault)
  deriving DecidableEq

def Place.inside : Place → Bool
  | .selecting => true
  | .leaving _ => true
  | _ => false

def Place.accepted : Place → Bool
  | .leaving none => true
  | .returned none => true
  | _ => false

structure Enqueue (M : Type) where
  item : Outbound M
  nonBlocking : Bool
  place : Place := .called
  deriving DecidableEq

inductive Frame (M : Type) where
  | item (i : Nat)
  | control (message : M)
  | ping
  deriving DecidableEq

def Frame.item? {M : Type} : Frame M → Option Nat
  | .item i => some i
  | _ => none

/-- Where the write loop is. After a frame it took in its first select it goes on to the second. -/
inductive WriteLoop (M : Type) where
  | first
  | second
  | writing (frame : Frame M) (early : Bool)
  | failed (frame : Frame M)
  | closing
  | exited
  deriving DecidableEq

def WriteLoop.isWriting {M : Type} : WriteLoop M → Bool
  | .writing _ _ => true
  | _ => false

def WriteLoop.hasFailed {M : Type} : WriteLoop M → Bool
  | .failed _ => true
  | _ => false

inductive Closing where
  | idle
  | marked
  | disconnected
  | waited
  | responded
  | draining (hand : Option Nat)
  | finished
  deriving DecidableEq

def Closing.holds : Closing → Bool
  | .draining (some _) => true
  | _ => false

structure Peer (M : Type) where
  sendQueue : Nat
  calls : List (Enqueue M) := []
  send : List Nat := []
  control : List M := []
  loop : WriteLoop M := .first
  closing : Closing := .idle
  /-- The calls of `close`, and whether they returned. -/
  closers : List Bool := []
  /-- The items in the order in which the queue took them. -/
  accepted : List Nat := []
  /-- The items in the order in which they left the queue. -/
  taken : List Nat := []
  written : List (Frame M) := []
  /-- The notifications that `reportSendFailure` reported. -/
  reports : List Nat := []
  /-- The other items it was given. -/
  dropped : List Nat := []
  deriving DecidableEq

namespace Peer

variable {M : Type}

/-- `close(p.done)` and `enqueueClosed`, which are one step for everyone else. -/
def isClosed (p : Peer M) : Bool := p.closing ≠ .idle

def connected (p : Peer M) : Bool := p.closing = .idle || p.closing = .marked

def setPlace (p : Peer M) (i : Nat) (place : Place) : Peer M :=
  { p with calls := p.calls.modify i fun call => { call with place := place } }

/-- `reportSendFailure` of an item. -/
def reportSendFailure (p : Peer M) (i : Nat) : Peer M :=
  if At p.calls i (fun call => call.item.notify = true) then { p with reports := p.reports ++ [i] }
  else { p with dropped := p.dropped ++ [i] }

inductive Action (M : Type) where
  | enqueue (item : Outbound M) (nonBlocking : Bool)
  | beginEnqueue (i : Nat)
  | push (i : Nat)
  | unavailable (i : Nat)
  | contextDone (i : Nat)
  | full (i : Nat)
  | leave (i : Nat)
  | enqueueControl (message : M)
  | noControl
  | takeControl
  | takeSend
  | tick
  | idle
  | seeDone
  | written
  | failed
  | report
  | loopClosed
  | close
  | mark
  | disconnect
  | wait
  | respond
  | drain
  | drainOne
  | drainReport
  | finish
  | closeReturn (j : Nat)
  deriving DecidableEq

def Enabled (p : Peer M) : Action M → Prop
  | .enqueue _ _ => True
  | .beginEnqueue i => At p.calls i fun call => call.place = .called
  | .push i => At p.calls i (fun call => call.place = .selecting) ∧ p.send.length < p.sendQueue
  | .unavailable i => At p.calls i (fun call => call.place = .selecting) ∧ p.isClosed = true
  | .contextDone i => At p.calls i fun call => call.place = .selecting ∧ call.nonBlocking = false
  -- a select takes its default only when no other case is ready
  | .full i => At p.calls i (fun call => call.place = .selecting ∧ call.nonBlocking = true) ∧
      p.isClosed = false ∧ p.sendQueue ≤ p.send.length
  | .leave i => At p.calls i fun call => call.place.inside = true ∧ call.place ≠ .selecting
  | .enqueueControl _ => p.control.length < 32
  | .noControl => p.loop = .first ∧ p.control = []
  | .takeControl => (p.loop = .first ∨ p.loop = .second) ∧ p.control ≠ []
  | .takeSend => p.loop = .second ∧ p.send ≠ []
  | .tick => p.loop = .second
  | .idle => p.loop = .second
  | .seeDone => p.loop = .second ∧ p.isClosed = true
  | .written => p.connected = true ∧ p.loop.isWriting = true
  | .failed => p.loop.isWriting = true
  | .report => p.loop.hasFailed = true
  | .loopClosed => p.loop = .closing ∧ p.closing = .finished
  | .close => True
  | .mark => p.closing = .idle ∧ (false ∈ p.closers ∨ p.loop = .closing)
  | .disconnect => p.closing = .marked
  | .wait => p.closing = .disconnected ∧ ∀ call ∈ p.calls, call.place.inside = false
  | .respond => p.closing = .waited
  | .drain => p.closing = .responded
  | .drainOne => p.closing = .draining none ∧ p.send ≠ []
  | .drainReport => p.closing.holds = true
  | .finish => p.closing = .draining none ∧ p.send = []
  | .closeReturn j => p.closing = .finished ∧ p.closers[j]? = some false

def next (p : Peer M) : Action M → Peer M
  | .enqueue item nonBlocking => { p with calls := p.calls ++ [{ item := item, nonBlocking := nonBlocking }] }
  | .beginEnqueue i =>
      if p.isClosed then p.setPlace i (.returned (some .remoteUnavailable)) else p.setPlace i .selecting
  | .push i => { p.setPlace i (.leaving none) with send := p.send ++ [i], accepted := p.accepted ++ [i] }
  | .unavailable i => p.setPlace i (.leaving (some .remoteUnavailable))
  | .contextDone i => p.setPlace i (.leaving (some .contextDone))
  | .full i => p.setPlace i (.leaving (some .transportBackpressure))
  | .leave i =>
      { p with calls := p.calls.modify i fun call =>
          match call.place with
          | .leaving result => { call with place := .returned result }
          | _ => call }
  | .enqueueControl message => { p with control := p.control ++ [message] }
  | .noControl => { p with loop := .second }
  | .takeControl =>
      match p.control with
      | message :: rest => { p with control := rest, loop := .writing (.control message) (p.loop matches .first) }
      | [] => p
  | .takeSend =>
      match p.send with
      | i :: rest => { p with send := rest, taken := p.taken ++ [i], loop := .writing (.item i) false }
      | [] => p
  | .tick => { p with loop := .writing .ping false }
  | .idle => { p with loop := .closing }
  | .seeDone => { p with loop := .exited }
  | .written =>
      match p.loop with
      | .writing frame early =>
          { p with written := p.written ++ [frame], loop := if early then .second else .first }
      | _ => p
  | .failed =>
      match p.loop with
      | .writing frame _ => { p with loop := .failed frame }
      | _ => p
  | .report =>
      match p.loop with
      | .failed (.item i) => { p.reportSendFailure i with loop := .closing }
      | _ => { p with loop := .closing }
  | .loopClosed => { p with loop := .exited }
  | .close => { p with closers := p.closers ++ [false] }
  | .mark => { p with closing := .marked }
  | .disconnect => { p with closing := .disconnected }
  | .wait => { p with closing := .waited }
  | .respond => { p with closing := .responded }
  | .drain => { p with closing := .draining none }
  | .drainOne =>
      match p.send with
      | i :: rest => { p with send := rest, taken := p.taken ++ [i], closing := .draining (some i) }
      | [] => p
  | .drainReport =>
      match p.closing with
      | .draining (some i) => { p.reportSendFailure i with closing := .draining none }
      | _ => p
  | .finish => { p with closing := .finished }
  | .closeReturn j => { p with closers := p.closers.modify j fun _ => true }

attribute [grind] Enabled next setPlace reportSendFailure isClosed connected Place.inside Place.accepted Frame.item?
  WriteLoop.isWriting WriteLoop.hasFailed Closing.holds

def machine [DecidableEq M] : Machine (Peer M) (Action M) where
  Enabled := Enabled
  next := next
  decideEnabled p a := by
    cases a <;> unfold Enabled <;> infer_instance

end Peer

end Skygo.Transport
