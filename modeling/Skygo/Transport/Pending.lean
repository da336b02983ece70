import Mathlib.Data.List.AList
import Skygo.Transport.Inbound
import Skygo.Transport.Peer

/-! The requests that wait for a response on one outbound connection: `addPending`, `enqueue`,
`removePending`, `complete`, and what `close` does with those that are left.

A request is one call of `Node.request` or one round of `FlushOutgoing`, and its number also names
its channel. The enqueueing and the rest of `close` are those of `Peer`, whose step `respond` is the
part of `close` that is spelled out here.
-/

set_option autoImplicit false

namespace Skygo.Transport

open Semantics

inductive PeerResult where
  | envelope (e : Envelope)
  | err (fault : Fault)
  deriving DecidableEq

inductive RequestPlace where
  | adding
  | ready
  | enqueueing
  /-- `enqueue` returned an error. -/
  | failed
  | waiting
  /-- Its context or the peer is done. -/
  | leaving
  | returned
  deriving DecidableEq

structure Request where
  /-- With its request ID. -/
  envelope : Envelope
  /-- A round of `FlushOutgoing`, which does not look at `p.done`. -/
  flush : Bool
  place : RequestPlace := .adding
  /-- The call of `enqueue`. -/
  call : Option Nat := none
  /-- What was sent to `response`, a channel of capacity one, and how much of it was received. -/
  sent : List PeerResult := []
  received : Nat := 0
  /-- `removePending` ran. -/
  withdrawn : Bool := false
  deriving DecidableEq

def Request.id (request : Request) : Nat := request.envelope.requestID

def Request.room (request : Request) : Bool := request.sent.length < request.received + 1

inductive CompletionPlace where
  /-- A PONG is only completed if it is waited for. -/
  | looking
  | taking
  | sending (k : Nat)
  | done
  deriving DecidableEq

def CompletionPlace.first (e : Envelope) : CompletionPlace := if e.kind = .pong then .looking else .taking

structure Completion where
  envelope : Envelope
  place : CompletionPlace
  deriving DecidableEq

structure Pending where
  peer : Peer Envelope
  /-- `n.nextRequest`. -/
  nextRequest : Nat := 0
  requests : List Request := []
  pending : AList fun _ : Nat => Nat := ∅
  completions : List Completion := []
  /-- What `close` took out of `p.pending` and has not answered. -/
  swapped : Option (AList fun _ : Nat => Nat) := none

namespace Pending

def setRequest (s : Pending) (k : Nat) (f : Request → Request) : Pending :=
  { s with requests := s.requests.modify k f }

def setPlace (s : Pending) (k : Nat) (place : RequestPlace) : Pending :=
  s.setRequest k fun request => { request with place := place }

def setCompletion (s : Pending) (i : Nat) (place : CompletionPlace) : Pending :=
  { s with completions := s.completions.modify i fun completion => { completion with place := place } }

def send (s : Pending) (k : Nat) (result : PeerResult) : Pending :=
  s.setRequest k fun request => { request with sent := request.sent ++ [result] }

def addPending (s : Pending) (k : Nat) (request : Request) : Pending :=
  { s.setPlace k .ready with pending := s.pending.insert request.id k }

def enqueue (s : Pending) (k : Nat) (request : Request) : Pending :=
  { s.setRequest k fun request => { request with place := .enqueueing, call := some s.peer.calls.length } with
    peer := s.peer.next (.enqueue { message := request.envelope, notify := false } false) }

/-- `removePending`, and the request is over. -/
def removePending (s : Pending) (k : Nat) (request : Request) : Pending :=
  { s.setRequest k fun request => { request with place := .returned, withdrawn := true } with
    pending := s.pending.erase request.id }

/-- `complete` up to the send. -/
def take (s : Pending) (i : Nat) (completion : Completion) : Pending :=
  match s.pending.lookup completion.envelope.requestID with
  | some k => { s.setCompletion i (.sending k) with pending := s.pending.erase completion.envelope.requestID }
  | none => s.setCompletion i .done

inductive Action where
  | peer (a : Peer.Action Envelope)
  /-- Somebody else takes a request ID. -/
  | draw
  | request (e : Envelope) (flush : Bool)
  | addPending (k : Nat)
  | enqueue (k : Nat)
  | enqueued (k i : Nat) (result : Option Fault)
  | receive (k : Nat)
  | contextDone (k : Nat)
  | peerDone (k : Nat)
  | removePending (k : Nat)
  | read (e : Envelope)
  | look (i : Nat)
  | take (i : Nat)
  | deliver (i k : Nat)
  | swap
  | fail (id k : Nat)
  deriving DecidableEq

def Enabled (s : Pending) : Action → Prop
  -- `close` goes on when it has answered everybody
  | .peer a => s.peer.Enabled a ∧ (a = .respond → s.swapped.map AList.entries = some [])
  | .draw => True
  | .request _ _ => True
  | .addPending k => At s.requests k fun request => request.place = .adding
  | .enqueue k => At s.requests k fun request => request.place = .ready
  | .enqueued k i result =>
      At s.requests k (fun request => request.place = .enqueueing ∧ request.call = some i) ∧
        At s.peer.calls i fun call => call.place = .returned result
  | .receive k => At s.requests k fun request => request.place = .waiting ∧ request.received < request.sent.length
  | .contextDone k => At s.requests k fun request => request.place = .waiting
  -- `FlushOutgoing` waits for its PONG or its context only
  | .peerDone k => At s.requests k (fun request => request.place = .waiting ∧ request.flush = false) ∧
      s.peer.isClosed = true
  | .removePending k => At s.requests k fun request => request.place = .failed ∨ request.place = .leaving
  | .read e => e.kind = .response ∨ e.kind = .resolveResponse ∨ e.kind = .pong
  | .look i => At s.completions i fun completion => completion.place = .looking
  | .take i => At s.completions i fun completion => completion.place = .taking
  | .deliver i k => At s.completions i (fun completion => completion.place = .sending k) ∧
      At s.requests k fun request => request.room = true
  -- `enqueueWG.Wait` has returned
  | .swap => s.peer.closing = .waited ∧ s.swapped = none
  -- the range goes through the map in any order
  | .fail id k => (s.swapped.bind fun swapped => swapped.lookup id) = some k ∧
      At s.requests k fun request => request.room = true

def next (s : Pending) : Action → Pending
  | .peer a => { s with peer := s.peer.next a }
  | .draw => { s with nextRequest := s.nextRequest + 1 }
  | .request e flush =>
      { s with
        nextRequest := s.nextRequest + 1
        requests := s.requests ++ [{ envelope := { e with requestID := s.nextRequest + 1 }, flush := flush }] }
  | .addPending k =>
    match s.requests[k]? with
    | some request => s.addPending k request
    | none => s
  | .enqueue k =>
    match s.requests[k]? with
    | some request => s.enqueue k request
    | none => s
  | .enqueued k _ result => s.setPlace k (if result = none then .waiting else .failed)
  | .receive k => s.setRequest k fun request => { request with place := .returned, received := request.received + 1 }
  | .contextDone k => s.setPlace k .leaving
  | .peerDone k => s.setPlace k .leaving
  | .removePending k =>
    match s.requests[k]? with
    | some request => s.removePending k request
    | none => s
  | .read e => { s with completions := s.completions ++ [⟨e, .first e⟩] }
  | .look i =>
    match s.completions[i]? with
    | some completion =>
        if (s.pending.lookup completion.envelope.requestID).isSome then s.setCompletion i .taking
        else s.setCompletion i .done
    | none => s
  | .take i =>
    match s.completions[i]? with
    | some completion => s.take i completion
    | none => s
  | .deliver i k =>
    match s.completions[i]? with
    | some completion => (s.setCompletion i .done).send k (.envelope completion.envelope)
    | none => s
  | .swap => { s with swapped := some s.pending, pending := ∅ }
  | .fail id k =>
      { s.send k (.err .remoteUnavailable) with swapped := s.swapped.map fun swapped => swapped.erase id }

attribute [grind] Enabled next setRequest setPlace setCompletion send addPending enqueue removePending take Request.id
  CompletionPlace.first

def machine : Machine Pending Action where
  Enabled := Enabled
  next := next
  decideEnabled s a := by
    cases a with
    | peer a =>
      haveI := (Peer.machine (M := Envelope)).decideEnabled s.peer a
      exact inferInstanceAs (Decidable ((Peer.machine.Enabled s.peer a) ∧ (a = .respond → s.swapped.map AList.entries = some [])))
    | _ => unfold Enabled; infer_instance

def initial (sendQueue : Nat) : Pending where
  peer := { sendQueue := sendQueue }

end Pending

end Skygo.Transport
