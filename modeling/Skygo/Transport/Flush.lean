import Skygo.Transport.NetworkSound
import Skygo.Transport.Node

/-! `Send`, `request` and `FlushOutgoing` of a node, over its connections to the other nodes.

The connections of the peer manager and those of the network are the same: a dial that succeeds adds a
peer to both, `close` marks it closed in both, and its end gives the slot back. `FlushOutgoing` takes a
snapshot of the slots, reads them one by one, and then sends a PING behind everything on each peer that
it found and waits for its PONG.
-/

set_option autoImplicit false

namespace Skygo.Transport

open Semantics

inductive Ask where
  | send (target : Target) (protocol : String) (nonBlocking : Bool)
  | call (target : Target) (protocol : String)
  | resolve (nodeID : String)
  deriving DecidableEq

namespace Ask

def node : Ask → String
  | .send target _ _ | .call target _ => target.node
  | .resolve nodeID => nodeID

def shard : Ask → Nat
  | .send target _ _ | .call target _ => target.address
  | .resolve _ => 0

def isSend : Ask → Bool
  | .send _ _ _ => true
  | _ => false

def agrees (remoteIncarnation : String) : Ask → Bool
  | .send target _ _ => target.incarnation = remoteIncarnation
  | .call target _ => target.incarnation = "" || target.incarnation = remoteIncarnation
  | .resolve _ => true

def nonBlocking : Ask → Bool
  | .send _ _ nonBlocking => nonBlocking
  | _ => false

/-- What is enqueued. Only a request has a number. -/
def outbound (nodeID : String) (requestID : Nat) : Ask → Outbound Envelope
  | .send target protocol _ =>
      { message := { kind := .send, sourceNode := nodeID, target := some target, protocol := protocol }, notify := true }
  | .call target protocol =>
      { message :=
          { kind := .call, requestID := requestID, sourceNode := nodeID, target := some target, protocol := protocol }
        notify := false }
  | .resolve _ =>
      { message := { kind := .resolveRequest, requestID := requestID, sourceNode := nodeID }, notify := false }

attribute [grind] node shard isSend agrees nonBlocking outbound

end Ask

/-- Where a call is, up to the return of `enqueue`. `returned` has the peer and the number of the item that was
enqueued, or none if the call failed. -/
inductive PostPlace where
  | finding
  | enqueuing (k i : Nat)
  | returned (sent : Option (Nat × Nat))
  deriving DecidableEq

structure Post where
  ask : Ask
  /-- Its call of `peerFor`. -/
  find : Nat
  place : PostPlace := .finding
  deriving DecidableEq

def Post.sent (post : Post) : Option (Nat × Nat) :=
  match post.place with
  | .returned sent => if post.ask.isSend then sent else none
  | _ => none

/-- Where `FlushOutgoing` is: the slots it has yet to read, and the peers it has yet to ask. `enqueuing` and `waiting`
have the peer, the number of the PING among its items and the request ID. -/
inductive FlushPlace where
  | called
  | reading (todo peers : List Nat)
  | enqueuing (k i id : Nat) (peers : List Nat)
  | waiting (k i id : Nat) (peers : List Nat)
  | returned (ok : Bool)
  deriving DecidableEq

/-- `sends` are the notifications for which `Send` had returned nil at the call; it is history. -/
structure Flush where
  sends : List (Nat × Nat)
  place : FlushPlace := .called
  deriving DecidableEq

/-- `close` has taken the pending requests and told them that the peer is gone. -/
def Closing.answered : Closing → Bool
  | .responded | .draining _ | .finished => true
  | .idle | .marked | .disconnected | .waited => false

def Node.attached (s : Node) : List Nat :=
  (List.range s.slots.length).filter fun j => At s.slots j fun slot => j ∈ s.manager slot.node

structure Outgoing where
  node : Node
  net : Network
  nextRequest : Nat := 0
  posts : List Post := []
  flushes : List Flush := []

namespace Outgoing

def barrierPing (nodeID : String) (id : Nat) : Outbound Envelope :=
  { message := { kind := .ping, requestID := id, sourceNode := nodeID, protocol := admissionBarrierProtocol }
    notify := false }

def setPost (s : Outgoing) (x : Nat) (place : PostPlace) : Outgoing :=
  { s with posts := s.posts.modify x fun post => { post with place := place } }

def setFlush (s : Outgoing) (g : Nat) (place : FlushPlace) : Outgoing :=
  { s with flushes := s.flushes.modify g fun flush => { flush with place := place } }

def enqueue (s : Outgoing) (k : Nat) (item : Outbound Envelope) (nonBlocking : Bool) : Outgoing :=
  { s with net := s.net.next (.peer k (.enqueue item nonBlocking)) }

def fresh (s : Outgoing) (k : Nat) : Nat := ((s.net.links[k]?).map fun link => link.peer.calls.length).getD 0

def remoteIncarnation (s : Outgoing) (k : Nat) : String :=
  match s.net.links[k]? with
  | some link => ((s.net.nodes[link.node]?).map Inbound.incarnation).getD ""
  | none => ""

def sent (s : Outgoing) : List (Nat × Nat) := s.posts.filterMap Post.sent

def post (s : Outgoing) (x : Nat) (ask : Ask) : Option Nat → Outgoing
  | none => s.setPost x (.returned none)
  | some k =>
    if ask.agrees (s.remoteIncarnation k) = false then s.setPost x (.returned none)
    else
      let id := if ask.isSend then s.nextRequest else s.nextRequest + 1
      { (s.enqueue k (ask.outbound s.net.nodeID id) ask.nonBlocking).setPost x (.enqueuing k (s.fresh k)) with
        nextRequest := id }

def readSlot (s : Outgoing) (g j : Nat) (todo peers : List Nat) (slot : PeerSlot) : Outgoing :=
  match slot.peer with
  | some k => s.setFlush g (.reading (todo.erase j) (peers ++ [k]))
  | none =>
    if slot.everConnected then s.setFlush g (.returned false) else s.setFlush g (.reading (todo.erase j) peers)

inductive Action where
  | control (a : Node.Action)
  | net (a : Network.Action)
  | dial (a r c : Nat)
  | mark (k : Nat)
  | closed (k : Nat)
  | ask (ask : Ask)
  | found (x f : Nat) (peer : Option Nat)
  | enqueued (x k i : Nat) (result : Option Fault)
  | flush
  | snapshot (g : Nat)
  | readSlot (g j : Nat) (todo peers : List Nat)
  | ping (g k : Nat) (peers : List Nat)
  | pinged (g k i id : Nat) (peers : List Nat) (result : Option Fault)
  | pong (g k i id : Nat) (peers : List Nat) (protocol : String)
  | giveUp (g k i id : Nat) (peers : List Nat)
  | done (g : Nat)
  deriving DecidableEq

def ownStep : Node.Action → Bool
  | .peerFor _ _ | .dial _ true | .close _ | .peerClosed _ => false
  | _ => true

def farStep : Network.Action → Bool
  | .connect _ _ | .peer _ (.enqueue _ _) | .peer _ .mark | .peer _ .finish => false
  | _ => true

def PostAt (s : Outgoing) (x : Nat) (place : PostPlace) : Prop := At s.posts x fun post => post.place = place

def FlushAt (s : Outgoing) (g : Nat) (place : FlushPlace) : Prop := At s.flushes g fun flush => flush.place = place

/-- The peer has the answer to the request and has not been closed before. -/
def Answered (s : Outgoing) (k id : Nat) (protocol : String) : Prop :=
  At s.net.links k fun link => link.peer.closing.answered = false ∧
    At s.net.nodes link.node fun far => At far.conns link.conn fun conn => ⟨id, protocol⟩ ∈ conn.pongs

def EnqueueAt (s : Outgoing) (k i : Nat) (result : Option Fault) : Prop :=
  At s.net.links k fun link => At link.peer.calls i fun call => call.place = .returned result

instance (s : Outgoing) (x : Nat) (place : PostPlace) : Decidable (s.PostAt x place) :=
  inferInstanceAs (Decidable (At ..))
instance (s : Outgoing) (g : Nat) (place : FlushPlace) : Decidable (s.FlushAt g place) :=
  inferInstanceAs (Decidable (At ..))
instance (s : Outgoing) (k id : Nat) (protocol : String) : Decidable (s.Answered k id protocol) :=
  inferInstanceAs (Decidable (At ..))
instance (s : Outgoing) (k i : Nat) (result : Option Fault) : Decidable (s.EnqueueAt k i result) :=
  inferInstanceAs (Decidable (At ..))

def Enabled (s : Outgoing) : Action → Prop
  | .control a => ownStep a = true ∧ s.node.Enabled a
  | .net a => farStep a = true ∧ s.net.Enabled a
  -- the handshake checks that the right node has answered
  | .dial a r c => s.node.Enabled (.dial a true) ∧ s.net.Enabled (.connect r c) ∧
      At s.node.attempts a fun attempt => At s.net.nodes r fun far => far.nodeID = attempt.node
  | .mark k => s.node.Enabled (.close k) ∧ s.net.Enabled (.peer k .mark)
  | .closed k => s.node.Enabled (.peerClosed k) ∧ s.net.Enabled (.peer k .finish)
  | .ask ask => ask.node ≠ s.node.nodeID
  | .found x f peer => At s.posts x (fun post => post.place = .finding ∧ post.find = f) ∧
      s.node.FindAt f (.returned peer) ∧ ∀ k ∈ peer, k < s.net.links.length
  | .enqueued x k i result => s.PostAt x (.enqueuing k i) ∧ s.EnqueueAt k i result
  | .flush => True
  | .snapshot g => s.FlushAt g .called ∧ s.node.managerLocked = false
  | .readSlot g j todo peers => s.FlushAt g (.reading todo peers) ∧ j ∈ todo
  | .ping g k peers => s.FlushAt g (.reading [] (k :: peers)) ∧ k < s.net.links.length
  | .pinged g k i id peers result => s.FlushAt g (.enqueuing k i id peers) ∧ s.EnqueueAt k i result
  | .pong g k i id peers protocol => s.FlushAt g (.waiting k i id peers) ∧ s.Answered k id protocol
  -- the context ends, or the peer is closed
  | .giveUp g k i id peers => s.FlushAt g (.waiting k i id peers)
  | .done g => s.FlushAt g (.reading [] [])

def next (s : Outgoing) : Action → Outgoing
  | .control a => { s with node := s.node.next a }
  | .net a => { s with net := s.net.next a }
  | .dial a r c => { s with node := s.node.next (.dial a true), net := s.net.next (.connect r c) }
  | .mark k => { s with node := s.node.next (.close k), net := s.net.next (.peer k .mark) }
  | .closed k => { s with node := s.node.next (.peerClosed k), net := s.net.next (.peer k .finish) }
  | .ask ask =>
      { s with
        node := s.node.next (.peerFor ask.node ask.shard)
        posts := s.posts ++ [{ ask := ask, find := s.node.finds.length }] }
  | .found x _ peer =>
    match s.posts[x]? with
    | some post => s.post x post.ask peer
    | none => s
  | .enqueued x k i result =>
      s.setPost x (.returned (match result with | none => some (k, i) | some _ => none))
  | .flush => { s with flushes := s.flushes ++ [{ sends := s.sent }] }
  | .snapshot g => s.setFlush g (.reading s.node.attached [])
  | .readSlot g j todo peers =>
    match s.node.slots[j]? with
    | some slot => s.readSlot g j todo peers slot
    | none => s
  | .ping g k peers =>
      let id := s.nextRequest + 1
      { (s.enqueue k (barrierPing s.net.nodeID id) false).setFlush g (.enqueuing k (s.fresh k) id peers) with
        nextRequest := id }
  | .pinged g k i id peers result =>
      s.setFlush g (match result with | none => .waiting k i id peers | some _ => .returned false)
  | .pong g _ _ _ peers protocol =>
      s.setFlush g (if protocol = admissionBarrierProtocol then .reading [] peers else .returned false)
  | .giveUp g _ _ _ _ => s.setFlush g (.returned false)
  | .done g => s.setFlush g (.returned true)

instance (s : Node) (a : Node.Action) : Decidable (s.Enabled a) := Node.machine.decideEnabled s a
instance (s : Network) (a : Network.Action) : Decidable (s.Enabled a) := Network.machine.decideEnabled s a

def machine : Machine Outgoing Action where
  Enabled := Enabled
  next := next
  decideEnabled s a := by cases a <;> dsimp only [Enabled] <;> infer_instance

def initial (nodeID : String) (connectionsPerPeer sendQueue : Nat) (registry : Snapshot)
    (setups : List Network.Setup) : Outgoing where
  node := .initial nodeID connectionsPerPeer registry
  net := .initial nodeID sendQueue setups

attribute [grind] setPost setFlush enqueue remoteIncarnation sent post readSlot ownStep farStep PostAt FlushAt
  Answered EnqueueAt Enabled next

end Outgoing

attribute [grind] Post.sent Closing.answered Node.attached

end Skygo.Transport
