import Skygo.Transport.InboundRead
import Skygo.Transport.PeerSound

/-! A node's connections to other nodes: every outbound peer with the connection that the remote node
accepted for it.

The socket delivers what was written, in order: the reader at the far end reads the frame that follows
those it has read. The remote nodes also read from connections of other nodes, about which nothing is
assumed.
-/

set_option autoImplicit false

namespace Skygo.Transport

open Semantics
open scoped List

structure Link where
  peer : Peer Envelope
  node : Nat
  conn : Nat

/-- The envelope of a frame. The number of a heartbeat is not modelled, nothing waits for it. -/
def Peer.envelope (p : Peer Envelope) (nodeID : String) : Frame Envelope → Envelope
  | .item i => match p.calls[i]? with
    | some call => call.item.message
    | none => { kind := .unspecified, sourceNode := nodeID }
  | .control message => message
  | .ping => { kind := .ping, sourceNode := nodeID }

structure Network where
  nodeID : String
  sendQueue : Nat
  links : List Link := []
  nodes : List Inbound

namespace Network

def setLink (s : Network) (k : Nat) (f : Peer Envelope → Peer Envelope) : Network :=
  { s with links := s.links.modify k fun link => { link with peer := f link.peer } }

def setNode (s : Network) (r : Nat) (f : Inbound → Inbound) : Network :=
  { s with nodes := s.nodes.modify r f }

/-- `connect` carries the connection that the remote node accepts, `read` the envelope that is read. -/
inductive Action where
  | connect (r c : Nat)
  | peer (k : Nat) (a : Peer.Action Envelope)
  | read (k : Nat) (e : Envelope)
  | node (r : Nat) (a : Inbound.Action)
  deriving DecidableEq

def nextFrame (s : Network) (link : Link) (node : Inbound) : Option Envelope :=
  match node.conns[link.conn]? with
  | some conn => (link.peer.written[conn.log.length]?).map (link.peer.envelope s.nodeID)
  | none => none

/-- `enqueueControl` is called for a CANCEL and for a PONG. -/
def controls : Peer.Action Envelope → Bool
  | .enqueueControl message => message.kind = .cancel || message.kind = .pong
  | _ => true

def Foreign (s : Network) (r : Nat) : Inbound.Action → Prop
  | .read c _ => ∀ link ∈ s.links, ¬ (link.node = r ∧ link.conn = c)
  | _ => True

instance (s : Network) (r : Nat) (a : Inbound.Action) : Decidable (s.Foreign r a) := by
  rcases a with _ | _ <;> unfold Foreign <;> infer_instance

def Enabled (s : Network) : Action → Prop
  | .connect r c => At s.nodes r fun node => node.conns.length = c
  | .peer k a => At s.links k (fun link => link.peer.Enabled a) ∧ controls a = true
  | .read k e => At s.links k fun link => At s.nodes link.node fun node =>
      s.nextFrame link node = some e ∧ node.Enabled (.read link.conn e)
  | .node r a => At s.nodes r (fun node => node.Enabled a) ∧ s.Foreign r a

def next (s : Network) : Action → Network
  | .connect r c =>
      { s.setNode r fun node => node.next (.accept s.nodeID) with
        links := s.links ++ [{ peer := { sendQueue := s.sendQueue }, node := r, conn := c }] }
  | .peer k a => s.setLink k fun peer => peer.next a
  | .read k e =>
      match s.links[k]? with
      | some link => s.setNode link.node fun node => node.next (.read link.conn e)
      | none => s
  | .node r a => s.setNode r fun node => node.next a

instance (p : Peer Envelope) (a : Peer.Action Envelope) : Decidable (p.Enabled a) := Peer.machine.decideEnabled p a

instance (node : Inbound) (a : Inbound.Action) : Decidable (node.Enabled a) := Inbound.machine.decideEnabled node a

def machine : Machine Network Action where
  Enabled := Enabled
  next := next
  decideEnabled s a := by
    cases a <;> unfold Enabled <;> infer_instance

structure Setup where
  nodeID : String
  incarnation : String
  inboundShards : Nat
  inboundQueue : Nat
  maxInboundCalls : Nat

def Setup.start (setup : Setup) : Inbound :=
  .initial setup.nodeID setup.incarnation setup.inboundShards setup.inboundQueue setup.maxInboundCalls

def initial (nodeID : String) (sendQueue : Nat) (setups : List Setup) : Network where
  nodeID := nodeID
  sendQueue := sendQueue
  nodes := setups.map Setup.start

attribute [grind] setLink setNode nextFrame controls Foreign Enabled next

end Network

attribute [grind] Peer.envelope

end Skygo.Transport
