import Skygo.Actor.Base
import Skygo.Crypto.Sha256

/-! The configuration of a cluster node and the envelopes nodes exchange.

Sizes and durations are Go integers; durations are nanoseconds.
-/

set_option autoImplicit false

namespace Skygo.Transport

open Actor Crypto

def hardMaxPayload : Nat := 64 * 1024 * 1024

def frameMaxPayload : Nat := 4 * 1024 * 1024

def second : Int := 1000000000

/-- `registry` says that a `Registry` is given. -/
structure Config where
  peerSecrets : List (String × Bytes) := []
  nodeID : String
  listen : String
  secret : Bytes
  registry : Bool := true
  maxPayload : Nat := 0
  sendQueue : Int := 0
  connectionsPerPeer : Int := 0
  inboundShards : Int := 0
  inboundQueue : Int := 0
  maxInboundCalls : Int := 0
  dialTimeout : Int := 0
  handshakeTimeout : Int := 0
  callTimeout : Int := 0
  sendTimeout : Int := 0
  writeTimeout : Int := 0
  clockSkew : Int := 0
  nonceTTL : Int := 0
  connectBackoffMin : Int := 0
  connectBackoffMax : Int := 0
  pingInterval : Int := 0
  idleTimeout : Int := 0
  deriving DecidableEq

namespace Config

def sized (c : Config) : Config :=
  { c with
    maxPayload := max (if c.maxPayload = 0 then 16 * 1024 * 1024 else c.maxPayload) frameMaxPayload
    sendQueue := orDefault c.sendQueue 1024
    connectionsPerPeer := orDefault c.connectionsPerPeer 1
    inboundShards := orDefault c.inboundShards 32
    inboundQueue := orDefault c.inboundQueue 4096
    maxInboundCalls := orDefault c.maxInboundCalls 1024 }

def timed (c : Config) : Config :=
  { c with
    dialTimeout := orDefault c.dialTimeout (3 * second)
    handshakeTimeout := orDefault c.handshakeTimeout (5 * second)
    callTimeout := orDefault c.callTimeout (5 * second)
    sendTimeout := orDefault c.sendTimeout (second / 200)
    writeTimeout := orDefault c.writeTimeout (5 * second)
    clockSkew := orDefault c.clockSkew (30 * second)
    nonceTTL := orDefault c.nonceTTL (300 * second)
    connectBackoffMin := orDefault c.connectBackoffMin (second / 10)
    connectBackoffMax := orDefault c.connectBackoffMax (5 * second)
    pingInterval := orDefault c.pingInterval (10 * second)
    idleTimeout := orDefault c.idleTimeout (30 * second) }

/-- No check reads what a later default writes, so the defaults are made at once. The doubled ping
interval wraps like an `int64`. -/
def defaults (c : Config) : Except String Config :=
  let d := c.sized.timed
  if c.nodeID = "" ∨ c.listen = "" ∨ c.secret.length < 16 ∨ c.registry = false then
    .error "cluster: node ID, listen address, registry, and a 16-byte secret are required"
  else if ∃ entry ∈ c.peerSecrets, entry.1 = "" ∨ entry.1 = c.nodeID ∨ entry.2.length < 16 then
    .error "cluster: invalid peer-specific secret"
  else if hardMaxPayload < d.maxPayload then .error "cluster: max payload exceeds 67108864"
  else if 16 < d.connectionsPerPeer then .error "cluster: connections per peer exceeds 16"
  else if d.connectBackoffMax < d.connectBackoffMin then
    .error "cluster: maximum connect backoff is less than minimum"
  else if d.idleTimeout < (2 * d.pingInterval).bmod (2 ^ 64) then
    .error "cluster: idle timeout must be at least twice ping interval"
  else .ok d

variable {c d : Config}

theorem defaults_ok (accepted : c.defaults = .ok d) : d = c.sized.timed := by
  dsimp only [defaults] at accepted
  split_ifs at accepted
  exact (Except.ok.inj accepted).symm

theorem defaults_positive (accepted : c.defaults = .ok d) :
    0 < d.sendQueue ∧ 0 < d.connectionsPerPeer ∧ 0 < d.inboundShards ∧ 0 < d.inboundQueue ∧
    0 < d.maxInboundCalls ∧ 0 < d.clockSkew ∧ 0 < d.nonceTTL := by
  rw [defaults_ok accepted]
  refine ⟨orDefault_pos ?_, orDefault_pos ?_, orDefault_pos ?_, orDefault_pos ?_, orDefault_pos ?_, orDefault_pos ?_,
    orDefault_pos ?_⟩ <;> decide

def peerSecret (c : Config) (peer : String) : Bytes :=
  match c.peerSecrets.lookup peer with
  | some key => key
  | none => c.secret

end Config

inductive Kind where
  | unspecified | hello | helloAck | resolveRequest | resolveResponse | call | send | response | ping | pong
  | cancel
  deriving DecidableEq

def Kind.number : Kind → Nat
  | .unspecified => 0
  | .hello => 1
  | .helloAck => 2
  | .resolveRequest => 3
  | .resolveResponse => 4
  | .call => 5
  | .send => 6
  | .response => 7
  | .ping => 8
  | .pong => 9
  | .cancel => 10

end Skygo.Transport
