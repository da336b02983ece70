import Mathlib.Logic.Function.Basic
import Skygo.Semantics.Machine
import Skygo.Semantics.Table

/-! The connections of a cluster node: the registry, the peer manager with its slots, the calls of
`peerFor`, the connection attempts, `Reload`, `Stop`, and the handshakes of inbound connections.

The steps are the critical sections of `n.mu`, of the manager's mutex and of a slot's mutex, and the
other points at which goroutines wait for each other. `Reload` holds `n.mu` from the installation of
the snapshot to the end of `closeChanged`, which holds the manager's mutex while it detaches slots one
by one. Time is left open: a dial may take as long as it likes and a backoff may end at any time.
-/

set_option autoImplicit false

namespace Skygo.Transport

open Semantics

/-- The nodes of a snapshot with their addresses. -/
abbrev Snapshot := List (String × String)

/-- `endpoints`, where the last entry of a node counts; "" stands for an unknown node. -/
def Snapshot.endpoint (snapshot : Snapshot) (nodeID : String) : String :=
  (snapshot.reverse.lookup nodeID).getD ""

namespace RegistryManager

def changed (old next : Snapshot) : List String :=
  (old.map Prod.fst).filter (fun nodeID =>
    next.endpoint nodeID = "" || next.endpoint nodeID ≠ old.endpoint nodeID) ++
  (next.map Prod.fst).filter fun nodeID =>
    old.endpoint nodeID ≠ "" && old.endpoint nodeID ≠ next.endpoint nodeID

def install (localNode : String) (old next : Snapshot) : Except String (List String) :=
  if next.endpoint localNode = "" then
    .error ("cluster: registry does not contain local node \"" ++ localNode ++ "\"")
  else .ok (changed old next)

end RegistryManager

inductive PeerState where
  | disconnected | connecting | ready | backoff | closing
  deriving DecidableEq

/-- `connecting` is the attempt whose channel the slot holds. -/
structure PeerSlot where
  node : String
  peer : Option Nat := none
  state : PeerState := .disconnected
  endpoint : String := ""
  connecting : Option Nat := none
  everConnected : Bool := false
  deriving DecidableEq

/-- A peer as the node sees it. `notified` says that its `close` has come to its end, `peerClosed`. -/
structure PeerHandle where
  slot : Nat
  remoteNode : String
  endpoint : String
  closed : Bool := false
  notified : Bool := false
  deriving DecidableEq

/-- Where `connectSlot` is; `finished` once its channel is closed. Before it starts, the attempt belongs to the call of
`peerFor` that made the channel, which gives it up if the node is stopping. -/
inductive AttemptPlace where
  | reserved (find : Nat)
  | abandoned (find : Nat)
  | dialing
  | dialed (peer : Option Nat)
  | discarding (peer : Option Nat)
  | announcing
  | finished
  deriving DecidableEq

structure Attempt where
  slot : Nat
  node : String
  endpoint : String
  place : AttemptPlace
  deriving DecidableEq

inductive FindPlace where
  | called
  | looked (stopping : Bool)
  | located (endpoint : String)
  | looping (slot : Nat) (endpoint : String)
  | starting (slot : Nat) (endpoint : String) (attempt : Nat)
  | aborting (slot attempt : Nat)
  | aborted (attempt : Nat)
  | waiting (slot : Nat) (endpoint : String) (attempt : Nat)
  | returned (peer : Option Nat)
  deriving DecidableEq

structure PeerFor where
  node : String
  index : Nat
  place : FindPlace := .called
  deriving DecidableEq

inductive SweepKind where
  | reload (snapshot : Snapshot)
  | stop
  deriving DecidableEq

/-- Where `Reload` or `Stop` is. The peers and the inbound connections are those it still has to close. It returns
without a sweep if the snapshot is refused or another `Stop` came first. -/
inductive SweepPlace where
  | called
  | entered (conns : List Nat)
  | detaching (todo peers conns : List Nat)
  | closing (peers conns : List Nat)
  | revoking (conns : List Nat)
  | returned (swept : Bool)
  deriving DecidableEq

/-- `before` is the registry that a `Reload` found; it is history. -/
structure Sweep where
  kind : SweepKind
  changed : List String := []
  before : Snapshot := []
  place : SweepPlace := .called
  deriving DecidableEq

namespace Sweep

/-- `closeChanged` closes the senders of changed nodes, `closeAll` all of them. -/
def covers (sweep : Sweep) (node : String) : Bool :=
  match sweep.kind with
  | .reload _ => sweep.changed.contains node
  | .stop => true

def isReload (sweep : Sweep) : Bool :=
  match sweep.kind with
  | .reload _ => true
  | .stop => false

def holdsNode (sweep : Sweep) : Bool :=
  sweep.isReload && match sweep.place with
  | .entered _ | .detaching _ _ _ | .closing _ _ => true
  | _ => false

def holdsManager (sweep : Sweep) : Bool :=
  match sweep.place with
  | .detaching _ _ _ => true
  | _ => false

def peers (sweep : Sweep) : List Nat :=
  match sweep.place with
  | .detaching _ peers _ | .closing peers _ => peers
  | _ => []

attribute [grind] covers isReload holdsNode holdsManager peers

end Sweep

inductive AcceptPlace where
  | checking
  | acking
  | registering
  | reading
  | leaving
  | gone
  deriving DecidableEq

/-- An inbound connection whose HELLO was verified. `revoked` are the calls of `Reload` that changed its node after
its check; it is history. -/
structure Accept where
  remoteNode : String
  place : AcceptPlace := .checking
  closed : Bool := false
  revoked : List Nat := []
  deriving DecidableEq

/-- The connection was checked before the `Reload` that changed its node. -/
def Accept.mark (w : Nat) (changed : List String) (accept : Accept) : Accept :=
  if accept.place ≠ .checking ∧ changed.contains accept.remoteNode then { accept with revoked := accept.revoked ++ [w] }
  else accept

structure Node where
  nodeID : String
  connectionsPerPeer : Nat
  registry : Snapshot
  stopping : Bool := false
  /-- `peerManager.slots`. -/
  manager : String → List Nat := fun _ => []
  slots : List PeerSlot := []
  peers : List PeerHandle := []
  attempts : List Attempt := []
  finds : List PeerFor := []
  sweeps : List Sweep := []
  accepts : List Accept := []

namespace Node

def nodeLocked (s : Node) : Bool := s.sweeps.any Sweep.holdsNode

def managerLocked (s : Node) : Bool := s.sweeps.any Sweep.holdsManager

def setSlot (s : Node) (j : Nat) (f : PeerSlot → PeerSlot) : Node := { s with slots := s.slots.modify j f }

def setPeer (s : Node) (k : Nat) (f : PeerHandle → PeerHandle) : Node := { s with peers := s.peers.modify k f }

def setAttempt (s : Node) (a : Nat) (place : AttemptPlace) : Node :=
  { s with attempts := s.attempts.modify a fun attempt => { attempt with place := place } }

def setFind (s : Node) (f : Nat) (place : FindPlace) : Node :=
  { s with finds := s.finds.modify f fun find => { find with place := place } }

def setSweep (s : Node) (w : Nat) (place : SweepPlace) : Node :=
  { s with sweeps := s.sweeps.modify w fun sweep => { sweep with place := place } }

def setAccept (s : Node) (x : Nat) (place : AcceptPlace) : Node :=
  { s with accepts := s.accepts.modify x fun accept => { accept with place := place } }

/-- `p.isClosed()`, of no peer as well. -/
def isClosed (s : Node) : Option Nat → Bool
  | some k => At s.peers k fun handle => handle.closed = true
  | none => false

/-- `peerManager.slot`: the lanes of a node are made at once. -/
def slot (s : Node) (nodeID : String) (index : Nat) : Node × Option Nat :=
  if s.manager nodeID = [] then
    let fresh := (List.range s.connectionsPerPeer).map (s.slots.length + ·)
    ({ s with
        slots := s.slots ++ List.replicate s.connectionsPerPeer { node := nodeID }
        manager := Function.update s.manager nodeID fresh }, fresh[index]?)
  else (s, (s.manager nodeID)[index]?)

def forget (s : Node) (slot : PeerSlot) : PeerSlot :=
  if s.isClosed slot.peer then { slot with peer := none, state := .backoff } else slot

/-- One turn of the loop of `peerFor`. `expired` says that no backoff is under way. -/
def turn (s : Node) (f : Nat) (find : PeerFor) (j : Nat) (slot : PeerSlot) (endpoint : String) (expired : Bool) : Node :=
  match slot.peer.filter fun k => At s.peers k fun handle => handle.closed = false ∧ handle.endpoint = endpoint with
  | some k => s.setFind f (.returned (some k))
  | none =>
    let slot := s.forget slot
    match slot.connecting with
    | some a => (s.setSlot j fun _ => slot).setFind f (.waiting j endpoint a)
    | none =>
      if slot.state = .backoff ∧ expired = false ∧ slot.endpoint = endpoint then
        (s.setSlot j fun _ => slot).setFind f (.returned none)
      else
        let a := s.attempts.length
        { (s.setSlot j fun _ =>
            { slot with connecting := some a, state := .connecting, endpoint := endpoint }).setFind f
              (.starting j endpoint a) with
          attempts := s.attempts ++ [{ slot := j, node := find.node, endpoint := endpoint, place := .reserved f }] }

/-- `dialPeer` of an attempt. -/
def dial (s : Node) (a : Nat) (attempt : Attempt) (ok : Bool) : Node :=
  if ok then
    { s.setAttempt a (.dialed (some s.peers.length)) with
      peers := s.peers ++ [{ slot := attempt.slot, remoteNode := attempt.node, endpoint := attempt.endpoint }] }
  else s.setAttempt a (.dialed none)

/-- The slot was taken away from the attempt. -/
def Discards (a : Nat) (attempt : Attempt) (slot : PeerSlot) : Bool :=
  slot.connecting ≠ some a || slot.endpoint ≠ attempt.endpoint || slot.state = .closing

/-- The end of `connectSlot` under the slot's mutex. -/
def settle (s : Node) (a : Nat) (attempt : Attempt) (slot : PeerSlot) (peer : Option Nat) : Node :=
  if Discards a attempt slot then
    (s.setSlot attempt.slot fun slot =>
      if slot.connecting = some a then { slot with connecting := none } else slot).setAttempt a (.discarding peer)
  else
    match peer with
    | none => (s.setSlot attempt.slot fun slot =>
        { slot with connecting := none, peer := none, state := .backoff }).setAttempt a .announcing
    | some k => (s.setSlot attempt.slot fun slot =>
        { slot with connecting := none, peer := some k, state := .ready, everConnected := true }).setAttempt a .announcing

def peerClosed (slot : PeerSlot) (k : Nat) : PeerSlot :=
  if slot.peer = some k then { slot with peer := none, state := .backoff } else slot

def detachSlot (slot : PeerSlot) : PeerSlot :=
  { slot with peer := none, state := .closing, endpoint := "" }

/-- The inbound connections in `n.inbound`, with what is asked of their node. -/
def registered (s : Node) (concerns : String → Bool) : List Nat :=
  (List.range s.accepts.length).filter fun x =>
    At s.accepts x fun accept =>
      (accept.place = .reading ∨ accept.place = .leaving) ∧ concerns accept.remoteNode = true

def covered (s : Node) (sweep : Sweep) : List Nat :=
  (List.range s.slots.length).filter fun j =>
    At s.slots j fun slot => sweep.covers slot.node = true ∧ j ∈ s.manager slot.node

/-- `Reload` or `Stop` in its section under `n.mu`. -/
def enter (s : Node) (w : Nat) (sweep : Sweep) : Node :=
  match sweep.kind with
  | .reload snapshot =>
    match RegistryManager.install s.nodeID s.registry snapshot with
    | .error _ => s.setSweep w (.returned false)
    | .ok changed =>
      { s with
        registry := snapshot
        accepts := s.accepts.map (Accept.mark w changed)
        sweeps := s.sweeps.modify w fun sweep =>
          { sweep with changed := changed, before := s.registry, place := .entered (s.registered changed.contains) } }
  | .stop =>
    if s.stopping then s.setSweep w (.returned false)
    else { s.setSweep w (.entered (s.registered fun _ => true)) with stopping := true }

def unlock (s : Node) (w : Nat) (sweep : Sweep) (peers conns : List Nat) : Node :=
  { s.setSweep w (.closing peers conns) with
    manager := fun nodeID => if sweep.covers nodeID then [] else s.manager nodeID }

inductive Action where
  | peerFor (node : String) (shard : Nat)
  | look (f : Nat)
  | locate (f : Nat) (stopping : Bool)
  | pick (f : Nat) (endpoint : String)
  | turn (f j : Nat) (endpoint : String) (expired : Bool)
  | launch (f j : Nat) (endpoint : String) (a : Nat)
  | abort (f j a : Nat)
  | abortDone (f a : Nat)
  | resume (f j : Nat) (endpoint : String) (a : Nat)
  | giveUp (f j : Nat) (endpoint : String) (a : Nat)
  | dial (a : Nat) (ok : Bool)
  | settle (a : Nat) (peer : Option Nat)
  | discard (a : Nat) (peer : Option Nat)
  | announce (a : Nat)
  | close (k : Nat)
  | peerClosed (k : Nat)
  | reload (snapshot : Snapshot)
  | stop
  | enter (w : Nat)
  | lockManager (w : Nat) (conns : List Nat)
  | detach (w j : Nat) (todo peers conns : List Nat)
  | unlockManager (w : Nat) (peers conns : List Nat)
  | closed (w k : Nat) (peers conns : List Nat)
  | leave (w : Nat) (conns : List Nat)
  | revoke (w x : Nat) (conns : List Nat)
  | finish (w : Nat)
  | accept (node : String)
  | check (x : Nat)
  | ack (x : Nat) (ok : Bool)
  | register (x : Nat)
  | readFailed (x : Nat)
  | deregister (x : Nat)
  deriving DecidableEq

def FindAt (s : Node) (f : Nat) (place : FindPlace) : Prop := At s.finds f fun find => find.place = place

def AttemptAt (s : Node) (a : Nat) (place : AttemptPlace) : Prop := At s.attempts a fun attempt => attempt.place = place

def SweepAt (s : Node) (w : Nat) (place : SweepPlace) : Prop := At s.sweeps w fun sweep => sweep.place = place

def AcceptAt (s : Node) (x : Nat) (place : AcceptPlace) : Prop := At s.accepts x fun accept => accept.place = place

def Notified (s : Node) (k : Nat) : Prop := At s.peers k fun handle => handle.notified = true

instance (s : Node) (f : Nat) (place : FindPlace) : Decidable (s.FindAt f place) := inferInstanceAs (Decidable (At ..))
instance (s : Node) (a : Nat) (place : AttemptPlace) : Decidable (s.AttemptAt a place) :=
  inferInstanceAs (Decidable (At ..))
instance (s : Node) (w : Nat) (place : SweepPlace) : Decidable (s.SweepAt w place) := inferInstanceAs (Decidable (At ..))
instance (s : Node) (x : Nat) (place : AcceptPlace) : Decidable (s.AcceptAt x place) :=
  inferInstanceAs (Decidable (At ..))
instance (s : Node) (k : Nat) : Decidable (s.Notified k) := inferInstanceAs (Decidable (At ..))

def Enabled (s : Node) : Action → Prop
  | .peerFor _ _ | .reload _ | .stop | .accept _ => True
  | .look f => s.FindAt f .called ∧ s.nodeLocked = false
  | .locate f stopping => s.FindAt f (.looked stopping)
  | .pick f endpoint => s.FindAt f (.located endpoint) ∧ s.managerLocked = false
  | .turn f j endpoint _ => s.FindAt f (.looping j endpoint)
  | .launch f j endpoint a => s.FindAt f (.starting j endpoint a) ∧ s.nodeLocked = false
  | .abort f j a => s.FindAt f (.aborting j a)
  | .abortDone f a => s.FindAt f (.aborted a)
  | .resume f j endpoint a => s.FindAt f (.waiting j endpoint a) ∧ s.AttemptAt a .finished
  | .giveUp f j endpoint a => s.FindAt f (.waiting j endpoint a)
  | .dial a _ => s.AttemptAt a .dialing
  | .settle a peer => s.AttemptAt a (.dialed peer)
  | .discard a peer => s.AttemptAt a (.discarding peer) ∧ ∀ k ∈ peer, s.Notified k
  | .announce a => s.AttemptAt a .announcing
  | .close k => At s.peers k fun handle => handle.closed = false
  | .peerClosed k => At s.peers k fun handle => handle.closed = true ∧ handle.notified = false
  | .enter w => s.SweepAt w .called ∧ s.nodeLocked = false
  | .lockManager w conns => s.SweepAt w (.entered conns) ∧ s.managerLocked = false
  | .detach w j todo peers conns => s.SweepAt w (.detaching todo peers conns) ∧ j ∈ todo
  | .unlockManager w peers conns => s.SweepAt w (.detaching [] peers conns)
  | .closed w k peers conns => s.SweepAt w (.closing (k :: peers) conns) ∧ s.Notified k
  | .leave w conns => s.SweepAt w (.closing [] conns)
  | .revoke w x conns => s.SweepAt w (.revoking (x :: conns))
  | .finish w => s.SweepAt w (.revoking [])
  | .check x => s.AcceptAt x .checking
  | .ack x _ => s.AcceptAt x .acking
  | .register x => s.AcceptAt x .registering ∧ s.nodeLocked = false
  | .readFailed x => s.AcceptAt x .reading
  | .deregister x => s.AcceptAt x .leaving ∧ s.nodeLocked = false

def next (s : Node) : Action → Node
  | .peerFor node shard => { s with finds := s.finds ++ [{ node := node, index := shard % s.connectionsPerPeer }] }
  | .look f => s.setFind f (.looked s.stopping)
  | .locate f stopping =>
    match s.finds[f]? with
    | some find =>
      let endpoint := s.registry.endpoint find.node
      s.setFind f (if stopping ∨ endpoint = "" then .returned none else .located endpoint)
    | none => s
  | .pick f endpoint =>
    match s.finds[f]? with
    | some find =>
      match s.slot find.node find.index with
      | (s, some j) => s.setFind f (.looping j endpoint)
      | (s, none) => s
    | none => s
  | .turn f j endpoint expired =>
    match s.finds[f]?, s.slots[j]? with
    | some find, some slot => s.turn f find j slot endpoint expired
    | _, _ => s
  | .launch f j endpoint a =>
    if s.stopping then s.setFind f (.aborting j a)
    else (s.setAttempt a .dialing).setFind f (.waiting j endpoint a)
  | .abort f j a =>
    ((s.setSlot j fun slot =>
      if slot.connecting = some a then { slot with connecting := none, state := .closing } else slot).setAttempt a
        (.abandoned f)).setFind f (.aborted a)
  | .abortDone f a => (s.setAttempt a .finished).setFind f (.returned none)
  | .resume f j endpoint _ => s.setFind f (.looping j endpoint)
  | .giveUp f _ _ _ => s.setFind f (.returned none)
  | .dial a ok =>
    match s.attempts[a]? with
    | some attempt => s.dial a attempt ok
    | none => s
  | .settle a peer =>
    match s.attempts[a]? with
    | some attempt =>
      match s.slots[attempt.slot]? with
      | some slot => s.settle a attempt slot peer
      | none => s
    | none => s
  | .discard a _ => s.setAttempt a .announcing
  | .announce a => s.setAttempt a .finished
  | .close k => s.setPeer k fun handle => { handle with closed := true }
  | .peerClosed k =>
    match s.peers[k]? with
    | some handle =>
      (s.setSlot handle.slot fun slot => peerClosed slot k).setPeer k fun handle => { handle with notified := true }
    | none => s
  | .reload snapshot => { s with sweeps := s.sweeps ++ [{ kind := .reload snapshot }] }
  | .stop => { s with sweeps := s.sweeps ++ [{ kind := .stop }] }
  | .enter w =>
    match s.sweeps[w]? with
    | some sweep => s.enter w sweep
    | none => s
  | .lockManager w conns =>
    match s.sweeps[w]? with
    | some sweep => s.setSweep w (.detaching (s.covered sweep) [] conns)
    | none => s
  | .detach w j todo peers conns =>
    match s.slots[j]? with
    | some slot =>
      (s.setSlot j detachSlot).setSweep w (.detaching (todo.erase j) (peers ++ slot.peer.toList) conns)
    | none => s
  | .unlockManager w peers conns =>
    match s.sweeps[w]? with
    | some sweep => s.unlock w sweep peers conns
    | none => s
  | .closed w _ peers conns => s.setSweep w (.closing peers conns)
  | .leave w conns => s.setSweep w (.revoking conns)
  | .revoke w x conns =>
    { s.setSweep w (.revoking conns) with
      accepts := s.accepts.modify x fun accept => { accept with closed := true } }
  | .finish w => s.setSweep w (.returned true)
  | .accept node => { s with accepts := s.accepts ++ [{ remoteNode := node }] }
  | .check x =>
    match s.accepts[x]? with
    | some accept =>
      s.setAccept x (if s.registry.endpoint accept.remoteNode = "" ∨ accept.remoteNode = s.nodeID then .gone else .acking)
    | none => s
  | .ack x ok => s.setAccept x (if ok then .registering else .gone)
  | .register x =>
    if s.stopping then
      { s with accepts := s.accepts.modify x fun accept => { accept with closed := true, place := .gone } }
    else s.setAccept x .reading
  | .readFailed x =>
    { s with accepts := s.accepts.modify x fun accept => { accept with closed := true, place := .leaving } }
  | .deregister x => s.setAccept x .gone

def machine : Machine Node Action where
  Enabled := Enabled
  next := next
  decideEnabled s a := by cases a <;> dsimp only [Enabled] <;> infer_instance

def initial (nodeID : String) (connectionsPerPeer : Nat) (registry : Snapshot) : Node :=
  { nodeID := nodeID, connectionsPerPeer := connectionsPerPeer, registry := registry }

attribute [grind] nodeLocked managerLocked setSlot setPeer setAttempt setFind setSweep setAccept isClosed forget dial
  Discards peerClosed detachSlot unlock FindAt AttemptAt SweepAt AcceptAt Notified Enabled next

end Node

attribute [grind] Accept.mark

end Skygo.Transport
