import Mathlib.Data.List.Basic
import Skygo.Semantics.Machine
import Skygo.Semantics.Table

/-! The client-facing server: its accept loop, the two goroutines of each connection, `Start` and `Stop`.

The steps are those at which the goroutines synchronize: the server's lock, the channel `stopping`, the `Once` of
`Stop` and of each connection, the sockets and the callbacks of the handler. A connection is known by the order in
which it was accepted. The frames and the send queues are left out: a read or a write may succeed or fail at any
time, and on a closed connection it fails.
-/

set_option autoImplicit false

namespace Skygo.Gate

open Semantics

/-- `Options.defaults` for `MaxConnections`. -/
def maxConnectionsDefault (n : Int) : Nat := if n ≤ 0 then 1024 else n.toNat

inductive Run where
  | absent
  /-- In `OnOpen`. -/
  | opening
  | reading
  /-- In `OnMessage`. -/
  | handling
  | closing
  | removing
  /-- In `OnClose`. -/
  | notifying
  | returned
  deriving DecidableEq

inductive Writer where
  | absent
  | selecting
  | writing
  | closing
  | returned
  deriving DecidableEq

structure Conn where
  /-- Zero until it is registered. -/
  id : Nat := 0
  /-- It is in `connections`. -/
  registered : Bool := false
  closed : Bool := false
  run : Run := .absent
  writer : Writer := .absent
  deriving DecidableEq

def Conn.active (conn : Conn) : Bool :=
  match conn.run with
  | .absent | .returned => false
  | _ => true

inductive AcceptLoop where
  | absent
  | accepting
  /-- `netutil.Accept` has got an error. -/
  | failed
  | backoff
  /-- With a connection that is not registered. -/
  | holding (c : Nat)
  | refusing (c : Nat)
  | spawning (c : Nat)
  | returned
  deriving DecidableEq

def AcceptLoop.active : AcceptLoop → Bool
  | .absent | .returned => false
  | _ => true

inductive Listener where
  | absent | listening | closed
  deriving DecidableEq

inductive Once where
  | unused | running | done
  deriving DecidableEq

inductive StopPlace where
  | called
  /-- In the body, with `stopping` closed. -/
  | scanning
  | waiting
  | returned (ok : Bool)
  deriving DecidableEq

structure Server where
  maxConnections : Nat
  listener : Listener := .absent
  loop : AcceptLoop := .absent
  stopping : Bool := false
  stopOnce : Once := .unused
  nextID : Nat := 0
  conns : List Conn := []
  stops : List StopPlace := []
  deriving DecidableEq

namespace Server

def connections (s : Server) : Nat := s.conns.countP Conn.registered

def waitGroup (s : Server) : Nat := s.loop.active.toNat + s.conns.countP Conn.active

def setConn (s : Server) (c : Nat) (f : Conn → Conn) : Server := { s with conns := s.conns.modify c f }

def setRun (s : Server) (c : Nat) (place : Run) : Server := s.setConn c fun conn => { conn with run := place }

def setWriter (s : Server) (c : Nat) (place : Writer) : Server := s.setConn c fun conn => { conn with writer := place }

def setStop (s : Server) (k : Nat) (place : StopPlace) : Server :=
  { s with stops := s.stops.modify k fun _ => place }

def start (s : Server) : Server :=
  if s.listener = .absent then { s with listener := .listening, loop := .accepting } else s

def register (s : Server) (c : Nat) : Server :=
  if s.maxConnections ≤ s.connections then { s with loop := .refusing c }
  else
    { s.setConn c fun conn => { conn with id := s.nextID + 1, registered := true } with
      nextID := s.nextID + 1
      loop := .spawning c }

def scan (s : Server) : Server :=
  { s with
    listener := if s.listener = .absent then .absent else .closed
    -- a connection that `acceptLoop` still holds is not in the map
    conns := s.conns.map fun conn => if conn.registered then { conn with closed := true } else conn
    stopOnce := .done }

inductive Action where
  | start
  | accept
  | acceptFailed
  | acceptCheck
  | acceptRetry
  | acceptStopped
  | register (c : Nat)
  | refuse (c : Nat)
  | spawn (c : Nat)
  | opened (c : Nat)
  | readMessage (c : Nat)
  | handled (c : Nat)
  | readFailed (c : Nat)
  | readerClose (c : Nat)
  | remove (c : Nat)
  | notified (c : Nat)
  | write (c : Nat)
  | written (c : Nat)
  | writeFailed (c : Nat)
  | writerDone (c : Nat)
  | writerClose (c : Nat)
  | close (c : Nat)
  | stop
  | stopBegin (k : Nat)
  | stopScan (k : Nat)
  | stopPass (k : Nat)
  | stopWaited (k : Nat)
  | stopExpired (k : Nat)
  deriving DecidableEq

def Enabled (s : Server) : Action → Prop
  | .start | .stop => True
  | .accept => s.loop = .accepting ∧ s.listener = .listening
  -- a listener that is open can fail, too
  | .acceptFailed => s.loop = .accepting
  | .acceptCheck => s.loop = .failed
  | .acceptRetry => s.loop = .backoff
  | .acceptStopped => s.loop = .backoff ∧ s.stopping = true
  | .register c => s.loop = .holding c
  | .refuse c => s.loop = .refusing c
  | .spawn c => s.loop = .spawning c
  | .opened c => At s.conns c fun conn => conn.run = .opening
  | .readMessage c => At s.conns c fun conn => conn.run = .reading ∧ conn.closed = false
  | .handled c => At s.conns c fun conn => conn.run = .handling
  -- closed on this side, or by the client, or too late
  | .readFailed c => At s.conns c fun conn => conn.run = .reading
  | .readerClose c => At s.conns c fun conn => conn.run = .closing
  | .remove c => At s.conns c fun conn => conn.run = .removing
  | .notified c => At s.conns c fun conn => conn.run = .notifying
  | .write c => At s.conns c fun conn => conn.writer = .selecting
  | .written c => At s.conns c fun conn => conn.writer = .writing ∧ conn.closed = false
  | .writeFailed c => At s.conns c fun conn => conn.writer = .writing
  | .writerDone c => At s.conns c fun conn => conn.writer = .selecting ∧ conn.closed = true
  | .writerClose c => At s.conns c fun conn => conn.writer = .closing
  -- by the application, which has the connection from `OnOpen` on
  | .close c => At s.conns c fun conn => conn.run ≠ .absent
  | .stopBegin k => s.stops[k]? = some .called ∧ s.stopOnce = .unused
  | .stopScan k => s.stops[k]? = some .scanning
  -- `Do` returns when the body is over
  | .stopPass k => s.stops[k]? = some .called ∧ s.stopOnce = .done
  | .stopWaited k => s.stops[k]? = some .waiting ∧ s.waitGroup = 0
  | .stopExpired k => s.stops[k]? = some .waiting

def next (s : Server) : Action → Server
  | .start => s.start
  | .accept => { s with conns := s.conns ++ [{}], loop := .holding s.conns.length }
  | .acceptFailed => { s with loop := .failed }
  | .acceptCheck => { s with loop := if s.stopping then .returned else .backoff }
  | .acceptRetry => { s with loop := .accepting }
  | .acceptStopped => { s with loop := .returned }
  | .register c => s.register c
  | .refuse c => { s.setConn c fun conn => { conn with closed := true } with loop := .accepting }
  -- `wg.Add` comes after the section, so the counter lags behind the map
  | .spawn c => { s.setRun c .opening with loop := .accepting }
  | .opened c => s.setConn c fun conn => { conn with run := .reading, writer := .selecting }
  | .readMessage c => s.setRun c .handling
  | .handled c => s.setRun c .reading
  | .readFailed c => s.setRun c .closing
  | .readerClose c => s.setConn c fun conn => { conn with run := .removing, closed := true }
  | .remove c => s.setConn c fun conn => { conn with run := .notifying, registered := false }
  | .notified c => s.setRun c .returned
  | .write c => s.setWriter c .writing
  | .written c => s.setWriter c .selecting
  | .writeFailed c => s.setWriter c .closing
  | .writerDone c => s.setWriter c .closing
  | .writerClose c => s.setConn c fun conn => { conn with writer := .returned, closed := true }
  | .close c => s.setConn c fun conn => { conn with closed := true }
  | .stop => { s with stops := s.stops ++ [.called] }
  | .stopBegin k => { s.setStop k .scanning with stopping := true, stopOnce := .running }
  | .stopScan k => s.scan.setStop k .waiting
  | .stopPass k => s.setStop k .waiting
  | .stopWaited k => s.setStop k (.returned true)
  | .stopExpired k => s.setStop k (.returned false)

def machine : Machine Server Action where
  Enabled := Enabled
  next := next
  decideEnabled s a := by
    cases a <;> unfold Enabled <;> infer_instance

def new (maxConnections : Int) : Server := { maxConnections := maxConnectionsDefault maxConnections }

attribute [grind] connections waitGroup setConn setRun setWriter setStop start register scan Enabled next

end Server

attribute [grind] Conn.active AcceptLoop.active

end Skygo.Gate
