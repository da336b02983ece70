import Mathlib.Data.List.Basic
import Skygo.Semantics.Machine
import Skygo.Semantics.Order
import Skygo.Semantics.Table
import Skygo.Semantics.Watermark

/-! What the inbound side of a node is for: requests are read from lines, numbered, spread over
lanes, handled in any order across lanes, and a barrier on a line is answered when everything read
before it has been handled.

Requests are known by the order in which they were read. What a request is and why one is turned
away plays no role here.
-/

set_option autoImplicit false

namespace Skygo.Transport

open Semantics
open scoped List

inductive Read where
  | request (j : Nat)
  | barrier (b : Nat)
  | other
  deriving DecidableEq

def Read.request? : Read → Option Nat
  | .request j => some j
  | _ => none

/-- Where the goroutine of a barrier is. It waits for the wake-up channel it has seen. -/
inductive BarrierPlace where
  | checking
  | waiting (seen : Nat)
  | ponging
  | clearing
  | done
  deriving DecidableEq

structure Barrier where
  requestID : Nat
  sequence : Nat
  place : BarrierPlace := .checking
  /-- The PONG was written. -/
  answered : Bool := false
  deriving DecidableEq

/-- What the reader of a line holds: nothing, a request it has not finished, or one it has
finished and not yet told its sender about. -/
inductive Hand where
  | empty
  | holding (j : Nat)
  | telling (j : Nat)
  deriving DecidableEq

def Hand.count : Hand → Nat → Nat
  | .holding i, j => if i = j then 1 else 0
  | _, _ => 0

inductive Grip where
  | empty
  | holding (j : Nat)
  | spent (j : Nat)
  deriving DecidableEq

def Grip.count : Grip → Nat → Nat
  | .holding i, j => if i = j then 1 else 0
  | .spent i, j => if i = j then 1 else 0
  | .empty, _ => 0

def Grip.fresh : Grip → List Nat
  | .holding j => [j]
  | _ => []

structure Line where
  mark : Watermark := {}
  /-- How often the wake-up channel was closed and replaced. -/
  changed : Nat := 0
  hand : Hand := .empty
  log : List Read := []
  barriers : List Barrier := []

structure Lane where
  queue : List Nat := []
  grip : Grip := .empty
  /-- What was delivered or turned away, in order. -/
  handled : List Nat := []
  deriving DecidableEq

structure Ticket where
  line : Nat
  sequence : Nat
  lane : Nat
  deriving DecidableEq

structure Admission where
  lines : List Line := []
  tickets : List Ticket := []
  lanes : List Lane
  /-- The requests in the order in which their admission was finished. -/
  ended : List Nat := []
  /-- The requests in the order in which they were delivered. -/
  received : List Nat := []
  /-- The requests whose sender or node was told what became of them. -/
  told : List Nat := []

namespace Line

def finish (line : Line) (n : Nat) : Line :=
  if n = 0 then line else { line with mark := line.mark.finish n, changed := line.changed + 1 }

def setBarrier (line : Line) (b : Nat) (f : Barrier → Barrier) : Line :=
  { line with barriers := line.barriers.modify b f }

attribute [grind] finish setBarrier

end Line

namespace Barrier

def look (bar : Barrier) (line : Line) : Barrier :=
  { bar with place := if bar.sequence ≤ line.mark.done then .ponging else .waiting line.changed }

def moveTo (place : BarrierPlace) (bar : Barrier) : Barrier := { bar with place := place }

def woken (bar : Barrier) (line : Line) : Bool :=
  match bar.place with
  | .waiting seen => seen < line.changed
  | _ => false

def waits (bar : Barrier) : Bool :=
  match bar.place with
  | .waiting _ => true
  | _ => false

def pong (bar : Barrier) : Barrier := { bar with place := .clearing, answered := true }

attribute [grind] look moveTo woken waits pong

end Barrier

namespace Admission

def setLine (s : Admission) (c : Nat) (f : Line → Line) : Admission :=
  { s with lines := s.lines.modify c f }

def setLane (s : Admission) (w : Nat) (f : Lane → Lane) : Admission :=
  { s with lanes := s.lanes.modify w f }

def finish (s : Admission) (j : Nat) : Admission :=
  match s.tickets[j]? with
  | some ticket =>
      { s.setLine ticket.line fun line => line.finish ticket.sequence with ended := s.ended ++ [j] }
  | none => s

/-- `begin` carries the number it is given, `enqueue` the lane. -/
inductive Action where
  | connect
  | skip (c : Nat)
  | begin (c n lane : Nat)
  | enqueue (c j w : Nat)
  | refuse (c j : Nat)
  | tell (c j : Nat)
  | barrier (c requestID : Nat)
  | look (c b : Nat)
  | wake (c b : Nat)
  | pong (c b : Nat)
  | giveUp (c b : Nat)
  | clear (c b : Nat)
  | take (w j : Nat)
  | deliver (w j : Nat)
  | drop (w j : Nat)
  | finish (w j : Nat)
  | answer (j : Nat)
  deriving DecidableEq

def AtBarrier (s : Admission) (c b : Nat) (p : Line → Barrier → Prop) : Prop :=
  At s.lines c fun line => At line.barriers b fun bar => p line bar

instance (s : Admission) (c b : Nat) (p : Line → Barrier → Prop) [∀ line, DecidablePred (p line)] :
    Decidable (s.AtBarrier c b p) := by
  unfold AtBarrier
  infer_instance

def Enabled (s : Admission) : Action → Prop
  | .connect => True
  | .skip c => At s.lines c fun line => line.hand = .empty
  | .begin c n _ => At s.lines c fun line => line.hand = .empty ∧ n = line.mark.next + 1
  | .enqueue c j w => At s.lines c (fun line => line.hand = .holding j) ∧
      At s.tickets j (fun ticket => ticket.lane = w) ∧ w < s.lanes.length
  | .refuse c j => At s.lines c fun line => line.hand = .holding j
  | .tell c j => At s.lines c fun line => line.hand = .telling j
  | .barrier c _ => At s.lines c fun line => line.hand = .empty
  | .look c b => s.AtBarrier c b fun _ bar => bar.place = .checking
  | .wake c b => s.AtBarrier c b fun line bar => bar.woken line = true
  | .pong c b => s.AtBarrier c b fun _ bar => bar.place = .ponging
  | .giveUp c b => s.AtBarrier c b fun _ bar => bar.waits = true
  | .clear c b => s.AtBarrier c b fun _ bar => bar.place = .clearing
  | .take w j => At s.lanes w fun lane => lane.grip = .empty ∧ lane.queue.head? = some j
  | .deliver w j => At s.lanes w fun lane => lane.grip = .holding j
  | .drop w j => At s.lanes w fun lane => lane.grip = .holding j
  | .finish w j => At s.lanes w fun lane => lane.grip = .spent j
  | .answer _ => True

def next (s : Admission) : Action → Admission
  | .connect => { s with lines := s.lines ++ [{}] }
  | .skip c => s.setLine c fun line => { line with log := line.log ++ [.other] }
  | .begin c n lane =>
      { s.setLine c fun line =>
          { line with
            mark := line.mark.begin
            hand := .holding s.tickets.length
            log := line.log ++ [.request s.tickets.length] } with
        tickets := s.tickets ++ [⟨c, n, lane⟩] }
  | .enqueue c j w =>
      (s.setLine c fun line => { line with hand := .empty }).setLane w fun lane =>
        { lane with queue := lane.queue ++ [j] }
  | .refuse c j => (s.setLine c fun line => { line with hand := .telling j }).finish j
  | .tell c j => { s.setLine c fun line => { line with hand := .empty } with told := s.told ++ [j] }
  | .barrier c requestID =>
      s.setLine c fun line =>
        { line with
          log := line.log ++ [.barrier line.barriers.length]
          barriers := line.barriers ++ [{ requestID := requestID, sequence := line.mark.next }] }
  | .look c b => s.setLine c fun line => line.setBarrier b fun bar => bar.look line
  | .wake c b => s.setLine c fun line => line.setBarrier b (.moveTo .checking)
  | .pong c b => s.setLine c fun line => line.setBarrier b .pong
  | .giveUp c b => s.setLine c fun line => line.setBarrier b (.moveTo .clearing)
  | .clear c b => s.setLine c fun line => line.setBarrier b (.moveTo .done)
  | .take w j => s.setLane w fun lane => { lane with queue := lane.queue.tail, grip := .holding j }
  | .deliver w j =>
      { s.setLane w fun lane => { lane with grip := .spent j, handled := lane.handled ++ [j] } with
        received := s.received ++ [j] }
  | .drop w j =>
      { s.setLane w fun lane => { lane with grip := .spent j, handled := lane.handled ++ [j] } with
        told := s.told ++ [j] }
  | .finish w j => (s.setLane w fun lane => { lane with grip := .empty }).finish j
  | .answer j => { s with told := s.told ++ [j] }

def machine : Machine Admission Action where
  Enabled := Enabled
  next := next
  decideEnabled s a := by
    cases a <;> unfold Enabled <;> infer_instance

attribute [grind] setLine setLane finish AtBarrier Enabled next

end Admission

attribute [grind] Read.request? Hand.count Grip.count Grip.fresh

end Skygo.Transport
