import Mathlib.Data.List.Basic
import Skygo.Semantics.Machine
import Skygo.Semantics.Table

/-! The component runtime: `Add`, and calls of `Start` and `Stop` from several goroutines.

The steps are the sections under the runtime's lock and the calls of the components, which may fail. A
component is known by its place in the order of registration: the list of entries only grows, so a copy of it
agrees with it. A call of a component counts as made when it returns.
-/

set_option autoImplicit false

namespace Skygo.App

open Semantics

inductive Event where
  | added (i : Nat)
  | startBegan
  | started (i : Nat)
  | startFailed (i : Nat)
  | stopped (i : Nat)
  | startReturned (ok : Bool)
  deriving DecidableEq

/-- Where a call of `Start` or `Stop` is. What it joins to its error is kept along. -/
inductive Place where
  /-- The component `i` is being started. -/
  | starting (i : Nat)
  /-- It has been started, `started = i + 1` is next. -/
  | counting (i : Nat)
  /-- It has failed, `started = i` is next. -/
  | failing (i : Nat) (errs : List String)
  | readying
  /-- At the lock of `stopStarted`. -/
  | taking (errs : List String)
  /-- With the components that are still to be stopped, the last one first. -/
  | stopping (entries : List String) (errs : List String)
  | returned (errs : List String)
  deriving DecidableEq

structure Call where
  isStart : Bool
  /-- The copy of the entries that `Start` makes. -/
  entries : List String := []
  place : Place
  deriving DecidableEq

structure Runtime where
  entries : List String := []
  started : Nat := 0
  ready : Bool := false
  stopped : Bool := false
  calls : List Call := []
  log : List Event := []
  deriving DecidableEq

namespace Call

def proceed (call : Call) (i : Nat) : Place := if i < call.entries.length then .starting i else .readying

def name (call : Call) (i : Nat) : String := (call.entries[i]?).getD ""

def isReturned (call : Call) : Bool :=
  match call.place with
  | .returned _ => true
  | _ => false

/-- Between the admission of a `Start` and its last update of `started`. -/
def isStarting (call : Call) : Bool :=
  match call.place with
  | .starting _ | .counting _ | .failing _ _ => true
  | _ => false

def inProgress (call : Call) : Bool := call.isStart && !call.isReturned

attribute [grind] proceed isReturned isStarting inProgress

end Call

namespace Runtime

def fresh (r : Runtime) : Bool := r.started = 0 && !r.ready && !r.stopped

def add (r : Runtime) (name : String) (isNil : Bool) : Except String Runtime :=
  if name = "" ∨ isNil then .error "app: invalid component"
  else if r.fresh = false then .error "app: runtime already started"
  else if name ∈ r.entries then .error ("app: duplicate component " ++ name.quote)
  else .ok { r with entries := r.entries ++ [name], log := r.log ++ [.added r.entries.length] }

def setPlace (r : Runtime) (k : Nat) (place : Place) : Runtime :=
  { r with calls := r.calls.modify k fun call => { call with place := place } }

def record (r : Runtime) (event : Event) : Runtime := { r with log := r.log ++ [event] }

def start (r : Runtime) : Runtime :=
  if r.fresh = false then
    { r with calls := r.calls ++ [{
        isStart := true
        place := .returned ["app: runtime cannot start in current state"] }] }
  else
    -- the lock is released with nothing changed that a second call would see
    { r.record .startBegan with calls := r.calls ++ [{
        isStart := true
        entries := r.entries
        place := Call.proceed { isStart := true, entries := r.entries, place := .readying } 0 }] }

def stop (r : Runtime) : Runtime :=
  -- a second `Stop` returns nil, even while the first still stops components
  if r.stopped then { r with calls := r.calls ++ [{ isStart := false, place := .returned [] }] }
  else { r with stopped := true, ready := false, calls := r.calls ++ [{ isStart := false, place := .taking [] }] }

def take (r : Runtime) (k : Nat) (errs : List String) : Runtime :=
  { r.setPlace k (.stopping (r.entries.take r.started) errs) with started := 0 }

def stopOne (r : Runtime) (k : Nat) (entries errs : List String) (err : Option String) : Runtime :=
  (r.setPlace k (.stopping entries.dropLast
    (errs ++ (err.map fun err => "app: stop " ++ entries.getLastD "" ++ ": " ++ err).toList))).record
    (.stopped (entries.length - 1))

/-- The call returns; the errors of a `Start` that got this far are not empty. -/
def finish (r : Runtime) (k : Nat) (errs : List String) : Runtime :=
  let r' := r.setPlace k (.returned errs)
  if At r.calls k (fun call => call.isStart = true) then r'.record (.startReturned false) else r'

inductive Action where
  | add (name : String) (isNil : Bool)
  | start
  | componentStarted (k i : Nat)
  | componentFailed (k i : Nat) (err : String)
  | count (k i : Nat)
  | fail (k i : Nat) (errs : List String)
  | becomeReady (k : Nat)
  | stop
  | take (k : Nat) (errs : List String)
  | componentStopped (k : Nat) (entries errs : List String) (err : Option String)
  | finish (k : Nat) (errs : List String)
  deriving DecidableEq

def Enabled (r : Runtime) : Action → Prop
  | .add _ _ | .start | .stop => True
  | .componentStarted k i | .componentFailed k i _ => At r.calls k fun call => call.place = .starting i
  | .count k i => At r.calls k fun call => call.place = .counting i
  | .fail k i errs => At r.calls k fun call => call.place = .failing i errs
  | .becomeReady k => At r.calls k fun call => call.place = .readying
  | .take k errs => At r.calls k fun call => call.place = .taking errs
  | .componentStopped k entries errs _ => At r.calls k (fun call => call.place = .stopping entries errs) ∧ entries ≠ []
  | .finish k errs => At r.calls k fun call => call.place = .stopping [] errs

def next (r : Runtime) : Action → Runtime
  | .add name isNil =>
      match r.add name isNil with
      | .ok r' => r'
      | .error _ => r
  | .start => r.start
  | .componentStarted k i => (r.setPlace k (.counting i)).record (.started i)
  | .componentFailed k i err =>
      { r with
        calls := r.calls.modify k fun call =>
          { call with place := .failing i ["app: start " ++ call.name i ++ ": " ++ err] }
        log := r.log ++ [.startFailed i] }
  -- `r.started = i + 1`, whatever it is by now
  | .count k i =>
      { r with
        started := i + 1
        calls := r.calls.modify k fun call => { call with place := call.proceed (i + 1) } }
  | .fail k i errs => { r.setPlace k (.taking errs) with started := i }
  -- `stopped` is not looked at again
  | .becomeReady k => { (r.setPlace k (.returned [])).record (.startReturned true) with ready := true }
  | .stop => r.stop
  | .take k errs => r.take k errs
  | .componentStopped k entries errs err => r.stopOne k entries errs err
  | .finish k errs => r.finish k errs

def machine : Machine Runtime Action where
  Enabled := Enabled
  next := next
  decideEnabled r a := by
    cases a <;> unfold Enabled <;> infer_instance

attribute [grind] add setPlace record start stop take stopOne finish Enabled next

end Runtime

/-- An observer of the log: which components run, how many calls of `Start` are in progress and whether one has
succeeded. -/
structure Monitor where
  running : List Nat := []
  starting : Nat := 0
  succeeded : Bool := false
  deriving DecidableEq

/-- What the observer puts up with. A component is not started while it runs; only the running component that was
registered last is stopped; none is added during a `Start` or after one that succeeded. -/
def Monitor.observe (m : Monitor) : Event → Option Monitor
  | .added _ => if m.starting = 0 ∧ m.succeeded = false then some m else none
  | .startBegan => some { m with starting := m.starting + 1 }
  | .started i => if i ∈ m.running then none else some { m with running := i :: m.running }
  | .startFailed i => if i ∈ m.running then none else some m
  | .stopped i =>
      if i ∈ m.running ∧ ∀ j ∈ m.running, j ≤ i then some { m with running := m.running.erase i } else none
  | .startReturned ok => some { m with starting := m.starting - 1, succeeded := m.succeeded || ok }

def Monitor.watch (m : Monitor) : List Event → Option Monitor
  | [] => some m
  | event :: rest => (m.observe event).bind fun m' => m'.watch rest

end Skygo.App
