import Mathlib.Logic.Function.Basic
import Skygo.Cluster.World

/-! `Reserve`, `Service.Start`, `Service.Stop` and `System.Stop` in steps of single loads and stores.

In the world `Start` and `Stop` take effect at once. Here a call that holds the lock of a service loads the state
in one step and stores it in another, since the finalizer stores the state without the lock. In the same way
`Reserve` loads the flag of the system before it takes the lock of the registry, and `System.Stop` stores the flag
before it looks at the registry. Handlers and options play no role.
-/

set_option autoImplicit false

namespace Skygo.Cluster.Stopping

open Semantics Actor

/-- What happened to a service: a store to its state, or a `Start` or a `Stop` that returned nil. -/
inductive Event where
  | stored (state : ServiceState)
  | startReturned
  | stopReturned
  deriving DecidableEq

inductive Finalizing where
  | waiting (kind : Finalizer)
  | unpublishing
  | storing
  | closing
  | finished
  deriving DecidableEq

structure Service where
  name : String
  address : Nat
  state : ServiceState := .reserved
  /-- The call that holds `mu`. -/
  mu : Option Nat := none
  canceled : Bool := false
  /-- `runtime` is set, and its `done` is closed. -/
  runtime : Bool := false
  loopDone : Bool := false
  finalizing : Option Finalizing := none
  events : List Event := [.stored .reserved]
  deriving DecidableEq

/-- `beginFinalize` waits for the loop if there is one. -/
def Service.kind (svc : Service) : Finalizer := if svc.runtime then .afterLoop else .immediate

inductive Place where
  | start
  | startStoring
  | startReturned (ok : Bool)
  | stop
  | stopStoring
  | finalizing (kind : Finalizer)
  | waiting
  | stopReturned (ok : Bool)
  deriving DecidableEq

def Place.stores : Place → Bool
  | .startStoring | .stopStoring => true
  | _ => false

structure Call where
  service : Nat
  place : Place
  deriving DecidableEq

inductive ReservePlace where
  | checking
  | inserting
  | returned (result : Except Fault Nat)

structure Reservation where
  name : String
  place : ReservePlace := .checking

inductive ShutdownPlace where
  | flagging
  | snapshotting
  | next (rest : List Nat)
  | inside (c : Nat) (rest : List Nat)
  | returned (ok : Bool)
  deriving DecidableEq

def ShutdownPlace.looked : ShutdownPlace → Bool
  | .flagging | .snapshotting => false
  | _ => true

structure System where
  stopping : Bool := false
  services : List Service := []
  byName : String → Option Nat := fun _ => none
  byAddress : Nat → Option Nat := fun _ => none
  nextAddress : Nat := 0
  calls : List Call := []
  reservations : List Reservation := []
  shutdowns : List ShutdownPlace := []

namespace System

def setService (s : System) (j : Nat) (f : Service → Service) : System :=
  { s with services := s.services.modify j f }

def setPlace (s : System) (c : Nat) (place : Place) : System :=
  { s with calls := s.calls.modify c fun call => { call with place := place } }

def setShutdown (s : System) (k : Nat) (place : ShutdownPlace) : System :=
  { s with shutdowns := s.shutdowns.modify k fun _ => place }

def setReservation (s : System) (r : Nat) (place : ReservePlace) : System :=
  { s with reservations := s.reservations.modify r fun reservation => { reservation with place := place } }

def reserveCheck (s : System) (name : String) : ReservePlace :=
  if s.stopping then .returned (.error (.bare .serviceStopping))
  else if name = "" then .returned (.error (.wrapped .invalidArgs "empty service name"))
  else .inserting

def reserveInsert (s : System) (r : Nat) (name : String) : System :=
  if (s.byName name).isSome then
    s.setReservation r (.returned (.error (.plain ("actor: duplicate service name " ++ name.quote))))
  else
    { s.setReservation r (.returned (.ok s.services.length)) with
      services := s.services ++ [{ name := name, address := s.nextAddress + 1 }]
      byName := Function.update s.byName name (some s.services.length)
      byAddress := Function.update s.byAddress (s.nextAddress + 1) (some s.services.length)
      nextAddress := s.nextAddress + 1 }

def startLoad (s : System) (c j : Nat) (svc : Service) : System :=
  if svc.state = .reserved then
    (s.setPlace c .startStoring).setService j fun svc => { svc with mu := some c }
  else s.setPlace c (.startReturned false)

def startStore (s : System) (c j : Nat) : System :=
  (s.setPlace c (.startReturned true)).setService j fun svc =>
    { svc with
      state := .running
      runtime := true
      mu := none
      events := svc.events ++ [.stored .running, .startReturned] }

def stopLoad (s : System) (c j : Nat) (svc : Service) : System :=
  match svc.state with
  | .stopped =>
      (s.setPlace c (.stopReturned true)).setService j fun svc => { svc with events := svc.events ++ [.stopReturned] }
  -- `state` is left as it is until the finalizer stores it
  | .reserved => (s.setPlace c (.finalizing .immediate)).setService j fun svc => { svc with canceled := true }
  | .running => (s.setPlace c .stopStoring).setService j fun svc => { svc with mu := some c }
  | .stopping => s.setPlace c (.finalizing svc.kind)

def stopStore (s : System) (c j : Nat) (svc : Service) : System :=
  (s.setPlace c (.finalizing svc.kind)).setService j fun svc =>
    { svc with state := .stopping, canceled := true, mu := none, events := svc.events ++ [.stored .stopping] }

def beginFinalize (s : System) (c j : Nat) (kind : Finalizer) : System :=
  (s.setPlace c .waiting).setService j fun svc =>
    -- `finalizeOnce`: the first call decides what is waited for
    { svc with finalizing := svc.finalizing <|> some (.waiting kind) }

def unpublish (s : System) (j : Nat) (svc : Service) : System :=
  { s.setService j fun svc => { svc with finalizing := some .storing } with
    byName := if s.byName svc.name = some j then Function.update s.byName svc.name none else s.byName
    byAddress :=
      if s.byAddress svc.address = some j then Function.update s.byAddress svc.address none else s.byAddress }

def registered (s : System) : List Nat :=
  (List.range s.services.length).filter fun j => At s.services j fun svc => s.byAddress svc.address = some j

def afterStop (rest : List Nat) (ok : Bool) : ShutdownPlace := if ok then .next rest else .returned false

inductive Action where
  | reserve (name : String)
  | reserveCheck (r : Nat) (name : String)
  | reserveInsert (r : Nat) (name : String)
  | start (j : Nat)
  | startLoad (c j : Nat)
  | startStore (c j : Nat)
  | stop (j : Nat)
  | stopLoad (c j : Nat)
  | stopStore (c j : Nat)
  | beginFinalize (c j : Nat) (kind : Finalizer)
  | finalized (c j : Nat)
  | expired (c : Nat)
  | loopExit (j : Nat)
  | finalizerWake (j : Nat)
  | unpublish (j : Nat)
  | finalizerStore (j : Nat)
  | finalizerClose (j : Nat)
  | shutdown
  | flag (k : Nat)
  | snapshot (k : Nat) (order : List Nat)
  | callStop (k j : Nat) (rest : List Nat)
  | stopReturned (k c : Nat) (rest : List Nat) (ok : Bool)
  | shutdownDone (k : Nat)
  deriving DecidableEq

def CallAt (s : System) (c j : Nat) (place : Place) : Prop := s.calls[c]? = some ⟨j, place⟩

instance (s : System) (c j : Nat) (place : Place) : Decidable (s.CallAt c j place) := by
  unfold CallAt
  infer_instance

def isChecking : ReservePlace → Bool
  | .checking => true
  | _ => false

def isInserting : ReservePlace → Bool
  | .inserting => true
  | _ => false

def Wakes (svc : Service) : Prop :=
  svc.finalizing = some (.waiting .immediate) ∨ (svc.finalizing = some (.waiting .afterLoop) ∧ svc.loopDone = true)

instance (svc : Service) : Decidable (Wakes svc) := by
  unfold Wakes
  infer_instance

def Enabled (s : System) : Action → Prop
  | .reserve _ | .shutdown => True
  | .reserveCheck r name => At s.reservations r fun reservation =>
      reservation.name = name ∧ isChecking reservation.place = true
  | .reserveInsert r name => At s.reservations r fun reservation =>
      reservation.name = name ∧ isInserting reservation.place = true
  | .start j | .stop j => j < s.services.length
  | .startLoad c j => s.CallAt c j .start ∧ At s.services j fun svc => svc.mu = none
  | .startStore c j => s.CallAt c j .startStoring
  | .stopLoad c j => s.CallAt c j .stop ∧ At s.services j fun svc => svc.mu = none
  | .stopStore c j => s.CallAt c j .stopStoring
  | .beginFinalize c j kind => s.CallAt c j (.finalizing kind)
  | .finalized c j => s.CallAt c j .waiting ∧ At s.services j fun svc => svc.finalizing = some .finished
  | .expired c => At s.calls c fun call => call.place = .waiting
  -- the loop ends some time after `cancel`, not with it
  | .loopExit j => At s.services j fun svc => svc.runtime = true ∧ svc.canceled = true
  | .finalizerWake j => At s.services j Wakes
  | .unpublish j => At s.services j fun svc => svc.finalizing = some .unpublishing
  | .finalizerStore j => At s.services j fun svc => svc.finalizing = some .storing
  | .finalizerClose j => At s.services j fun svc => svc.finalizing = some .closing
  | .flag k => s.shutdowns[k]? = some .flagging
  -- the range over `byAddress` has no order
  | .snapshot k order => s.shutdowns[k]? = some .snapshotting ∧ order.Perm s.registered
  | .callStop k j rest => s.shutdowns[k]? = some (.next (j :: rest))
  | .stopReturned k c rest ok => s.shutdowns[k]? = some (.inside c rest) ∧
      At s.calls c fun call => call.place = .stopReturned ok
  | .shutdownDone k => s.shutdowns[k]? = some (.next [])

def withService (s : System) (j : Nat) (f : Service → System) : System :=
  match s.services[j]? with
  | some svc => f svc
  | none => s

def next (s : System) : Action → System
  | .reserve name => { s with reservations := s.reservations ++ [{ name := name }] }
  | .reserveCheck r name => s.setReservation r (s.reserveCheck name)
  | .reserveInsert r name => s.reserveInsert r name
  | .start j => { s with calls := s.calls ++ [⟨j, .start⟩] }
  | .startLoad c j => s.withService j fun svc => s.startLoad c j svc
  | .startStore c j => s.startStore c j
  | .stop j => { s with calls := s.calls ++ [⟨j, .stop⟩] }
  | .stopLoad c j => s.withService j fun svc => s.stopLoad c j svc
  | .stopStore c j => s.withService j fun svc => s.stopStore c j svc
  | .beginFinalize c j kind => s.beginFinalize c j kind
  | .finalized c j =>
      (s.setPlace c (.stopReturned true)).setService j fun svc => { svc with events := svc.events ++ [.stopReturned] }
  | .expired c => s.setPlace c (.stopReturned false)
  | .loopExit j => s.setService j fun svc => { svc with loopDone := true }
  | .finalizerWake j => s.setService j fun svc => { svc with finalizing := some .unpublishing }
  | .unpublish j => s.withService j fun svc => s.unpublish j svc
  -- without `svc.mu`: a `Start` between its load and its store does not hold it up
  | .finalizerStore j => s.setService j fun svc =>
      { svc with state := .stopped, finalizing := some .closing, events := svc.events ++ [.stored .stopped] }
  | .finalizerClose j => s.setService j fun svc => { svc with finalizing := some .finished }
  | .shutdown => { s with shutdowns := s.shutdowns ++ [.flagging] }
  | .flag k => { s.setShutdown k .snapshotting with stopping := true }
  | .snapshot k order => s.setShutdown k (.next order)
  | .callStop k j rest =>
      { s.setShutdown k (.inside s.calls.length rest) with calls := s.calls ++ [⟨j, .stop⟩] }
  | .stopReturned k _ rest ok => s.setShutdown k (afterStop rest ok)
  | .shutdownDone k => s.setShutdown k (.returned true)

def machine : Machine System Action where
  Enabled := Enabled
  next := next
  decideEnabled s a := by
    cases a <;> unfold Enabled <;> infer_instance

attribute [grind] setService setPlace setShutdown setReservation reserveCheck reserveInsert startLoad startStore
  stopLoad stopStore beginFinalize unpublish afterStop CallAt isChecking isInserting Wakes Enabled withService next

end System

attribute [grind] Service.kind Place.stores ShutdownPlace.looked

end Skygo.Cluster.Stopping
