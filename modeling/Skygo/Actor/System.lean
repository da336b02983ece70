import Mathlib.Data.Finset.Basic
import Skygo.Actor.Effects
import Skygo.Semantics.Gauge

/-! One actor system: its services, the calls waiting on them and its drain tracker.

Sessions are numbered by the order of `nextSessionID`, so the call with session
`n + 1` is the `n`th in the table. Counters are natural numbers; the source's wrap
at 2^64. The codec's work on a response is left out: a call that received a result
returns what `unpackCallResult` makes of it.
-/

set_option autoImplicit false

namespace Skygo.Actor

open Semantics

inductive Cause where
  | timeout
  | canceled (err : ContextError)
  | stopping
  deriving DecidableEq

inductive Outcome where
  | delivered
  | expired (cause : Cause)
  | rejected (fault : Fault)
  deriving DecidableEq

/-- Where the goroutine in `callMailbox`, or in `DispatchRemoteAsync` and the one it
starts, stands. -/
inductive CallPc where
  | allocated
  | registered
  | admitting
  | waiting
  | expired (cause : Cause)
  | counting
  | receiving
  | returned (outcome : Outcome)
  deriving DecidableEq

/-- One call session. `received` is what the caller took from `response`. `completes` and `cancels` count the times `LoadAndDelete` found
the session, for `completeSession` and for `cancelSession`. -/
structure Call (Msg : Type) where
  service : Nat
  remote : Bool
  pc : CallPc := .allocated
  request : Option Nat := none
  response : Option (CallResult Msg) := none
  received : Option (CallResult Msg) := none
  completes : Nat := 0
  cancels : Nat := 0
  deriving DecidableEq

/-- A `drainPermit`. `finished` says that `Finish` has run its once, or that the callback
of `MaintenanceWork` has returned; `failed` that `Finish` was given an error. -/
structure Permit where
  maintenance : Bool
  active : Bool := true
  finished : Bool := false
  failed : Bool := false
  deriving DecidableEq

structure DrainState where
  admissionClosed : Bool
  inFlight : Nat
  failures : Nat
  deriving DecidableEq

/-- `drainTracker`: the gauge holds `pending` and `zero`. -/
structure DrainTracker where
  closed : Bool := false
  failures : Nat := 0
  durableFailures : Nat := 0
  baseline : Nat := 0
  gauge : Gauge := {}
  deriving DecidableEq

inductive DrainPc where
  | waiting
  | reading
  | expired (err : ContextError)
  | returned (state : DrainState) (err : Option Fault)
  deriving DecidableEq

structure DrainCall where
  zero : Nat
  pc : DrainPc := .waiting
  deriving DecidableEq

namespace DrainTracker

def pending (d : DrainTracker) : Nat := d.gauge.count

/-- The common beginning of `trackAdmission`, `ReserveWork` and `MaintenanceWork`. -/
def begin (d : DrainTracker) : DrainTracker := { d with gauge := d.gauge.raise }

def trackAdmission (d : DrainTracker) : DrainTracker := d.begin

def reserveWork (d : DrainTracker) : DrainTracker := d.begin

def enterMaintenance (d : DrainTracker) : DrainTracker := d.begin

def finishTracked (d : DrainTracker) (failed : Bool) : DrainTracker :=
  { d with failures := d.failures + failed.toNat, gauge := d.gauge.lower }

def finish (d : DrainTracker) (failed : Bool) : DrainTracker :=
  { d with durableFailures := d.durableFailures + failed.toNat, gauge := d.gauge.lower }

def leaveMaintenance (d : DrainTracker) : DrainTracker := { d with gauge := d.gauge.lower }

def close (d : DrainTracker) : DrainTracker :=
  if d.closed then d else { d with closed := true, baseline := d.failures }

def resumeAdmission (d : DrainTracker) : DrainTracker :=
  { d with closed := false, baseline := d.failures }

def state (d : DrainTracker) : DrainState :=
  ⟨d.closed, d.pending, d.failures - d.baseline + d.durableFailures⟩

def verdict (d : DrainTracker) : Option Fault :=
  if d.state.failures ≠ 0 then some (.plain "actor: admitted work failed during drain") else none

attribute [grind] pending begin trackAdmission reserveWork enterMaintenance finishTracked finish leaveMaintenance
  close resumeAdmission state verdict

end DrainTracker

/-- `drainable` stands for `s.drain != nil`; `self` tells systems of one process apart. -/
structure System (Msg : Type) where
  self : Nat
  drainable : Bool
  mailboxes : List (ServiceRuntime Msg) := []
  calls : List (Call Msg) := []
  pending : Finset Nat := ∅
  timedOut : Nat := 0
  unknown : Nat := 0
  drain : DrainTracker := {}
  permits : List Permit := []
  drains : List DrainCall := []

inductive SystemAction (Msg : Type) where
  | start (name : String) (opts : ServiceOptions)
  | mail (k : Nat) (a : Action Msg)
  | allocate (k : Nat) (remote : Bool)
  | register (c : Nat)
  | packFailed (c : Nat) (detail : String)
  | admitCall (c : Nat) (ctx : Context) (protocol : String)
  | rejected (c : Nat) (fault : Fault)
  | admitted (c : Nat)
  | receive (c : Nat)
  | expire (c : Nat) (cause : Cause)
  | cancel (c : Nat) (cause : Cause)
  | countTimeout (c : Nat)
  | receiveLate (c : Nat)
  | reserveWork
  | finish (p : Nat) (failed : Bool)
  | enterMaintenance
  | leaveMaintenance (p : Nat)
  | drain
  | drainObserved (i : Nat)
  | drainExpired (i : Nat) (err : ContextError)
  | drainRead (i : Nat)
  | drainGiveUp (i : Nat) (err : ContextError)
  | resumeAdmission
  deriving DecidableEq

namespace System

variable {Msg : Type}

def request (s : System Msg) (k id : Nat) : Option (Request Msg) :=
  s.mailboxes[k]?.bind (·.requests[id]?)

def activation (s : System Msg) (ref : ActivationRef) : Option (Request Msg) :=
  if ref.system = s.self then s.request ref.service ref.request else none

def permit (s : System Msg) (ref : PermitRef) : Option Permit :=
  if ref.system = s.self then s.permits[ref.permit]? else none

def Carries (s : System Msg) (ctx : Context) : Prop :=
  (∀ ref ∈ ctx.activation, ref.system = s.self → ∃ r ∈ s.activation ref, r.started = true) ∧
  ∀ ref ∈ ctx.permit, ref.system = s.self → (s.permit ref).isSome = true

def Admits (s : System Msg) (ctx : Context) : Prop :=
  s.drain.closed = true →
    (∃ ref ∈ ctx.activation, ∃ r ∈ s.activation ref, r.maintenanceFinished = false) ∨
    ∃ ref ∈ ctx.permit, ∃ p ∈ s.permit ref, p.active = true

instance (s : System Msg) (ctx : Context) : Decidable (s.Carries ctx) :=
  inferInstanceAs (Decidable (_ ∧ _))

instance (s : System Msg) (ctx : Context) : Decidable (s.Admits ctx) :=
  inferInstanceAs (Decidable (_ → _))

/-- What the rest of the system must hold for an effect on the record `r`:
`completeSession` finds the session or does not, and its send finds the one-slot
channel empty. -/
def Answers (s : System Msg) (e : Effect) (r : Request Msg) : Prop :=
  match e with
  | .take => r.session ∈ s.pending
  | .lose => r.session ∉ s.pending
  | .deliver => At s.calls (r.session - 1) (·.response = none)
  | _ => True

instance (s : System Msg) (e : Effect) (r : Request Msg) : Decidable (s.Answers e r) := by
  cases e <;> dsimp only [Answers] <;> infer_instance

def target (m : ServiceRuntime Msg) (a : Action Msg) : Option (Request Msg) :=
  (Runtime.subject m a).bind (m.requests[·]?)

/-- A service takes an action together with the rest of the system. Envelopes that
expect a response come from calls, which submit them on their own. -/
def Agrees (s : System Msg) (m : ServiceRuntime Msg) (a : Action Msg) : Prop :=
  (∀ r ∈ target m a, s.Answers (Runtime.effect m a) r) ∧
  match a with
  | .submit ctx _ _ expects _ => expects = false ∧ s.Carries ctx
  | .track _ admitted => ∀ r ∈ target m a, m.drainable = true → (admitted = true ↔ s.Admits r.ctx)
  | _ => True

instance (s : System Msg) (m : ServiceRuntime Msg) (a : Action Msg) : Decidable (s.Agrees m a) := by
  rcases a with _ | _ <;> dsimp only [Agrees] <;> infer_instance

def apply (s : System Msg) (e : Effect) (r : Request Msg) : System Msg :=
  match e with
  | .silent | .lose => s
  | .raise => { s with drain := s.drain.trackAdmission }
  | .lower failed => { s with drain := s.drain.finishTracked failed }
  | .take =>
      { s with
        pending := s.pending.erase r.session
        calls := s.calls.modify (r.session - 1) fun c => { c with completes := c.completes + 1 } }
  | .deliver =>
      { s with calls := s.calls.modify (r.session - 1) fun c => { c with response := r.result } }
  | .miss => { s with unknown := s.unknown + 1 }

/-- `cancelSession` of call `c`, which then goes to `won` or to `lost`. -/
def cancelSession (s : System Msg) (c : Nat) (won lost : CallPc) : System Msg :=
  if c + 1 ∈ s.pending then
    { s with
      pending := s.pending.erase (c + 1)
      calls := s.calls.modify c fun call => { call with pc := won, cancels := call.cancels + 1 } }
  else { s with calls := s.calls.modify c fun call => { call with pc := lost } }

def goto (s : System Msg) (c : Nat) (pc : CallPc) : System Msg :=
  { s with calls := s.calls.modify c fun call => { call with pc := pc } }

def AdmitReturned (s : System Msg) (call : Call Msg) (fault : Option Fault) : Prop :=
  ∃ id ∈ call.request, At s.mailboxes call.service fun m =>
    At m.requests id (·.admission = .returned fault)

instance (s : System Msg) (call : Call Msg) (fault : Option Fault) : Decidable (s.AdmitReturned call fault) :=
  inferInstanceAs (Decidable (∃ id ∈ call.request, _))

/-- Where a caller goes once its `cancelSession` won: a timeout is counted first. -/
def afterCancel (cause : Cause) : CallPc :=
  match cause with
  | .timeout => .counting
  | cause => .returned (.expired cause)

def Enabled (s : System Msg) : SystemAction Msg → Prop
  | .start _ _ => True
  | .mail k a => At s.mailboxes k fun m => Runtime.Enabled m a ∧ s.Agrees m a
  | .allocate k _ => k < s.mailboxes.length
  | .register c => At s.calls c (·.pc = .allocated)
  | .packFailed c _ => At s.calls c fun call => call.pc = .registered ∧ call.remote = true
  | .admitCall c ctx _ => At s.calls c (·.pc = .registered) ∧ s.Carries ctx
  | .rejected c fault => At s.calls c fun call => call.pc = .admitting ∧ s.AdmitReturned call (some fault)
  | .admitted c => At s.calls c fun call => call.pc = .admitting ∧ s.AdmitReturned call none
  | .receive c => At s.calls c fun call => call.pc = .waiting ∧ call.response.isSome = true
  | .expire c cause => At s.calls c fun call => call.pc = .waiting ∧
      (cause = .stopping → At s.mailboxes call.service (·.canceled = true))
  | .cancel c cause => At s.calls c (·.pc = .expired cause)
  | .countTimeout c => At s.calls c (·.pc = .counting)
  | .receiveLate c => At s.calls c fun call => call.pc = .receiving ∧ call.response.isSome = true
  | .reserveWork | .enterMaintenance | .drain | .resumeAdmission => s.drainable = true
  | .finish p _ => At s.permits p (·.maintenance = false)
  | .leaveMaintenance p => At s.permits p fun permit => permit.maintenance = true ∧ permit.finished = false
  | .drainObserved i => At s.drains i fun d => d.pc = .waiting ∧ s.drain.gauge.IsClosed d.zero
  | .drainExpired i _ => At s.drains i (·.pc = .waiting)
  | .drainRead i => At s.drains i (·.pc = .reading)
  | .drainGiveUp i err => At s.drains i (·.pc = .expired err)

def takeResponse (call : Call Msg) : Call Msg :=
  { call with response := none, received := call.response, pc := .returned .delivered }

def next (s : System Msg) : SystemAction Msg → System Msg
  | .start name opts => { s with mailboxes := s.mailboxes ++ [.start name opts s.drainable] }
  | .mail k a =>
      match s.mailboxes[k]? with
      | some m =>
          let moved := { s with mailboxes := s.mailboxes.modify k (Runtime.next · a) }
          match target m a with
          | some r => moved.apply (Runtime.effect m a) r
          | none => moved
      | none => s
  | .allocate k remote => { s with calls := s.calls ++ [{ service := k, remote := remote }] }
  | .register c => { s with pending := insert (c + 1) s.pending }.goto c .registered
  | .packFailed c detail =>
      let fault := Fault.wrapped .codec detail
      s.cancelSession c (.returned (.rejected fault)) (.returned (.rejected fault))
  | .admitCall c ctx protocol =>
      match s.calls[c]? with
      | some call =>
          match s.mailboxes[call.service]? with
          | some m =>
              { s with
                mailboxes := s.mailboxes.modify call.service
                  (Runtime.next · (.submit ctx protocol (c + 1) true false))
                calls := s.calls.modify c fun call =>
                  { call with pc := .admitting, request := some m.requests.length } }
          | none => s
      | none => s
  | .rejected c fault => s.cancelSession c (.returned (.rejected fault)) (.returned (.rejected fault))
  | .admitted c => s.goto c .waiting
  | .receive c | .receiveLate c => { s with calls := s.calls.modify c takeResponse }
  | .expire c cause => s.goto c (.expired cause)
  | .cancel c cause => s.cancelSession c (afterCancel cause) .receiving
  | .countTimeout c => { s with timedOut := s.timedOut + 1 }.goto c (.returned (.expired .timeout))
  | .reserveWork =>
      if s.drain.closed = true ∧ s.drain.pending = 0 then s
      else { s with drain := s.drain.reserveWork, permits := s.permits ++ [{ maintenance := false }] }
  | .finish p failed =>
      if At s.permits p (·.finished = true) then s
      else
        { s with
          drain := s.drain.finish failed
          permits := s.permits.modify p fun permit =>
            { permit with active := false, finished := true, failed := failed } }
  | .enterMaintenance =>
      { s with drain := s.drain.enterMaintenance, permits := s.permits ++ [{ maintenance := true }] }
  | .leaveMaintenance p =>
      { s with
        drain := s.drain.leaveMaintenance
        permits := s.permits.modify p fun permit => { permit with active := false, finished := true } }
  | .drain => { s with drain := s.drain.close, drains := s.drains ++ [{ zero := s.drain.gauge.channel }] }
  | .drainObserved i => { s with drains := s.drains.modify i fun d => { d with pc := .reading } }
  | .drainExpired i err => { s with drains := s.drains.modify i fun d => { d with pc := .expired err } }
  | .drainRead i =>
      { s with drains := s.drains.modify i fun d =>
          { d with pc := .returned s.drain.state s.drain.verdict } }
  | .drainGiveUp i err =>
      { s with drains := s.drains.modify i fun d =>
          { d with pc := .returned s.drain.state (some (.context err)) } }
  | .resumeAdmission => { s with drain := s.drain.resumeAdmission }

def decideEnabled (s : System Msg) (a : SystemAction Msg) : Decidable (Enabled s a) := by
  cases a <;> dsimp only [Enabled] <;> infer_instance

instance (s : System Msg) (a : SystemAction Msg) : Decidable (Enabled s a) := decideEnabled s a

def machine (Msg : Type) : Machine (System Msg) (SystemAction Msg) where
  Enabled := Enabled
  next := next
  decideEnabled := decideEnabled

def fresh (self : Nat) (drainable : Bool) : System Msg := { self := self, drainable := drainable }

attribute [grind] request activation permit Carries Admits Answers target Agrees apply cancelSession goto
  AdmitReturned afterCancel Enabled takeResponse next

end System

end Skygo.Actor
