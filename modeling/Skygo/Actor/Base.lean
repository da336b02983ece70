import Mathlib.Data.List.Basic

/-! Values shared by the actor runtime: errors, service options, call frames
and the actor-owned part of a context.

Only what the runtime reads from a `context.Context` is kept. Deriving a
context with the standard library leaves these values alone, so a derived
context is the same value here; cancellation and deadlines are actions of the
machines that select on them.
-/

set_option autoImplicit false

namespace Skygo.Actor

inductive Sentinel where
  | serviceNotFound | serviceNotReady | serviceStopping | staleRef
  | protocolNotFound | protocolTypeMismatch | invalidArgs | codec
  | mailboxTimeout | mailboxFull | callTimeout | callCycle
  | suspendLimit | yieldForbidden | runtimeInvariant
  | remoteUnavailable | transportBackpressure | maintenance
  deriving DecidableEq

inductive ContextError where
  | canceled | deadlineExceeded
  deriving DecidableEq

/-- An error value: a sentinel returned as it is, a sentinel wrapped with `%w`,
a context error, or an error without a sentinel (also the handler's own). -/
inductive Fault where
  | bare (sentinel : Sentinel)
  | wrapped (sentinel : Sentinel) (detail : String)
  | context (cause : ContextError)
  | plain (message : String)
  deriving DecidableEq

/-- `errors.Is` against a sentinel. -/
def Fault.is (fault : Fault) (sentinel : Sentinel) : Bool :=
  match fault with
  | .bare actual | .wrapped actual _ => actual = sentinel
  | .context _ | .plain _ => false

structure ServiceOptions where
  mailboxSize : Int := 0
  maxSuspended : Int := 0
  admissionTimeout : Int := 0
  callTimeout : Int := 0
  activeWarn : Int := 0
  suspendedWarn : Int := 0
  noInterleave : Bool := false
  deriving DecidableEq

def orDefault (value fallback : Int) : Int := if value ≤ 0 then fallback else value

def ServiceOptions.withDefaults (o : ServiceOptions) : ServiceOptions where
  mailboxSize := orDefault o.mailboxSize 64
  maxSuspended := orDefault o.maxSuspended 1024
  admissionTimeout := orDefault o.admissionTimeout 1000000000
  callTimeout := orDefault o.callTimeout 5000000000
  activeWarn := orDefault o.activeWarn 100000000
  suspendedWarn := orDefault o.suspendedWarn 3000000000
  noInterleave := o.noInterleave

theorem orDefault_pos {value fallback : Int} (positive : 0 < fallback) :
    0 < orDefault value fallback := by
  unfold orDefault
  split <;> omega

theorem orDefault_idem {value fallback : Int} :
    orDefault (orDefault value fallback) fallback = orDefault value fallback := by
  unfold orDefault
  split
  · split <;> rfl
  · rfl

/-- Every numeric option is positive once defaulted, and defaulting again changes nothing. -/
theorem ServiceOptions.withDefaults_settled (o : ServiceOptions) :
    o.withDefaults.withDefaults = o.withDefaults ∧
    0 < o.withDefaults.mailboxSize ∧ 0 < o.withDefaults.maxSuspended ∧
    0 < o.withDefaults.admissionTimeout ∧ 0 < o.withDefaults.callTimeout ∧
    0 < o.withDefaults.activeWarn ∧ 0 < o.withDefaults.suspendedWarn := by
  refine ⟨?_, orDefault_pos (by decide), orDefault_pos (by decide), orDefault_pos (by decide),
    orDefault_pos (by decide), orDefault_pos (by decide), orDefault_pos (by decide)⟩
  simp only [ServiceOptions.withDefaults, orDefault_idem]

structure CallFrame where
  node : String
  service : String
  protocol : String
  deriving DecidableEq

structure ActivationRef where
  system : Nat
  service : Nat
  request : Nat
  deriving DecidableEq

structure PermitRef where
  system : Nat
  permit : Nat
  deriving DecidableEq

structure Context where
  activation : Option ActivationRef
  callPath : List CallFrame
  permit : Option PermitRef
  deriving DecidableEq

def Context.background : Context := ⟨none, [], none⟩

def callPath : Option Context → List CallFrame
  | none => []
  | some ctx => ctx.callPath

def withCallPath (ctx : Option Context) (path : List CallFrame) : Context :=
  { ctx.getD .background with callPath := path }

def callPathContains (ctx : Option Context) (node service : String) : Bool :=
  (callPath ctx).any fun frame => frame.node = node && frame.service = service

def handlerContext (base : Context) (act : ActivationRef) (frame : CallFrame) : Context :=
  { base with activation := some act, callPath := callPath (some base) ++ [frame] }

def CallFrame.label (frame : CallFrame) : String :=
  let name := if frame.node ≠ "" then frame.node ++ "/" ++ frame.service else frame.service
  if frame.protocol ≠ "" then name ++ "." ++ frame.protocol else name

def formatCallCycle (ctx : Option Context) (node service protocol : String) : String :=
  "chain=" ++ " -> ".intercalate
    ((callPath ctx ++ [CallFrame.mk node service protocol]).map CallFrame.label)

theorem callPathContains_iff {ctx : Option Context} {node service : String} :
    callPathContains ctx node service = true ↔
      ∃ frame ∈ callPath ctx, frame.node = node ∧ frame.service = service := by
  simp [callPathContains]

end Skygo.Actor
