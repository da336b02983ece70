import Skygo.Cluster.World

/-! `Notification.TrySend` through a local reference and through one that `ResolveRemote` made for
the caller's own node.

Both routes are followed through their checks to the mailbox at one moment of the process: the local
one through `validateDescriptor` and `TrySend`, the other through `sendRemote`, `Node.Send`,
`DispatchRemoteAsync` and `Send`. What the select of `admit` or `tryAdmit` then finds ready is what the
service's runtime allows. Requests for other nodes, and calls, are those of `World`.
-/

set_option autoImplicit false

namespace Skygo.Cluster

open Semantics Actor

structure WireCodec (Args Payload Msg : Type) where
  fingerprint : String
  packRequest : Args → Except String Msg
  marshalRequest : Args → Except String Payload
  unmarshalRequest : Payload → Except String Args

/-- `methodToken`, which is compared as a pointer. -/
structure MethodToken where
  pointer : Nat
  request : String
  response : String
  deriving DecidableEq

structure Notification (Args Payload Msg : Type) where
  name : String
  token : Option MethodToken
  wire : Option (WireCodec Args Payload Msg)

/-- What a `handlerEntry` has besides its protocol and fingerprint. `unmarshalRequest` is that of a `WireCodec`. -/
structure Binding (Args Payload Msg : Type) where
  descriptor : Option MethodToken
  packRequest : Args → Except String Msg
  unmarshalRequest : Payload → Except String Args

structure Process (Args Payload Msg : Type) where
  host : Host Msg
  binding : Nat → HandlerEntry → Binding Args Payload Msg

structure Letter (Msg : Type) where
  mailbox : Option Nat
  ctx : Context
  protocol : String
  request : Msg
  nonBlocking : Bool
  deriving DecidableEq

/-- What else the selects find: that the admission timer fired, that the caller's context is done, and that the loop
ends and does not receive the event. -/
structure Moment where
  timer : Bool := false
  cause : Option ContextError := none
  ends : Bool := false
  deriving DecidableEq

inductive Outcome where
  | admitted
  | refused (fault : Fault)
  /-- It stands in the select of `admit`, and nothing is ready. -/
  | waits
  /-- The service runs without a runtime. -/
  | panics
  deriving DecidableEq

section Mailbox

variable {Msg : Type}

def Moment.allows (now : Moment) : Fault → Bool
  | .bare .mailboxTimeout => now.timer
  | .context cause => now.cause = some cause
  | _ => true

/-- `emit`, once the envelope holds a slot. -/
def Moment.emit (now : Moment) (m : ServiceRuntime Msg) : Outcome :=
  if m.done || now.ends then .refused (.bare .serviceStopping) else .admitted

def selectCases : List (Option Fault) :=
  [none, some (.bare .mailboxFull), some (.bare .mailboxTimeout), some (.context .canceled),
    some (.context .deadlineExceeded), some (.bare .serviceStopping)]

def Letter.tracked (letter : Letter Msg) (m : ServiceRuntime Msg) : ServiceRuntime Msg :=
  Runtime.next (Runtime.next m (.submit letter.ctx letter.protocol 0 false letter.nonBlocking)) (.track m.requests.length true)

def Letter.Ready (letter : Letter Msg) (m : ServiceRuntime Msg) (now : Moment) : Option Fault → Prop
  | none => Runtime.Enabled (letter.tracked m) (.acquire m.requests.length)
  | some fault => Runtime.Enabled (letter.tracked m) (.refuse m.requests.length fault) ∧ now.allows fault = true

instance (letter : Letter Msg) (m : ServiceRuntime Msg) (now : Moment) (case_ : Option Fault) :
    Decidable (letter.Ready m now case_) := by
  cases case_ <;> dsimp only [Letter.Ready] <;> infer_instance

/-- What the select of `admit` or `tryAdmit` may lead to: it takes any case that is ready. -/
def Letter.select (letter : Letter Msg) (m : ServiceRuntime Msg) (now : Moment) : List Outcome :=
  match selectCases.filter fun case_ => letter.Ready m now case_ with
  | [] => [.waits]
  | ready => ready.map fun case_ => (case_.map Outcome.refused).getD (now.emit m)

end Mailbox

namespace Host

variable {Msg : Type}

def service (host : Host Msg) (ref : Ref) : Except Fault (Nat × Service) := do
  let j ← host.lookup ref
  match host.services[j]? with
  | some svc =>
    svc.ready
    return (j, svc)
  | none => throw (.bare .staleRef)

/-- `ResolveRemote` of a service of the own node. -/
def resolveRemote (host : Host Msg) (h : Nat) (name : String) : Except Fault Ref := do
  let ref ← host.resolve h name
  if host.node = "" ∨ ref.address = 0 ∨ ref.generation = 0 then
    throw (.wrapped .staleRef ("invalid target for " ++ host.node ++ "/" ++ name))
  return { ref with remote := some ⟨host.node, host.incarnation, name, ref.address, ref.generation⟩ }

def Refuses (host : Host Msg) (ctx : Context) : Prop := host.system.drainable = true ∧ ¬host.system.Admits ctx

instance (host : Host Msg) (ctx : Context) : Decidable (host.Refuses ctx) := inferInstanceAs (Decidable (_ ∧ _))

def runtime (host : Host Msg) (mailbox : Option Nat) : Option (ServiceRuntime Msg) :=
  mailbox.bind fun k => host.system.mailboxes[k]?

def offer (host : Host Msg) (now : Moment) (letter : Letter Msg) : List Outcome :=
  if host.Refuses letter.ctx then [.refused (.bare .maintenance)]
  else
    match host.runtime letter.mailbox with
    | some m => letter.select m now
    | none => [.panics]

end Host

namespace Process

variable {Args Payload Msg : Type}

/-- `System.service` and `Service.handler`. -/
def reach (p : Process Args Payload Msg) (ref : Ref) (protocol : String) :
    Except Fault (Nat × Service × HandlerEntry) := do
  let (j, svc) ← p.host.service ref
  let entry ← svc.handler protocol
  return (j, svc, entry)

def validateDescriptor (p : Process Args Payload Msg) (ref : Ref) (name : String) (token : Option MethodToken) :
    Except Fault Unit :=
  match token with
  | none => throw (.wrapped .protocolTypeMismatch "empty descriptor")
  | some token => do
    if name = "" then throw (.wrapped .protocolTypeMismatch "empty descriptor")
    if ref.valid = false then throw (.bare .staleRef)
    let (j, svc, entry) ← p.reach ref name
    if (p.binding j entry).descriptor.map MethodToken.pointer ≠ some token.pointer then
      throw (.wrapped .protocolTypeMismatch ("service=" ++ svc.name ++ " protocol=" ++ name ++ " request=" ++
        token.request ++ " response=" ++ token.response))

/-- `Send` and `TrySend` up to the mailbox. -/
def post (p : Process Args Payload Msg) (ctx : Option Context) (ref : Ref) (protocol : String) (args : Args)
    (nonBlocking : Bool) : Except Fault (Letter Msg) :=
  match ctx with
  | none => throw (.wrapped .invalidArgs "nil context")
  | some ctx => do
    if ref.valid = false then throw (.bare .staleRef)
    let (j, svc, entry) ← p.reach ref protocol
    match (p.binding j entry).packRequest args with
    | .error detail => throw (.wrapped .codec detail)
    | .ok request =>
      return { mailbox := svc.mailbox, ctx := ctx, protocol := protocol, request := request, nonBlocking := nonBlocking }

def send (p : Process Args Payload Msg) (ctx : Option Context) (ref : Ref) (protocol : String) (args : Args) :
    Except Fault (Letter Msg) :=
  p.post ctx ref protocol args false

def trySend (p : Process Args Payload Msg) (ctx : Option Context) (ref : Ref) (protocol : String) (args : Args) :
    Except Fault (Letter Msg) :=
  p.post ctx ref protocol args true

/-- `DispatchRemoteAsync` of a notification. -/
def dispatchRemoteAsync (p : Process Args Payload Msg) (ctx : Context) (target : RemoteTarget) (origin : Nat × Nat)
    (protocol fingerprint : String) (payload : Payload) : Except Fault (Letter Msg) := do
  if target.node ≠ "" ∧ p.host.node ≠ "" ∧ target.node ≠ p.host.node then throw (.bare .staleRef)
  let ref : Ref :=
    { address := target.address, generation := target.generation, system := p.host.system.self, remote := none,
      origin := origin }
  let (j, svc, entry) ← p.reach ref protocol
  if entry.fingerprint ≠ some fingerprint then
    throw (.wrapped .protocolTypeMismatch ("service=" ++ svc.name ++ " protocol=" ++ protocol))
  match (p.binding j entry).unmarshalRequest payload with
  | .error detail => throw (.wrapped .codec detail)
  | .ok args => p.send (some ctx) ref protocol args

/-- `Node.Send` to a target on the node itself, where `nonBlocking` is not looked at. -/
def sendSelf (p : Process Args Payload Msg) (ctx : Context) (target : RemoteTarget) (origin : Nat × Nat)
    (protocol fingerprint : String) (payload : Payload) (path : List CallFrame) (_nonBlocking : Bool) :
    Except Fault (Letter Msg) := do
  if target.incarnation ≠ p.host.incarnation then throw (.bare .staleRef)
  p.dispatchRemoteAsync (withCallPath (some ctx) path) target origin protocol fingerprint payload

def sendRemote (p : Process Args Payload Msg) (ctx : Option Context) (ref : Ref) (protocol : String)
    (codec : WireCodec Args Payload Msg) (args : Args) (nonBlocking : Bool) : Except Fault (Letter Msg) :=
  match ctx with
  | none => throw (.wrapped .invalidArgs "nil context")
  | some ctx =>
    match ref.remote with
    | none => throw (.bare .remoteUnavailable)
    | some target =>
      match codec.marshalRequest args with
      | .error detail => throw (.wrapped .codec detail)
      | .ok payload =>
        p.sendSelf ctx target ref.origin protocol codec.fingerprint payload (callPath (some ctx)) nonBlocking

end Process

namespace Notification

variable {Args Payload Msg : Type}

def trySend (n : Notification Args Payload Msg) (p : Process Args Payload Msg) (ctx : Option Context) (ref : Ref)
    (args : Args) : Except Fault (Letter Msg) :=
  if ref.isRemote then
    match n.token, n.wire with
    | some _, some codec => p.sendRemote ctx ref n.name codec args true
    | _, _ => throw (.wrapped .codec ("remote protocol=" ++ n.name ++ " has no wire codec"))
  else do
    p.validateDescriptor ref n.name n.token
    p.trySend ctx ref n.name args

def outcomes (n : Notification Args Payload Msg) (p : Process Args Payload Msg) (now : Moment) (ctx : Option Context)
    (ref : Ref) (args : Args) : List Outcome :=
  match n.trySend p ctx ref args with
  | .error fault => [.refused fault]
  | .ok letter => p.host.offer now letter

end Notification

end Skygo.Cluster
