import Skygo.Actor.Handlers
import Skygo.Actor.Outcome

/-! Several actor systems, the services they publish, the references to these and the
operations made through the references.

Each host is one `System` with the node it is attached to. The services of a host run
on the mailboxes of its system, so a step of the world takes the steps of `Actor.System`
where the source does. The wire may hand a request to any process that is up: what keeps
it from the wrong one are the checks of the receiver. Nil contexts, the payloads and the
codecs' failures on them, and the descriptor check of a typed local call, whose lookups
`Call` and `Send` repeat, are left out.
-/

set_option autoImplicit false

namespace Skygo.Cluster

open Semantics Actor

inductive ServiceState where
  | reserved | running | stopping | stopped
  deriving DecidableEq

inductive Finalizer where
  | immediate | afterLoop
  deriving DecidableEq

/-- `handlerEntry`; the fingerprint is that of a `WireCodec`. -/
structure HandlerEntry where
  protocol : String
  fingerprint : Option String
  deriving DecidableEq

/-- `published` stands for the entries in `byName` and `byAddress`, which `Reserve` makes and
`unpublish` deletes together. `requested` holds the `Stop` calls on their way to
`beginFinalize`, `finalizer` the one that used `finalizeOnce`. -/
structure Service where
  name : String
  address : Nat
  generation : Nat
  opts : ServiceOptions
  handlers : List HandlerEntry := []
  state : ServiceState := .reserved
  canceled : Bool := false
  mailbox : Option Nat := none
  requested : List Finalizer := []
  finalizer : Option Finalizer := none
  published : Bool := true
  deriving DecidableEq

structure RemoteTarget where
  node : String
  incarnation : Nat
  service : String
  address : Nat
  generation : Nat
  deriving DecidableEq

/-- `origin` is the host and the service the reference was obtained for; it is history. -/
structure Ref where
  address : Nat
  generation : Nat
  system : Nat
  remote : Option RemoteTarget
  origin : Nat × Nat
  deriving DecidableEq

def Ref.valid (ref : Ref) : Bool := ref.address ≠ 0 && ref.generation ≠ 0

def Ref.isRemote (ref : Ref) : Bool := ref.remote.isSome

structure Host (Msg : Type) where
  node : String
  incarnation : Nat
  alive : Bool := true
  stopping : Bool := false
  nextAddress : Nat := 0
  nextGeneration : Nat := 0
  services : List Service := []
  system : System Msg

inductive Verb where
  | call | send | trySend
  deriving DecidableEq

/-- Where the goroutine of an operation stands: `found` after the read of `byAddress`,
`checked` before it enters the mailbox, `remote` while another process works on it. -/
inductive OpPc where
  | begin
  | found (service : Nat)
  | checked (service : Nat)
  | session (service call : Nat)
  | waiting (service call : Nat)
  | sending (service request : Nat)
  | remote
  | returned (fault : Option Fault)
  deriving DecidableEq

/-- One `Call`, `Send` or `TrySend`, or the work of `DispatchRemoteAsync` for one of another
process, its `parent`. `typed` operations route a remote reference through the transport.
`again` says that an inbound notification has gone on to `Send`. The fields from `caller`
on are history, except that `child` also stands for the reply the parent waits for. -/
structure Op where
  ref : Ref
  typed : Bool
  verb : Verb
  protocol : String
  fingerprint : Option String
  ctx : Context
  noYield : Bool
  pc : OpPc := .begin
  again : Bool := false
  onWire : Bool := false
  caller : Option ActivationRef
  parent : Option Nat := none
  child : Option Nat := none
  envelope : Option (Nat × Nat) := none
  deriving DecidableEq

structure World (Msg : Type) where
  hosts : List (Host Msg) := []
  refs : List Ref := []
  ops : List Op := []

namespace Service

def handler (svc : Service) (protocol : String) : Except Fault HandlerEntry :=
  match svc.handlers.find? (·.protocol = protocol) with
  | some entry => .ok entry
  | none => .error (.wrapped .protocolNotFound ("service=" ++ svc.name ++ " protocol=" ++ protocol))

def ready (svc : Service) : Except Fault Unit :=
  match svc.state with
  | .running => .ok ()
  | .reserved => .error (.bare .serviceNotReady)
  | .stopping | .stopped => .error (.bare .serviceStopping)

def register (svc : Service) (entry : HandlerEntry) : Service :=
  if svc.state = .reserved ∧ svc.handlers.all (·.protocol ≠ entry.protocol) then
    { svc with handlers := svc.handlers ++ [entry] }
  else svc

def stop (svc : Service) : Service :=
  match svc.state with
  | .stopped => svc
  | .reserved => { svc with canceled := true, requested := .immediate :: svc.requested }
  | .running =>
      { svc with state := .stopping, canceled := true, requested := .afterLoop :: svc.requested }
  | .stopping => { svc with requested := .afterLoop :: svc.requested }

def beginFinalize (svc : Service) (kind : Finalizer) : Service :=
  { svc with finalizer := svc.finalizer <|> some kind }

attribute [grind] handler ready register stop beginFinalize

end Service

namespace Host

variable {Msg : Type}

def byName (host : Host Msg) (name : String) : Option Nat :=
  host.services.findIdx? fun svc => svc.published && svc.name = name

def byAddress (host : Host Msg) (address : Nat) : Option Nat :=
  host.services.findIdx? fun svc => svc.published && svc.address = address

def reserve (host : Host Msg) (h : Nat) (name : String) (opts : ServiceOptions) :
    Except Fault (Host Msg × Ref) :=
  if host.stopping then .error (.bare .serviceStopping)
  else if name = "" then .error (.wrapped .invalidArgs "empty service name")
  else if (host.byName name).isSome then .error (.plain ("actor: duplicate service name " ++ name.quote))
  else
    let address := host.nextAddress + 1
    let generation := host.nextGeneration + 1
    .ok ({ host with
        nextAddress := address
        nextGeneration := generation
        services := host.services ++ [{
          name := name
          address := address
          generation := generation
          opts := opts.withDefaults }] },
      { address := address
        generation := generation
        system := h
        remote := none
        origin := (h, host.services.length) })

def resolve (host : Host Msg) (h : Nat) (name : String) : Except Fault Ref :=
  match host.byName name with
  | none => .error (.wrapped .serviceNotFound name)
  | some j =>
      match host.services[j]? with
      | none => .error (.wrapped .serviceNotFound name)
      | some svc =>
          if svc.state ≠ .running then .error (.wrapped .serviceNotReady name)
          else .ok { address := svc.address, generation := svc.generation, system := h, remote := none,
                     origin := (h, j) }

def lookup (host : Host Msg) (ref : Ref) : Except Fault Nat :=
  if ref.valid = false then .error (.bare .staleRef)
  else
    match host.byAddress ref.address with
    | none => .error (.bare .staleRef)
    | some j =>
        if At host.services j (·.generation = ref.generation) then .ok j else .error (.bare .staleRef)

/-- `Start`; a `Stop` before it has already canceled the service's context. -/
def start (host : Host Msg) (j : Nat) (svc : Service) : Host Msg :=
  let k := host.system.mailboxes.length
  let started := System.next host.system (.start svc.name svc.opts)
  { host with
    services := host.services.modify j fun svc => { svc with state := .running, mailbox := some k }
    system := if svc.canceled then System.next started (.mail k .cancel) else started }

def stop (host : Host Msg) (j : Nat) (svc : Service) : Host Msg :=
  { host with
    services := host.services.modify j Service.stop
    system := match svc.state, svc.mailbox with
      | .running, some k => System.next host.system (.mail k .cancel)
      | _, _ => host.system }

def validateInboundTarget (host : Host Msg) (target : RemoteTarget) : Bool :=
  target.node = host.node && target.incarnation = host.incarnation

attribute [grind] start stop validateInboundTarget

end Host

structure WireFrame where
  node : String
  service : String
  protocol : String
  deriving DecidableEq

def toWirePath (path : List CallFrame) : List WireFrame :=
  path.map fun frame => ⟨frame.node, frame.service, frame.protocol⟩

def fromWirePath (path : List WireFrame) : List CallFrame :=
  path.map fun frame => ⟨frame.node, frame.service, frame.protocol⟩

@[simp] theorem fromWirePath_toWirePath (path : List CallFrame) : fromWirePath (toWirePath path) = path := by
  simp [fromWirePath, toWirePath, Function.comp_def]

namespace Op

def inbound (op : Op) : Bool := op.parent.isSome && !op.again

def isReturned (op : Op) : Bool :=
  match op.pc with
  | .returned _ => true
  | _ => false

/-- Between the checks and the mailbox; an inbound notification starts over in `Send`. -/
def pass (op : Op) (j : Nat) : Op :=
  if op.inbound ∧ op.verb ≠ .call then { op with pc := .begin, again := true }
  else { op with pc := .checked j }

/-- The operation of the process that the request is delivered to. `Send` carries an inbound
notification, whichever way it was sent. -/
def arrive (op : Op) (o h : Nat) (target : RemoteTarget) (ctx : Context) (pc : OpPc) : Op where
  ref := { address := target.address, generation := target.generation, system := h, remote := none,
           origin := op.ref.origin }
  typed := false
  verb := if op.verb = .call then .call else .send
  protocol := op.protocol
  fingerprint := op.fingerprint
  ctx := ctx
  noYield := false
  pc := pc
  caller := op.caller
  parent := some o

attribute [grind] inbound isReturned pass arrive

end Op

def answer {Msg : Type} (call : Call Msg) (name protocol : String) (c : Nat) : Option (Option Fault) :=
  match call.pc with
  | .returned .delivered => some (call.received.bind CallResult.fault?)
  | .returned (.rejected fault) => some (some fault)
  | .returned (.expired .timeout) => some (some (.wrapped .callTimeout
      ("service=" ++ name ++ " protocol=" ++ protocol ++ " session=" ++ toString (c + 1))))
  | .returned (.expired (.canceled err)) => some (some (.context err))
  | .returned (.expired .stopping) => some (some (.bare .serviceStopping))
  | _ => none

/-- The checks between the lookup of a service and its mailbox: those of `Call` up to the
yield, of `DispatchRemoteAsync`, or of `Send` and `TrySend`. -/
def Host.check {Msg : Type} (host : Host Msg) (svc : Service) (op : Op) : Except Fault Unit := do
  svc.ready
  let entry ← svc.handler op.protocol
  if op.inbound ∧ (entry.fingerprint = none ∨ entry.fingerprint ≠ op.fingerprint) then
    throw (.wrapped .protocolTypeMismatch ("service=" ++ svc.name ++ " protocol=" ++ op.protocol))
  if op.verb = .call ∧ (op.inbound ∨ op.ctx.activation = none ∨ op.noYield = false) ∧
      svc.opts.noInterleave ∧ callPathContains (some op.ctx) host.node svc.name then
    throw (.wrapped .callCycle (formatCallCycle (some op.ctx) host.node svc.name op.protocol))
  if op.verb = .call ∧ op.inbound = false ∧ op.ctx.activation.isSome ∧ op.noYield then
    throw (.bare .yieldForbidden)

/-- What the transport does with a remote operation before it leaves the process: it is
refused, dispatched by the node's own system, or put on the wire to a peer whose handshake
named the incarnation `peer`. -/
inductive Route where
  | refused (fault : Fault)
  | ownSystem
  | wire
  deriving DecidableEq

def Host.route {Msg : Type} (host : Host Msg) (op : Op) (target : RemoteTarget) (peer : Nat) : Route :=
  if op.fingerprint = none then
    .refused (.wrapped .codec ("remote protocol=" ++ op.protocol ++ " has no wire codec"))
  else if op.verb = .call ∧ op.ctx.activation.isSome ∧ op.noYield then .refused (.bare .yieldForbidden)
  else if target.node = host.node then
    if target.incarnation ≠ host.incarnation then .refused (.bare .staleRef) else .ownSystem
  else if target.incarnation ≠ peer then .refused (.bare .staleRef)
  else .wire

inductive WorldAction (Msg : Type) where
  | boot (node : String) (incarnation : Nat) (drainable : Bool)
  | crash (h : Nat)
  | shutdown (h : Nat)
  | reserve (h : Nat) (name : String) (opts : ServiceOptions)
  | handle (h j : Nat) (entry : HandlerEntry)
  | start (h j : Nat)
  | stop (h j : Nat)
  | beginFinalize (h j : Nat) (kind : Finalizer)
  | unpublish (h j : Nat)
  | retire (h j : Nat)
  | resolve (h : Nat) (name : String)
  | resolveRemote (h h' : Nat) (name : String)
  | internal (h : Nat) (a : SystemAction Msg)
  | begin (ref : Nat) (typed : Bool) (verb : Verb) (protocol : String) (fingerprint : Option String)
      (caller : Option ActivationRef) (ctx : Context) (noYield : Bool)
  | lookup (o : Nat)
  | check (o j : Nat)
  | yieldRefused (o j : Nat) (fault : Fault)
  | allocate (o j k c : Nat)
  | admitCall (o j k c id : Nat)
  | submit (o j k id : Nat)
  | finish (o : Nat) (fault : Option Fault)
  | transmit (o peer : Nat)
  | deliver (o h : Nat)
  | reply (o o' : Nat) (fault : Option Fault)
  | abandon (o : Nat) (fault : Fault)
  deriving DecidableEq

def isInternal {Msg : Type} : SystemAction Msg → Bool
  | .start .. | .allocate .. | .admitCall .. | .mail _ (.submit ..) | .mail _ .cancel => false
  | _ => true

namespace World

variable {Msg : Type}

def onHost (w : World Msg) (h : Nat) (f : Host Msg → Host Msg) : World Msg :=
  { w with hosts := w.hosts.modify h f }

def onOp (w : World Msg) (o : Nat) (f : Op → Op) : World Msg := { w with ops := w.ops.modify o f }

def take (w : World Msg) (h : Nat) (a : SystemAction Msg) : World Msg :=
  w.onHost h fun host => { host with system := System.next host.system a }

def request (w : World Msg) (act : ActivationRef) : Option (Request Msg) :=
  w.hosts[act.system]?.bind fun host => host.system.request act.service act.request

def frame (w : World Msg) (act : ActivationRef) : Option CallFrame := do
  let host ← w.hosts[act.system]?
  let m ← host.system.mailboxes[act.service]?
  let r ← m.requests[act.request]?
  return ⟨host.node, m.name, r.protocol⟩

def handlerContext (w : World Msg) (act : ActivationRef) : Option Context := do
  let r ← w.request act
  let frame ← w.frame act
  return Actor.handlerContext r.ctx act frame

def Handling (w : World Msg) (act : ActivationRef) : Prop := ∃ r ∈ w.request act, r.pc.isHandling = true

instance (w : World Msg) (act : ActivationRef) : Decidable (w.Handling act) :=
  inferInstanceAs (Decidable (∃ r ∈ w.request act, _))

/-- A handler returns only after its own operations have. -/
def Returns (w : World Msg) (h : Nat) : SystemAction Msg → Prop
  | .mail k (.handlerReturned id _ _) => ∀ op ∈ w.ops, op.caller = some ⟨h, k, id⟩ → op.parent = none →
      op.isReturned = true
  | _ => True

instance (w : World Msg) (h : Nat) (a : SystemAction Msg) : Decidable (w.Returns h a) := by
  rcases a with _ | ⟨_, _ | _⟩ | _ <;> dsimp only [Returns] <;> infer_instance

def Finishes (host : Host Msg) (op : Op) (fault : Option Fault) : Prop :=
  match op.pc with
  | .session j c | .waiting j c => At host.system.calls c fun call => At host.services j fun svc =>
      answer call svc.name op.protocol c = some fault
  | .sending _ id => ∃ entry ∈ op.envelope, At host.system.mailboxes entry.1 fun m =>
      At m.requests id (·.admission = .returned fault)
  | _ => False

instance (host : Host Msg) (op : Op) (fault : Option Fault) : Decidable (Finishes host op fault) := by
  unfold Finishes
  split <;> infer_instance

def Up (w : World Msg) (h : Nat) (p : Host Msg → Prop) : Prop :=
  At w.hosts h fun host => host.alive = true ∧ p host

instance (w : World Msg) (h : Nat) (p : Host Msg → Prop) [DecidablePred p] : Decidable (w.Up h p) :=
  inferInstanceAs (Decidable (At _ _ _))

def Enabled (w : World Msg) : WorldAction Msg → Prop
  | .boot node incarnation _ =>
      (∀ host ∈ w.hosts, host.incarnation ≠ incarnation) ∧ ∀ host ∈ w.hosts, host.alive = true → host.node ≠ node
  | .crash h | .shutdown h | .reserve h _ _ | .resolve h _ => w.Up h fun _ => True
  | .handle h j _ | .stop h j => w.Up h fun host => At host.services j fun _ => True
  | .start h j => w.Up h fun host => At host.services j (·.state = .reserved)
  | .beginFinalize h j kind => w.Up h fun host => At host.services j (kind ∈ ·.requested)
  | .unpublish h j => w.Up h fun host => At host.services j fun svc =>
      svc.finalizer = some .immediate ∨
        (svc.finalizer = some .afterLoop ∧ ∃ k ∈ svc.mailbox, At host.system.mailboxes k (·.done = true))
  | .retire h j => w.Up h fun host => At host.services j fun svc =>
      svc.finalizer.isSome = true ∧ svc.published = false
  | .resolveRemote h h' _ => w.Up h (fun _ => True) ∧ w.Up h' fun _ => True
  | .internal h a => isInternal a = true ∧ (w.Up h fun host => System.Enabled host.system a) ∧ w.Returns h a
  | .begin ref _ _ _ _ caller ctx _ => ref < w.refs.length ∧
      ∀ act ∈ caller, w.Handling act ∧ w.handlerContext act = some ctx ∧ w.Up act.system fun _ => True
  | .lookup o => At w.ops o fun op => op.pc = .begin ∧ ¬(op.typed = true ∧ op.ref.isRemote = true) ∧
      w.Up op.ref.system fun _ => True
  | .check o j => At w.ops o fun op => op.pc = .found j ∧
      w.Up op.ref.system fun host => At host.services j fun _ => True
  | .yieldRefused o j _ => At w.ops o fun op => op.pc = .checked j ∧ op.verb = .call ∧ op.parent = none ∧
      op.ctx.activation.isSome = true
  | .allocate o j k c => At w.ops o fun op => op.pc = .checked j ∧ op.verb = .call ∧
      w.Up op.ref.system fun host => At host.services j (·.mailbox = some k) ∧
        c = host.system.calls.length ∧ System.Enabled host.system (.allocate k op.inbound)
  | .admitCall o j k c id => At w.ops o fun op => op.pc = .session j c ∧
      w.Up op.ref.system fun host => At host.system.calls c (·.service = k) ∧
        At host.system.mailboxes k (id = ·.requests.length) ∧
        System.Enabled host.system (.admitCall c op.ctx op.protocol)
  | .submit o j k id => At w.ops o fun op => op.pc = .checked j ∧ op.verb ≠ .call ∧
      w.Up op.ref.system fun host => At host.services j (·.mailbox = some k) ∧
        At host.system.mailboxes k (id = ·.requests.length) ∧
        System.Enabled host.system (.mail k (.submit op.ctx op.protocol 0 false (op.verb = .trySend)))
  | .finish o fault => At w.ops o fun op => w.Up op.ref.system fun host => Finishes host op fault
  | .transmit o _ => At w.ops o fun op => op.pc = .begin ∧ op.typed = true ∧ op.ref.isRemote = true ∧
      w.Up op.ref.system fun _ => True
  | .deliver o h => At w.ops o (fun op => op.onWire = true ∧ op.ref.isRemote = true) ∧ w.Up h fun _ => True
  | .reply o o' fault => At w.ops o (fun op => op.pc = .remote ∧ op.child = some o') ∧
      At w.ops o' (·.pc = .returned fault)
  | .abandon o _ => At w.ops o (·.pc = .remote)

def withOp (w : World Msg) (o : Nat) (f : Op → World Msg) : World Msg :=
  match w.ops[o]? with
  | some op => f op
  | none => w

def withHost (w : World Msg) (h : Nat) (f : Host Msg → World Msg) : World Msg :=
  match w.hosts[h]? with
  | some host => f host
  | none => w

def leave (w : World Msg) (o : Nat) (fault : Option Fault) : World Msg :=
  w.onOp o fun op => { op with pc := .returned fault }

def spawn (w : World Msg) (o : Nat) (op' : Op) : World Msg :=
  { w with ops := (w.ops.modify o fun op => { op with onWire := false, child := some w.ops.length }) ++ [op'] }

def next (w : World Msg) : WorldAction Msg → World Msg
  | .boot node incarnation drainable =>
      { w with hosts := w.hosts ++ [{
          node := node
          incarnation := incarnation
          system := System.fresh w.hosts.length drainable }] }
  | .crash h => w.onHost h fun host => { host with alive := false }
  | .shutdown h => w.onHost h fun host => { host with stopping := true }
  | .reserve h name opts => w.withHost h fun host =>
      match host.reserve h name opts with
      | .ok (host', ref) => { w.onHost h fun _ => host' with refs := w.refs ++ [ref] }
      | .error _ => w
  | .handle h j entry => w.onHost h fun host =>
      { host with services := host.services.modify j (·.register entry) }
  | .start h j => w.onHost h fun host =>
      match host.services[j]? with
      | some svc => host.start j svc
      | none => host
  | .stop h j => w.onHost h fun host =>
      match host.services[j]? with
      | some svc => host.stop j svc
      | none => host
  | .beginFinalize h j kind => w.onHost h fun host =>
      { host with services := host.services.modify j (·.beginFinalize kind) }
  | .unpublish h j => w.onHost h fun host =>
      { host with services := host.services.modify j fun svc => { svc with published := false } }
  | .retire h j => w.onHost h fun host =>
      { host with services := host.services.modify j fun svc => { svc with state := .stopped } }
  | .resolve h name => w.withHost h fun host =>
      match host.resolve h name with
      | .ok ref => { w with refs := w.refs ++ [ref] }
      | .error _ => w
  | .resolveRemote h h' name => w.withHost h' fun host' =>
      match host'.resolve h' name with
      | .ok ref =>
          -- `ResolveRemote` turns down a target without a node
          if host'.node = "" then w
          else
            let target := RemoteTarget.mk host'.node host'.incarnation name ref.address ref.generation
            { w with refs := w.refs ++ [{ ref with system := h, remote := some target }] }
      | .error _ => w
  | .internal h a => w.take h a
  | .begin ref typed verb protocol fingerprint caller ctx noYield =>
      match w.refs[ref]? with
      | some ref =>
          { w with ops := w.ops ++ [{
              ref := ref
              typed := typed
              verb := verb
              protocol := protocol
              fingerprint := fingerprint
              ctx := ctx
              noYield := noYield
              caller := caller }] }
      | none => w
  | .lookup o => w.withOp o fun op => w.withHost op.ref.system fun host =>
      match host.lookup op.ref with
      | .ok j => w.onOp o fun op => { op with pc := .found j }
      | .error fault => w.leave o (some fault)
  | .check o j => w.withOp o fun op => w.withHost op.ref.system fun host =>
      match host.services[j]? with
      | some svc =>
          match host.check svc op with
          | .ok () => w.onOp o (·.pass j)
          | .error fault => w.leave o (some fault)
      | none => w
  | .yieldRefused o _ fault => w.leave o (some fault)
  | .allocate o j k c => w.withOp o fun op =>
      (w.take op.ref.system (.allocate k op.inbound)).onOp o fun op => { op with pc := .session j c }
  | .admitCall o j k c id => w.withOp o fun op =>
      (w.take op.ref.system (.admitCall c op.ctx op.protocol)).onOp o fun op =>
        { op with pc := .waiting j c, envelope := some (k, id) }
  | .submit o j k id => w.withOp o fun op =>
      (w.take op.ref.system (.mail k (.submit op.ctx op.protocol 0 false (op.verb = .trySend)))).onOp o
        fun op => { op with pc := .sending j id, envelope := some (k, id) }
  | .finish o fault => w.leave o fault
  | .transmit o peer => w.withOp o fun op => w.withHost op.ref.system fun host =>
      match op.ref.remote with
      | some target =>
          match host.route op target peer with
          | .refused fault => w.leave o (some fault)
          | .ownSystem =>
              (w.onOp o fun op => { op with pc := .remote }).spawn o
                (op.arrive o op.ref.system target (withCallPath (some op.ctx) (callPath (some op.ctx))) .begin)
          | .wire => w.onOp o fun op =>
              { op with onWire := true, pc := if op.verb = .call then .remote else .returned none }
      | none => w
  | .deliver o h => w.withOp o fun op => w.withHost h fun host =>
      match op.ref.remote with
      | some target =>
          w.spawn o (op.arrive o h target
            (withCallPath none (fromWirePath (toWirePath (callPath (some op.ctx)))))
            (if host.validateInboundTarget target then .begin else .returned (some (.bare .staleRef))))
      | none => w
  | .reply o _ fault => w.leave o fault
  | .abandon o fault => w.leave o (some fault)

def decideEnabled (w : World Msg) (a : WorldAction Msg) : Decidable (Enabled w a) := by
  cases a <;> dsimp only [Enabled] <;> infer_instance

instance (w : World Msg) (a : WorldAction Msg) : Decidable (Enabled w a) := decideEnabled w a

def machine (Msg : Type) : Machine (World Msg) (WorldAction Msg) where
  Enabled := Enabled
  next := next
  decideEnabled := decideEnabled

attribute [grind] onHost onOp take request frame Handling Returns Finishes Up Enabled withOp withHost leave spawn next

end World

attribute [grind] Ref.isRemote answer Host.check Host.route isInternal

end Skygo.Cluster
