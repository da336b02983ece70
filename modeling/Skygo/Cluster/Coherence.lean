import Skygo.Cluster.Operations

/-! What each operation knows of the service, the envelope and the handler it works for.

Hosts, services and envelopes never take back what an operation relies on. So one step
leaves only the operation that takes it to look at, and the handlers that return.
-/

set_option autoImplicit false

namespace Skygo.Cluster

open Semantics Actor

variable {Msg : Type} {w w' : World Msg} {a : WorldAction Msg} {o : Nat} {op op' child : Op}

namespace World

variable {act : ActivationRef} {r : Request Msg} {last : CallFrame} {ctx : Context}

theorem request_eq_some : w.request act = some r ↔
    ∃ host, w.hosts[act.system]? = some host ∧ host.system.request act.service act.request = some r := by
  simp [request, Option.bind_eq_some_iff]

theorem frame_eq_some : w.frame act = some last ↔
    ∃ (host : Host Msg) (m : ServiceRuntime Msg) (r : Request Msg), w.hosts[act.system]? = some host ∧
      host.system.mailboxes[act.service]? = some m ∧ m.requests[act.request]? = some r ∧
      last = ⟨host.node, m.name, r.protocol⟩ := by
  simp only [World.frame, bind, Option.bind_eq_some_iff, pure, Option.some.injEq]
  constructor
  · rintro ⟨host, found, m, box, r, there, same⟩
    exact ⟨host, m, r, found, box, there, same.symm⟩
  · rintro ⟨host, m, r, found, box, there, same⟩
    exact ⟨host, found, m, box, r, there, same.symm⟩

theorem handlerContext_eq_some : w.handlerContext act = some ctx ↔
    ∃ r frame, w.request act = some r ∧ w.frame act = some frame ∧ ctx = Actor.handlerContext r.ctx act frame := by
  simp only [World.handlerContext, bind, Option.bind_eq_some_iff, pure, Option.some.injEq]
  constructor
  · rintro ⟨r, found, frame, framed, same⟩
    exact ⟨r, frame, found, framed, same.symm⟩
  · rintro ⟨r, frame, found, framed, same⟩
    exact ⟨r, found, frame, framed, same.symm⟩

theorem frame_of_request (found : w.request act = some r) : ∃ frame, w.frame act = some frame := by
  obtain ⟨host, known, there⟩ := request_eq_some.mp found
  obtain ⟨m, box, there⟩ := System.request_eq_some.mp there
  exact ⟨_, frame_eq_some.mpr ⟨host, m, r, known, box, there, rfl⟩⟩

namespace Later

variable (later : w.Later w')
include later

theorem request (found : w.request act = some r) : ∃ r', w'.request act = some r' ∧ r'.ctx = r.ctx ∧
    r'.protocol = r.protocol ∧ r'.expectsResponse = r.expectsResponse := by
  obtain ⟨host, known, there⟩ := request_eq_some.mp found
  obtain ⟨host', known', kept⟩ := later.hosts _ host known
  obtain ⟨r', there', same⟩ := kept.system.requests _ _ r there
  exact ⟨r', request_eq_some.mpr ⟨host', known', there'⟩, same⟩

theorem frame (found : w.frame act = some last) : w'.frame act = some last := by
  obtain ⟨host, m, r, known, box, there, rfl⟩ := frame_eq_some.mp found
  obtain ⟨host', known', kept⟩ := later.hosts _ host known
  obtain ⟨m', box', name, _⟩ := kept.system.mailboxes _ m box
  obtain ⟨r', there', _, protocol, _⟩ := kept.system.requests _ _ r (System.request_eq_some.mpr ⟨m, box, there⟩)
  obtain ⟨_, box'', there''⟩ := System.request_eq_some.mp there'
  rw [box'] at box''
  cases box''
  exact frame_eq_some.mpr ⟨host', m', r', known', box', there'', by rw [kept.node, name, protocol]⟩

theorem handlerContext (found : w.handlerContext act = some ctx) : w'.handlerContext act = some ctx := by
  obtain ⟨r, frame, known, framed, rfl⟩ := handlerContext_eq_some.mp found
  obtain ⟨r', known', same, _⟩ := later.request known
  exact handlerContext_eq_some.mpr ⟨r', frame, known', later.frame framed, by rw [same]⟩

end Later

end World

namespace Op

def Serves (w : World Msg) (op : Op) (j : Nat) (p : Host Msg → Service → Prop) : Prop :=
  ∃ host svc, w.hosts[op.ref.system]? = some host ∧ host.services[j]? = some svc ∧ p host svc

structure Names (op : Op) (svc : Service) : Prop where
  address : svc.address = op.ref.address
  generation : svc.generation = op.ref.generation
  own : op.typed = true → op.ref.isRemote = false

def Clear (op : Op) (host : Host Msg) (svc : Service) : Prop :=
  op.verb = .call → svc.opts.noInterleave = true → callPathContains (some op.ctx) host.node svc.name = false

def Stands (w : World Msg) (op : Op) : Prop :=
  match op.pc with
  | .begin | .remote | .returned _ => True
  | .found j => op.Serves w j fun _ svc => op.Names svc
  | .checked j => op.Serves w j fun host svc => op.Names svc ∧ op.Clear host svc
  | .session j c => op.verb = .call ∧ op.Serves w j fun host svc => op.Names svc ∧ op.Clear host svc ∧
      ∃ call, host.system.calls[c]? = some call ∧ svc.mailbox = some call.service
  | .waiting j c => op.verb = .call ∧ op.Serves w j fun host svc => ∃ call id,
      host.system.calls[c]? = some call ∧ svc.mailbox = some call.service ∧ call.request = some id ∧
      op.envelope = some (call.service, id)
  | .sending _ id => op.verb ≠ .call ∧ ∃ k, op.envelope = some (k, id)

structure Posted (op : Op) (k id : Nat) (host : Host Msg) (svc : Service) : Prop where
  names : op.Names svc
  clear : op.Clear host svc
  mailbox : svc.mailbox = some k
  request : ∃ r, host.system.request k id = some r ∧ r.ctx = op.ctx ∧ r.protocol = op.protocol ∧
    (r.expectsResponse = true ↔ op.verb = .call)

structure Fits (w : World Msg) (op : Op) : Prop where
  path : ∀ act ∈ op.caller, ∃ ctx, w.handlerContext act = some ctx ∧ op.ctx.callPath = ctx.callPath ∧
    (op.parent = none → op.ctx = ctx)
  stands : op.Stands w
  posted : ∀ (k id : Nat), op.envelope = some (k, id) → ∃ j, op.Serves w j (op.Posted k id)

variable {host host' : Host Msg} {svc svc' : Service}

theorem Serves.grow {j : Nat} {p : Host Msg → Service → Prop} (serves : op.Serves w j p) (later : w.Later w')
    (stable : ∀ host host' svc svc', host.Later host' → svc.Later svc' → p host svc → p host' svc') :
    op.Serves w' j p := by
  obtain ⟨host, svc, found, there, holds⟩ := serves
  obtain ⟨host', found', kept⟩ := later.hosts _ host found
  obtain ⟨svc', there', same⟩ := kept.services j svc there
  exact ⟨host', svc', found', there', stable host host' svc svc' kept same holds⟩

theorem Names.grow (names : op.Names svc) (same : svc.Later svc') : op.Names svc' :=
  ⟨same.address.trans names.address, same.generation.trans names.generation, names.own⟩

theorem Clear.grow (clear : op.Clear host svc) (kept : host.Later host') (same : svc.Later svc') :
    op.Clear host' svc' := by
  unfold Clear
  rw [kept.node, same.name, same.opts]
  exact clear

theorem Posted.grow {k id : Nat} (posted : op.Posted k id host svc) (kept : host.Later host')
    (same : svc.Later svc') : op.Posted k id host' svc' := by
  obtain ⟨r, there, ctx, protocol, expects⟩ := posted.request
  obtain ⟨r', there', ctx', protocol', expects'⟩ := kept.system.requests k id r there
  exact ⟨posted.names.grow same, posted.clear.grow kept same, same.mailbox k posted.mailbox,
    r', there', ctx'.trans ctx, protocol'.trans protocol, by rw [expects']; exact expects⟩

theorem Fits.grow (fits : op.Fits w) (later : w.Later w') : op.Fits w' where
  path act calls := by
    obtain ⟨ctx, known, path⟩ := fits.path act calls
    exact ⟨ctx, later.handlerContext known, path⟩
  stands := by
    have stands := fits.stands
    unfold Stands at stands ⊢
    split
    · trivial
    · trivial
    · trivial
    · next at_ =>
      simp only [at_] at stands
      exact stands.grow later fun _ _ _ _ _ same names => names.grow same
    · next at_ =>
      simp only [at_] at stands
      exact stands.grow later fun _ _ _ _ kept same known => ⟨known.1.grow same, known.2.grow kept same⟩
    · next at_ =>
      simp only [at_] at stands
      refine ⟨stands.1, stands.2.grow later fun _ _ _ _ kept same => ?_⟩
      rintro ⟨names, clear, call, called, runs⟩
      obtain ⟨call', called', service, _⟩ := kept.system.calls _ call called
      exact ⟨names.grow same, clear.grow kept same, call', called', by rw [service]; exact same.mailbox _ runs⟩
    · next at_ =>
      simp only [at_] at stands
      refine ⟨stands.1, stands.2.grow later fun _ _ _ _ kept same => ?_⟩
      rintro ⟨call, id, called, runs, named, envelope⟩
      obtain ⟨call', called', service, kept'⟩ := kept.system.calls _ call called
      refine ⟨call', id, called', ?_, kept' id named, ?_⟩
      · rw [service]
        exact same.mailbox _ runs
      · rw [service]
        exact envelope
    · next at_ =>
      simp only [at_] at stands
      exact stands
  posted k id entered := by
    obtain ⟨j, serves⟩ := fits.posted k id entered
    exact ⟨j, serves.grow later fun _ _ _ _ kept same posted => posted.grow kept same⟩

theorem Later.names (same : op.Later op') (names : op.Names svc) : op'.Names svc := by
  refine ⟨?_, ?_, ?_⟩
  · rw [same.ref]
    exact names.address
  · rw [same.ref]
    exact names.generation
  · rw [same.typed, same.ref]
    exact names.own

theorem Later.clear (same : op.Later op') (clear : op.Clear host svc) : op'.Clear host svc := by
  unfold Clear
  rw [same.verb, same.ctx]
  exact clear

theorem Later.posted (same : op.Later op') {k id : Nat} (posted : op.Posted k id host svc) :
    op'.Posted k id host svc := by
  refine ⟨same.names posted.names, same.clear posted.clear, posted.mailbox, ?_⟩
  rw [same.ctx, same.protocol, same.verb]
  exact posted.request

theorem Later.serves (same : op.Later op') {j : Nat} {p q : Host Msg → Service → Prop} (serves : op.Serves w j p)
    (implies : ∀ host svc, p host svc → q host svc) : op'.Serves w j q := by
  unfold Serves
  rw [same.ref]
  obtain ⟨host, svc, found, there, holds⟩ := serves
  exact ⟨host, svc, found, there, implies host svc holds⟩

theorem Fits.turn (fits : op.Fits w) (later : w.Later w') (same : op.Later op') (stands : op'.Stands w')
    (posted : op'.envelope = op.envelope ∨ ∀ (k id : Nat), op'.envelope = some (k, id) →
      ∃ j, op'.Serves w' j (op'.Posted k id)) : op'.Fits w' where
  path := by
    rw [same.caller, same.ctx, same.parent]
    exact (fits.grow later).path
  stands := stands
  posted := by
    rcases posted with kept | posted
    · intro k id entered
      rw [kept] at entered
      obtain ⟨j, serves⟩ := (fits.grow later).posted k id entered
      exact ⟨j, same.serves serves fun _ _ posted => same.posted posted⟩
    · exact posted

end Op

namespace Host

variable {host : Host Msg} {svc : Service}

theorem lookup_ok {ref : Ref} {j : Nat} (found : host.lookup ref = .ok j) :
    ∃ svc, host.services[j]? = some svc ∧ svc.published = true ∧ svc.address = ref.address ∧
      svc.generation = ref.generation := by
  unfold Host.lookup at found
  split at found
  · cases found
  · split at found
    · cases found
    · next i there =>
      split_ifs at found with same
      cases found
      obtain ⟨svc, known, generation⟩ := at_iff.mp same
      unfold Host.byAddress at there
      obtain ⟨inside, published, _⟩ := List.findIdx?_eq_some_iff_getElem.mp there
      obtain rfl : svc = host.services[j] := Option.some.inj (known.symm.trans (List.getElem?_eq_getElem inside))
      simp only [Bool.and_eq_true, decide_eq_true_eq] at published
      exact ⟨_, known, published.1, published.2, generation⟩

theorem check_eq {entry : HandlerEntry} (ready : svc.ready = .ok ()) (handled : svc.handler op.protocol = .ok entry) :
    host.check svc op =
      if op.inbound ∧ (entry.fingerprint = none ∨ entry.fingerprint ≠ op.fingerprint) then
        .error (.wrapped .protocolTypeMismatch ("service=" ++ svc.name ++ " protocol=" ++ op.protocol))
      else if op.verb = .call ∧ (op.inbound ∨ op.ctx.activation = none ∨ op.noYield = false) ∧
          svc.opts.noInterleave ∧ callPathContains (some op.ctx) host.node svc.name then
        .error (.wrapped .callCycle (formatCallCycle (some op.ctx) host.node svc.name op.protocol))
      else if op.verb = .call ∧ op.inbound = false ∧ op.ctx.activation.isSome ∧ op.noYield then
        .error (.bare .yieldForbidden)
      else .ok () := by
  simp only [Host.check, ready, handled, bind, Except.bind, throw, throwThe, MonadExceptOf.throw, pure, Except.pure]

theorem check_ready {result : Unit} (checked : host.check svc op = .ok result) :
    svc.ready = .ok () ∧ ∃ entry, svc.handler op.protocol = .ok entry := by
  cases ready : svc.ready with
  | error fault => simp [Host.check, ready, bind, Except.bind] at checked
  | ok _ =>
    cases handled : svc.handler op.protocol with
    | error fault => simp [Host.check, ready, handled, bind, Except.bind] at checked
    | ok entry => exact ⟨rfl, entry, rfl⟩

theorem check_clear (checked : host.check svc op = .ok ()) : op.Clear host svc := by
  obtain ⟨ready, entry, handled⟩ := check_ready checked
  rw [check_eq ready handled] at checked
  split_ifs at checked with _ cycle forbidden
  intro calls solo
  by_contra through
  rw [Bool.not_eq_false] at through
  -- what is left of a cycle is a handler that may not yield, which the last check turns down
  by_cases free : op.inbound = true ∨ op.ctx.activation = none ∨ op.noYield = false
  · exact cycle ⟨calls, free, solo, through⟩
  · rw [not_or, not_or, Bool.not_eq_true, Bool.not_eq_false] at free
    exact forbidden ⟨calls, free.1, Option.isSome_iff_ne_none.mpr free.2.1, free.2.2⟩

end Host

namespace World

variable {host : Host Msg} {h : Nat}

theorem take_host {act : SystemAction Msg} (found : w.hosts[h]? = some host) :
    (w.take h act).hosts[h]? = some { host with system := System.next host.system act } := lookup_modify_self found

end World

theorem Op.stands_away (away : op.pc.away = true) : op.Stands w := by
  unfold Op.Stands
  split <;> simp_all [OpPc.away]

theorem Op.Fits.moves (fits : op.Fits w) (tidy : op.Tidy) (here : w.ops[o]? = some op) (later : w.Later (w.next a))
    (moves : op.Moves w o a op') : op'.Fits (w.next a) := by
  have same := tidy.later moves
  have known := (fits.grow later).stands
  cases moves with
  | find host j at_ own found there =>
    refine fits.turn later same ?_ (.inl rfl)
    obtain ⟨svc, known, _, address, generation⟩ := Host.lookup_ok there
    have serves : op.Serves w j fun _ svc => op.Names svc := ⟨host, svc, found, known, address, generation, own⟩
    exact same.serves (serves.grow later fun _ _ _ _ _ same names => names.grow same) fun _ _ names => same.names names
  | pass host j svc at_ found there checked =>
    unfold Op.pass at same ⊢
    split
    · next again =>
      rw [if_pos again] at same
      exact fits.turn later same trivial (.inl rfl)
    · next through =>
      rw [if_neg through] at same
      refine fits.turn later same ?_ (.inl rfl)
      have stands := fits.stands
      simp only [Op.Stands, at_] at stands
      obtain ⟨_, _, found', there', names⟩ := stands
      rw [found] at found'
      cases found'
      rw [there] at there'
      cases there'
      have serves : op.Serves w j fun host svc => op.Names svc ∧ op.Clear host svc :=
        ⟨host, svc, found, there, names, Host.check_clear checked⟩
      exact same.serves
        (serves.grow later fun _ _ _ _ kept same known => ⟨known.1.grow same, known.2.grow kept same⟩)
        fun _ _ known => ⟨same.names known.1, same.clear known.2⟩
  | allocate host j k c svc at_ calls found there runs last =>
    refine fits.turn later same ?_ (.inl rfl)
    simp only [Op.Stands, at_] at known
    obtain ⟨_, _, found', there', names, clear⟩ := known
    have after : (w.next (.allocate o j k c)).hosts[op.ref.system]? =
        some { host with system := System.next host.system (.allocate k op.inbound) } := by
      simp only [World.next, World.withOp, here]
      exact World.take_host found
    rw [after] at found'
    cases found'
    rw [there] at there'
    cases there'
    exact ⟨calls, _, svc, after, there, same.names names, same.clear clear, { service := k, remote := op.inbound },
      by simp [System.next, last], runs⟩
  | refuse | finish | reply | abandon => exact fits.turn later same trivial (.inl rfl)
  | transmit peer at_ =>
    refine fits.turn later same (Op.stands_away ?_) (.inl rfl)
    dsimp only
    split <;> rfl
  | admitCall host j k c id call m at_ found called service box last =>
    simp only [Op.Stands, at_] at known
    obtain ⟨calling, _, svc, found', there, names, clear, call', called', runs⟩ := known
    subst service last
    have after : (w.next (.admitCall o j call.service c m.requests.length)).hosts[op.ref.system]? =
        some { host with system := System.next host.system (.admitCall c op.ctx op.protocol) } := by
      simp only [World.next, World.withOp, here]
      exact World.take_host found
    obtain ⟨calls, request⟩ := System.admit_next op.ctx op.protocol called box
    rw [after] at found'
    cases found'
    rw [calls] at called'
    cases called'
    refine fits.turn later same ?_ (.inr ?_)
    · exact ⟨calling, _, svc, after, there, _, m.requests.length, calls, runs, rfl, rfl⟩
    · rintro k id ⟨⟩
      exact ⟨j, _, svc, after, there, same.names names, same.clear clear, runs, _, request, rfl, rfl, by simp [calling]⟩
  | submit host j k id svc m at_ sends found there runs box last =>
    simp only [Op.Stands, at_] at known
    obtain ⟨_, svc', found', there', names, clear⟩ := known
    subst last
    let submits : SystemAction Msg := .mail k (.submit op.ctx op.protocol 0 false (op.verb = .trySend))
    have after : (w.next (.submit o j k m.requests.length)).hosts[op.ref.system]? =
        some { host with system := System.next host.system submits } := by
      simp only [World.next, World.withOp, here]
      exact World.take_host found
    rw [after] at found'
    cases found'
    rw [there] at there'
    cases there'
    refine fits.turn later same ⟨sends, k, rfl⟩ (.inr ?_)
    rintro _ _ ⟨⟩
    exact ⟨j, _, svc, after, there, same.names names, same.clear clear, runs, _,
      System.submit_next _ _ _ _ _ box, rfl, rfl, by simp [sends]⟩

theorem Op.Fits.delegates (fits : op.Fits w) (tidy : op.Tidy) (later : w.Later w')
    (delegates : op.Delegates w o op' child) : op'.Fits w' ∧ child.Fits w' := by
  have same := delegates.later
  -- the path goes along, and the new operation is not the handler's own
  have path : ∀ act ∈ op.caller, ∃ ctx, w'.handlerContext act = some ctx ∧ op.ctx.callPath = ctx.callPath ∧
      (some o = none → child.ctx = ctx) := by
    intro act calls
    obtain ⟨ctx, known, path, _⟩ := (fits.grow later).path act calls
    exact ⟨ctx, known, path, nofun⟩
  cases delegates with
  | ownSystem host target => exact ⟨fits.turn later same trivial (.inl rfl), path, trivial, nofun⟩
  | deliver h host target wired =>
    have away : op.pc.away = true := by
      by_contra inside
      rw [Bool.not_eq_true] at inside
      simp [(tidy.unsent inside).1] at wired
    refine ⟨fits.turn later same (Op.stands_away away) (.inl rfl), path, ?_, nofun⟩
    unfold Op.Stands Op.arrive
    dsimp only
    cases host.validateInboundTarget target <;> trivial

structure Op.WorksFor (op up : Op) : Prop where
  caller : op.caller = up.caller
  verb : op.verb = .call ↔ up.verb = .call
  origin : op.ref.origin = up.ref.origin
  inner : op.ref.remote = none
  outer : up.parent = none
  target : ∃ target, up.ref.remote = some target ∧ op.ref.address = target.address ∧
    op.ref.generation = target.generation

theorem Op.WorksFor.later {up up' : Op} (works : op.WorksFor up) (same : op.Later op') (kept : up.Later up') :
    op'.WorksFor up' := by
  refine ⟨?_, ?_, ?_, ?_, ?_, ?_⟩
  · rw [same.caller, kept.caller]
    exact works.caller
  · rw [same.verb, kept.verb]
    exact works.verb
  · rw [same.ref, kept.ref]
    exact works.origin
  · rw [same.ref]
    exact works.inner
  · rw [kept.parent]
    exact works.outer
  · rw [same.ref, kept.ref]
    exact works.target

theorem Op.Delegates.worksFor (delegates : op.Delegates w o op' child) (outer : op.parent = none) :
    child.WorksFor op ∧ child.parent = some o := by
  have verb : (if op.verb = .call then Verb.call else .send) = .call ↔ op.verb = .call := by
    split <;> simp_all
  cases delegates with
  | ownSystem host target _ _ remote => exact ⟨⟨rfl, verb, rfl, rfl, outer, target, remote, rfl, rfl⟩, rfl⟩
  | deliver h host target _ remote => exact ⟨⟨rfl, verb, rfl, rfl, outer, target, remote, rfl, rfl⟩, rfl⟩

theorem Op.Delegates.remote (delegates : op.Delegates w o op' child) : op.ref.remote ≠ none := by
  cases delegates with
  | ownSystem host target _ _ remote => simp [remote]
  | deliver h host target _ remote => simp [remote]

namespace World

structure Coherent (w : World Msg) : Prop where
  fits : ∀ (o : Nat) (op : Op), w.ops[o]? = some op → op.Fits w
  parent : ∀ (o : Nat) (op : Op), w.ops[o]? = some op → ∀ p ∈ op.parent, ∃ up, w.ops[p]? = some up ∧ op.WorksFor up
  sent : ∀ (act : ActivationRef) (r : Request Msg), w.request act = some r → ∃ (o : Nat) (op : Op),
    w.ops[o]? = some op ∧ op.ref.system = act.system ∧ op.envelope = some (act.service, act.request)
  handling : ∀ (o : Nat) (op : Op), w.ops[o]? = some op → op.parent = none → op.isReturned = false →
    ∀ act ∈ op.caller, w.Handling act

theorem handling_next {act : ActivationRef} (ordered : w.Ordered) (enabled : Enabled w a) (inside : w.Handling act) :
    (w.next a).Handling act ∨
      ∃ depth result, a = .internal act.system (.mail act.service (.handlerReturned act.request depth result)) := by
  obtain ⟨r, found, handling⟩ := inside
  obtain ⟨host, known, there⟩ := request_eq_some.mp found
  by_cases leaves : ∃ depth result,
      a = .internal act.system (.mail act.service (.handlerReturned act.request depth result))
  · exact .inr leaves
  left
  obtain ⟨host', known', r', there', handling'⟩ := system_next
    (P := fun s => ∃ r, s.request act.service act.request = some r ∧ r.pc.isHandling = true) ordered enabled
    (by
      rintro s step healthy allowed causes _ ⟨r, there, handling⟩
      rcases System.handling_next healthy allowed there handling with still | ⟨depth, result, rfl⟩
      · exact still
      · exact absurd ⟨depth, result, causes.internal rfl⟩ leaves)
    known ⟨r, there, handling⟩
  exact ⟨r', request_eq_some.mpr ⟨host', known', there'⟩, handling'⟩

theorem sent_next {act : ActivationRef} {r : Request Msg} (ordered : w.Ordered) (enabled : Enabled w a)
    (after : (w.next a).request act = some r) (absent : w.request act = none) :
    ∃ (o : Nat) (op : Op), (w.next a).ops[o]? = some op ∧ op.ref.system = act.system ∧
      op.envelope = some (act.service, act.request) := by
  obtain ⟨later, known, there⟩ := request_eq_some.mp after
  have old : ∀ {host : Host Msg}, w.hosts[act.system]? = some host →
      host.system.request act.service act.request = none := by
    intro host found
    simpa [request, found] using absent
  by_cases driven : ∃ step, w.Drives act.system step a ∧ step.submits = true
  case neg =>
    -- no step of the system submits an envelope, so the one there now is old
    exfalso
    cases found : w.hosts[act.system]? with
    | none =>
      rcases hosts_next enabled with ⟨node, incarnation, drainable, rfl⟩ | same | ⟨_, _, _, _, _, _, changed⟩
      · rcases lookup_append known with known | ⟨_, rfl⟩
        · simp [found] at known
        · simp [System.request, System.fresh] at there
      · simp [same, found] at known
      · have inside := lookup_lt known
        rw [changed, List.length_modify] at inside
        simp [List.getElem?_eq_getElem inside] at found
    | some host =>
      obtain ⟨_, known', absent'⟩ := system_next (P := fun s => s.request act.service act.request = none) ordered
        enabled
        (by
          intro s step _ allowed causes _ absent
          refine System.unsubmitted_next allowed ?_ absent
          rcases causes with drives | ⟨_, _, rfl⟩ | ⟨_, rfl⟩
          · simpa using fun submits => driven ⟨step, drives, submits⟩
          · rfl
          · rfl)
        found (old found)
      rw [known] at known'
      cases known'
      simp [absent'] at there
  obtain ⟨step, drives, submits⟩ := driven
  cases a with
  | internal h' step' =>
    obtain ⟨_, rfl, inner⟩ := drives
    cases step' with
    | admitCall => cases inner
    | mail k act =>
      cases act with
      | submit => cases inner
      | _ => cases submits
    | _ => cases submits
  | allocate o j k c =>
    obtain ⟨_, _, _, rfl⟩ := at_iff.mp drives
    cases submits
  | admitCall o j k c id =>
    obtain ⟨op, here, away, rfl⟩ := at_iff.mp drives
    obtain ⟨_, here', _, up⟩ := at_iff.mp enabled
    rw [here] at here'
    cases here'
    obtain ⟨host, found, _, calls, box, allowed⟩ := up_iff.mp up
    simp only [next, withOp, here] at known ⊢
    rw [← away, onOp, take_host found] at known
    cases known
    obtain ⟨_, _, last, ⟨_, _, _, _, other, _⟩ | ⟨_, _, _, _, same, called, service, _⟩⟩ :=
      System.request_fresh allowed there (old (away ▸ found))
    · cases other
    cases same
    obtain rfl : k = act.service := (calls.here called).symm.trans service
    obtain ⟨m, boxed, rfl⟩ := at_iff.mp box
    exact ⟨o, _, lookup_modify_self here, away, by rw [last.here boxed]⟩
  | submit o j k id =>
    obtain ⟨op, here, away, rfl⟩ := at_iff.mp drives
    obtain ⟨_, here', _, _, up⟩ := at_iff.mp enabled
    rw [here] at here'
    cases here'
    obtain ⟨host, found, _, _, box, allowed⟩ := up_iff.mp up
    simp only [next, withOp, here] at known ⊢
    rw [← away, onOp, take_host found] at known
    cases known
    obtain ⟨_, _, last, ⟨_, _, _, _, same, _⟩ | ⟨_, _, _, _, other, _⟩⟩ :=
      System.request_fresh allowed there (old (away ▸ found))
    · cases same
      obtain ⟨m, boxed, rfl⟩ := at_iff.mp box
      exact ⟨o, _, lookup_modify_self here, away, by rw [last.here boxed]⟩
    · cases other
  | _ => cases drives

theorem Coherent.outer (coherent : w.Coherent) (here : w.ops[o]? = some op) (remote : op.ref.remote ≠ none) :
    op.parent = none := by
  cases works : op.parent with
  | none => rfl
  | some p =>
    obtain ⟨_, _, works⟩ := coherent.parent o op here p works
    exact absurd works.inner remote

theorem coherent_next (ordered : w.Ordered) (tidy : w.Tidy) (coherent : w.Coherent) (enabled : Enabled w a) :
    (w.next a).Coherent := by
  have later := later_next ordered tidy enabled
  refine ⟨?_, ?_, ?_, ?_⟩
  · refine forall_next enabled (fun o op here => (coherent.fits o op here).grow later) ?_
      (fun o op op' here moves => (coherent.fits o op here).moves (tidy o op here) here later moves)
      fun o op op' child here delegates _ => (coherent.fits o op here).delegates (tidy o op here) later delegates
    rintro i ref typed verb protocol fingerprint caller ctx noYield rfl _
    exact ⟨fun act calls => ⟨ctx, later.handlerContext (enabled.2 act calls).2.1, rfl, fun _ => rfl⟩, trivial, nofun⟩
  · have step : ∀ (o : Nat) (op op' : Op), w.ops[o]? = some op → op.Later op' → ∀ p ∈ op'.parent,
        ∃ up, (w.next a).ops[p]? = some up ∧ op'.WorksFor up := by
      intro o op op' here same p parent
      obtain ⟨up, there, works⟩ := coherent.parent o op here p (same.parent ▸ parent)
      obtain ⟨up', there', kept⟩ := later.ops p up there
      exact ⟨up', there', works.later same kept⟩
    refine forall_next enabled (fun o op here => step o op op here (.refl op)) ?_
      (fun o op op' here moves => step o op op' here ((tidy o op here).later moves)) ?_
    · rintro _ _ _ _ _ _ _ _ _ _ _ p ⟨⟩
    · intro o op op' child here delegates _
      refine ⟨step o op op' here delegates.later, fun p parent => ?_⟩
      obtain ⟨works, parent'⟩ := delegates.worksFor (coherent.outer here delegates.remote)
      obtain rfl : o = p := Option.some.inj (parent'.symm.trans parent)
      obtain ⟨up', there', kept⟩ := later.ops o op here
      exact ⟨up', there', works.later (.refl child) kept⟩
  · intro act r after
    cases before : w.request act with
    | none => exact sent_next ordered enabled after before
    | some r =>
      obtain ⟨o, op, here, system, envelope⟩ := coherent.sent act r before
      obtain ⟨op', there, same⟩ := later.ops o op here
      refine ⟨o, op', there, by rw [same.ref]; exact system, ?_⟩
      rcases same.envelope with none_ | kept
      · simp [none_] at envelope
      · exact kept.trans envelope
  · have step : ∀ (o : Nat) (op op' : Op), w.ops[o]? = some op → op.Later op' → op'.parent = none →
        op'.isReturned = false → ∀ act ∈ op'.caller, (w.next a).Handling act := by
      intro o op op' here same outer going act calls
      rw [same.parent] at outer
      rw [same.caller] at calls
      have going' : op.isReturned = false := by
        by_contra returned
        rw [Bool.not_eq_false] at returned
        simp [(same.returned returned).1] at going
      rcases handling_next ordered enabled (coherent.handling o op here outer going' act calls) with still |
        ⟨depth, result, rfl⟩
      · exact still
      · -- the handler would return before its own operation has
        have returned := enabled.2.2 op (List.mem_of_getElem? here) calls outer
        rw [going'] at returned
        cases returned
    refine forall_next enabled (fun o op here => step o op op here (.refl op)) ?_
      (fun o op op' here moves => step o op op' here ((tidy o op here).later moves)) ?_
    · rintro i ref typed verb protocol fingerprint caller ctx noYield rfl _ _ _ act calls
      rcases handling_next ordered enabled (enabled.2 act calls).1 with still | ⟨_, _, other⟩
      · exact still
      · cases other
    · intro o op op' child here delegates _
      refine ⟨step o op op' here delegates.later, fun outer => ?_⟩
      rw [(delegates.worksFor (coherent.outer here delegates.remote)).2] at outer
      cases outer

theorem reachable_coherent (reached : (machine Msg).Reachable {} w) : w.Coherent := by
  refine reached.invariant_with ⟨?_, ?_, ?_, ?_⟩ fun w a reached coherent enabled =>
    coherent_next (reachable_ordered reached) (reachable_tidy reached) coherent enabled
  · intro o op here
    simp at here
  · intro o op here
    simp at here
  · intro act r found
    simp [request] at found
  · intro o op here
    simp at here

end World

end Skygo.Cluster
