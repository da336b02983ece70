import Mathlib.Logic.Relation
import Skygo.Cluster.Coherence

/-! Call cycles are detected along synchronous chains, within a process and across the wire.

A handler waits for another one if a call of its own, or the one a remote process makes for
it, has put the envelope of that handler in a mailbox and not returned. The path of a handler
grows with every such call, so whoever waits for a handler stands on its path.
-/

set_option autoImplicit false

namespace Skygo.Cluster

open Semantics Actor

variable {Msg : Type} {w : World Msg} {o : Nat} {op : Op} {waiting act : ActivationRef}

namespace World

def Waits (w : World Msg) (waiting act : ActivationRef) : Prop :=
  ∃ (o : Nat) (op : Op) (j c : Nat), w.ops[o]? = some op ∧ op.verb = .call ∧ op.caller = some waiting ∧
    op.pc = .waiting j c ∧ op.ref.system = act.system ∧ op.envelope = some (act.service, act.request) ∧
    ∀ p ∈ op.parent, At w.ops p (·.pc = .remote)

theorem Coherent.envelope (coherent : w.Coherent) (here : w.ops[o]? = some op) (system : op.ref.system = act.system)
    (posted : op.envelope = some (act.service, act.request)) :
    ∃ r, w.request act = some r ∧ r.ctx = op.ctx := by
  obtain ⟨_, host, _, found, _, serves⟩ := (coherent.fits o op here).posted _ _ posted
  obtain ⟨r, there, ctx, _⟩ := serves.request
  exact ⟨r, request_eq_some.mpr ⟨host, system ▸ found, there⟩, ctx⟩

theorem handlerContext_path {ctx : Context} (known : w.handlerContext act = some ctx) :
    ∃ r frame, w.request act = some r ∧ w.frame act = some frame ∧ ctx.callPath = r.ctx.callPath ++ [frame] := by
  obtain ⟨r, frame, found, framed, rfl⟩ := handlerContext_eq_some.mp known
  exact ⟨r, frame, found, framed, rfl⟩

/-- A handler's path is that of the handler that waits for it, and its own frame. -/
theorem Waits.path (coherent : w.Coherent) (waits : w.Waits waiting act) :
    ∃ before ctx frame, w.handlerContext waiting = some before ∧ w.handlerContext act = some ctx ∧
      ctx.callPath = before.callPath ++ [frame] := by
  obtain ⟨o, op, _, _, here, _, calls, _, system, posted, _⟩ := waits
  obtain ⟨before, known, path, _⟩ := (coherent.fits o op here).path waiting calls
  obtain ⟨r, found, same⟩ := coherent.envelope here system posted
  obtain ⟨frame, framed⟩ := frame_of_request found
  refine ⟨before, _, frame, known, handlerContext_eq_some.mpr ⟨r, frame, found, framed, rfl⟩, ?_⟩
  show r.ctx.callPath ++ [frame] = before.callPath ++ [frame]
  rw [same, path]

theorem waits_subset (coherent : w.Coherent) (waits : Relation.ReflTransGen w.Waits waiting act) {ctx : Context}
    (known : w.handlerContext act = some ctx) :
    ∃ before, w.handlerContext waiting = some before ∧ before.callPath ⊆ ctx.callPath := by
  induction waits generalizing ctx with
  | refl => exact ⟨ctx, known, List.Subset.refl _⟩
  | tail _ last ih =>
    obtain ⟨middle, _, frame, known', again, path⟩ := last.path coherent
    rw [known] at again
    cases again
    obtain ⟨before, first, subset⟩ := ih known'
    refine ⟨before, first, fun entry member => ?_⟩
    rw [path]
    exact List.mem_append_left _ (subset member)

theorem waits_contains (coherent : w.Coherent) (waits : Relation.ReflTransGen w.Waits waiting act) {ctx : Context}
    (known : w.handlerContext act = some ctx) :
    ∃ frame, w.frame waiting = some frame ∧ callPathContains (some ctx) frame.node frame.service = true := by
  obtain ⟨before, first, subset⟩ := waits_subset coherent waits known
  obtain ⟨_, frame, _, framed, path⟩ := handlerContext_path first
  refine ⟨frame, framed, callPathContains_iff.mpr ⟨frame, subset ?_, rfl, rfl⟩⟩
  rw [path]
  exact List.mem_append_right _ (List.mem_singleton.mpr rfl)

/-- A call would close a cycle: its caller is the handler `act`, and the `j`th service of its system
does not interleave and has a handler, `waiting`, that waits for `act` or is `act`. -/
structure ClosesCycle (w : World Msg) (op : Op) (j : Nat) (host : Host Msg) (svc : Service)
    (waiting : ActivationRef) : Prop where
  call : op.verb = .call
  caller : ∃ act ∈ op.caller, Relation.ReflTransGen w.Waits waiting act
  system : waiting.system = op.ref.system
  found : w.hosts[op.ref.system]? = some host
  service : host.services[j]? = some svc
  mailbox : svc.mailbox = some waiting.service
  solo : svc.opts.noInterleave = true

variable {host : Host Msg}

theorem ClosesCycle.contains {j : Nat} {svc : Service} (ordered : w.Ordered)
    (coherent : w.Coherent) (here : w.ops[o]? = some op) (closes : w.ClosesCycle op j host svc waiting) :
    callPathContains (some op.ctx) host.node svc.name = true := by
  obtain ⟨act, calls, waits⟩ := closes.caller
  obtain ⟨ctx, known, path, _⟩ := (coherent.fits o op here).path act calls
  obtain ⟨frame, framed, contains⟩ := waits_contains coherent waits known
  obtain ⟨_, m, _, found, box, _, rfl⟩ := frame_eq_some.mp framed
  rw [closes.system, closes.found] at found
  cases found
  obtain ⟨_, box', name, _⟩ := (ordered.registered _ host closes.found).mailbox j svc _ closes.service closes.mailbox
  rw [box] at box'
  cases box'
  rw [name] at contains
  simpa [callPathContains, callPath, path] using contains

theorem ClosesCycle.outside {j : Nat} {svc : Service} (ordered : w.Ordered)
    (coherent : w.Coherent) (here : w.ops[o]? = some op) (closes : w.ClosesCycle op j host svc waiting) :
    op.pc ≠ .checked j ∧ (∀ c, op.pc ≠ .session j c ∧ op.pc ≠ .waiting j c) ∧
      ∀ id, op.envelope ≠ some (waiting.service, id) := by
  have fits := coherent.fits o op here
  have stands := fits.stands
  have unclear : ¬op.Clear host svc := by
    intro clear
    have through := closes.contains ordered coherent here
    rw [clear closes.call closes.solo] at through
    cases through
  -- the service the operation knows under `j` is the one of the cycle
  have known : ∀ {p : Host Msg → Service → Prop}, op.Serves w j p → p host svc := by
    rintro p ⟨_, _, found, there, holds⟩
    rw [closes.found] at found
    cases found
    rw [closes.service] at there
    cases there
    exact holds
  have unposted : ∀ id, op.envelope ≠ some (waiting.service, id) := by
    intro id posted
    obtain ⟨i, _, svc', found, there, letter⟩ := fits.posted _ id posted
    rw [closes.found] at found
    cases found
    obtain rfl := (ordered.registered _ host closes.found).owner i j svc' svc _ there closes.service letter.mailbox
      closes.mailbox
    rw [closes.service] at there
    cases there
    exact unclear letter.clear
  refine ⟨fun at_ => ?_, fun c => ⟨fun at_ => ?_, fun at_ => ?_⟩, unposted⟩
  · simp only [Op.Stands, at_] at stands
    exact unclear (known stands).2
  · simp only [Op.Stands, at_] at stands
    exact unclear (known stands.2).2.1
  · simp only [Op.Stands, at_] at stands
    obtain ⟨call, id, _, runs, _, posted⟩ := known stands.2
    have same : call.service = waiting.service := Option.some.inj (runs.symm.trans closes.mailbox)
    rw [same] at posted
    exact unposted id posted

/-- The call of a handler has the handler's context, or comes from another process. -/
theorem Coherent.activation (tidy : w.Tidy) (coherent : w.Coherent) (here : w.ops[o]? = some op)
    (call : op.verb = .call) (calls : op.caller = some act) (own : op.inbound = false) :
    op.ctx.activation = some act := by
  have outer : op.parent = none := by
    have first : op.again = false := by
      by_contra again
      rw [Bool.not_eq_false] at again
      exact (tidy o op here).again again call
    simpa [Op.inbound, first] using own
  obtain ⟨ctx, known, _, same⟩ := (coherent.fits o op here).path act calls
  obtain ⟨_, _, _, _, rfl⟩ := handlerContext_eq_some.mp known
  rw [same outer]
  rfl

/-- What `Call` and `DispatchRemoteAsync` answer to a call that would close a cycle, once the earlier
checks have passed. -/
def cycleFault (host : Host Msg) (svc : Service) (op : Op) : Fault :=
  if op.inbound = false ∧ op.noYield = true then .bare .yieldForbidden
  else .wrapped .callCycle (formatCallCycle (some op.ctx) host.node svc.name op.protocol)

theorem ClosesCycle.check {j : Nat} {svc : Service} {entry : HandlerEntry} (ordered : w.Ordered)
    (tidy : w.Tidy) (coherent : w.Coherent) (here : w.ops[o]? = some op)
    (closes : w.ClosesCycle op j host svc waiting) (ready : svc.ready = .ok ())
    (handled : svc.handler op.protocol = .ok entry)
    (matches_ : op.inbound = true → entry.fingerprint ≠ none ∧ entry.fingerprint = op.fingerprint) :
    host.check svc op = .error (cycleFault host svc op) := by
  have through := closes.contains ordered coherent here
  have agrees : ¬(op.inbound = true ∧ (entry.fingerprint = none ∨ entry.fingerprint ≠ op.fingerprint)) := by
    rintro ⟨inbound, missing | other⟩
    · exact (matches_ inbound).1 missing
    · exact other (matches_ inbound).2
  rw [Host.check_eq ready handled, if_neg agrees]
  unfold cycleFault
  by_cases forbidden : op.inbound = false ∧ op.noYield = true
  · obtain ⟨act, calls, _⟩ := closes.caller
    have active := coherent.activation tidy here closes.call calls forbidden.1
    rw [if_neg (by simp [forbidden, active]), if_pos ⟨closes.call, forbidden.1, by simp [active], forbidden.2⟩,
      if_pos forbidden]
  · have free : op.inbound = true ∨ op.ctx.activation = none ∨ op.noYield = false := by
      cases inbound : op.inbound <;> simp_all
    rw [if_pos ⟨closes.call, free, closes.solo, through⟩, if_neg forbidden]

/-- In every reachable world the path of a handler contains the service of every handler that waits
for it, and a call that would close a cycle gets no session and no envelope. Its check leaves the
hosts alone and answers `ErrCallCycle`, or `ErrYieldForbidden` inside `NoYield`, unless an earlier
check fails. A remote call inside `NoYield` does not leave the process. -/
theorem cycle_detection (reached : (machine Msg).Reachable {} w) :
    (∀ waiting act, Relation.TransGen w.Waits waiting act → ∃ ctx frame, w.handlerContext act = some ctx ∧
      w.frame waiting = some frame ∧ callPathContains (some ctx) frame.node frame.service = true) ∧
    (∀ (o : Nat) (op : Op) (j : Nat) (host : Host Msg) (svc : Service) (waiting : ActivationRef),
      w.ops[o]? = some op → w.ClosesCycle op j host svc waiting →
      op.pc ≠ .checked j ∧ (∀ c, op.pc ≠ .session j c ∧ op.pc ≠ .waiting j c) ∧
      (∀ id, op.envelope ≠ some (waiting.service, id)) ∧
      (op.pc = .found j → (w.next (.check o j)).hosts = w.hosts ∧
        ∃ fault, (w.next (.check o j)).ops[o]? = some { op with pc := .returned (some fault) } ∧
          ∀ entry, svc.ready = .ok () → svc.handler op.protocol = .ok entry →
            (op.inbound = true → entry.fingerprint ≠ none ∧ entry.fingerprint = op.fingerprint) →
            fault = cycleFault host svc op)) ∧
    ∀ (o : Nat) (op : Op) (act : ActivationRef) (host : Host Msg) (peer : Nat), w.ops[o]? = some op →
      op.verb = .call → op.caller = some act → op.noYield = true → op.pc = .begin → op.ref.isRemote = true →
      op.fingerprint ≠ none → w.hosts[op.ref.system]? = some host →
      w.next (.transmit o peer) = w.leave o (some (.bare .yieldForbidden)) := by
  have ordered := reachable_ordered reached
  have tidy := reachable_tidy reached
  have coherent := reachable_coherent reached
  refine ⟨fun waiting act waits => ?_, fun o op j host svc waiting here closes => ?_,
    fun o op act host peer here call calls noYield _ away codec found => ?_⟩
  · obtain ⟨_, _, last⟩ := Relation.TransGen.tail'_iff.mp waits
    obtain ⟨_, ctx, _, _, known, _⟩ := last.path coherent
    obtain ⟨frame, framed, contains⟩ := waits_contains coherent waits.to_reflTransGen known
    exact ⟨ctx, frame, known, framed, contains⟩
  · obtain ⟨unchecked, unsessioned, unposted⟩ := closes.outside ordered coherent here
    refine ⟨unchecked, unsessioned, unposted, fun _ => ?_⟩
    simp only [next, withOp, withHost, here, closes.found, closes.service]
    cases checked : host.check svc op with
    | ok =>
      have through := closes.contains ordered coherent here
      rw [Host.check_clear checked closes.call closes.solo] at through
      cases through
    | error fault =>
      refine ⟨rfl, fault, lookup_modify_self here, fun entry ready handled agrees => ?_⟩
      rw [closes.check ordered tidy coherent here ready handled agrees] at checked
      cases checked
      rfl
  · obtain ⟨target, remote⟩ := Option.isSome_iff_exists.mp away
    have outer := coherent.outer here (by simp [remote])
    have active := coherent.activation tidy here call calls (by simp [Op.inbound, outer])
    simp only [next, withOp, withHost, here, found, remote]
    rw [Host.route, if_neg codec, if_pos ⟨call, by simp [active], noYield⟩]

def invoked (h k id : Nat) : List (WorldAction Unit) :=
  [.mail k (.track id true), .mail k (.acquire id), .mail k .schedule, .mail k (.enqueue id), .mail k .schedule,
    .mail k (.receiveGrant id), .mail k (.invoke id)].map (.internal h)

def firstRuns : List (WorldAction Unit) :=
  [.boot "n" 1 false, .reserve 0 "a" { noInterleave := true }, .handle 0 0 ⟨"ping", none⟩, .start 0 0,
    .reserve 0 "b" {}, .handle 0 1 ⟨"pong", none⟩, .start 0 1,
    .begin 0 false .send "ping" none none .background false, .lookup 0, .check 0 0, .submit 0 0 0 0] ++
  invoked 0 0 0

def callsSecond : List (WorldAction Unit) :=
  [.begin 1 false .call "pong" none (some ⟨0, 0, 0⟩) ⟨some ⟨0, 0, 0⟩, [⟨"n", "a", "ping"⟩], none⟩ false, .lookup 1,
    .check 1 1, .allocate 1 1 1 0, .internal 0 (.register 0), .admitCall 1 1 1 0 0] ++
  invoked 0 1 0

def callsBack (protocol : String) : List (WorldAction Unit) :=
  [.begin 0 false .call protocol none (some ⟨0, 1, 0⟩)
    ⟨some ⟨0, 1, 0⟩, [⟨"n", "a", "ping"⟩, ⟨"n", "b", "pong"⟩], none⟩ false, .lookup 2]

def calledBack (protocol : String) : List (WorldAction Unit) := firstRuns ++ callsSecond ++ callsBack protocol

theorem waits_calledBack {protocol : String} (called : At ((machine Unit).after {} (calledBack protocol)).ops 1 fun op =>
      op.verb = .call ∧ op.caller = some ⟨0, 0, 0⟩ ∧ op.pc = .waiting 1 0 ∧ op.ref.system = 0 ∧
      op.envelope = some (1, 0) ∧ op.parent = none) :
    ((machine Unit).after {} (calledBack protocol)).Waits ⟨0, 0, 0⟩ ⟨0, 1, 0⟩ := by
  obtain ⟨op, here, call, caller, pc, system, envelope, outer⟩ := at_iff.mp called
  exact ⟨1, op, 1, 0, here, call, caller, pc, system, envelope, by simp [outer]⟩

theorem cycle_detection_called_back :
    At (((machine Unit).after {} (calledBack "ping")).next (.check 2 0)).ops 2 fun op =>
      ∃ fault, op.pc = .returned (some fault) ∧ fault.is .callCycle = true := by
  have called : At ((machine Unit).after {} (calledBack "ping")).ops 2 fun op => op.verb = .call ∧
      op.caller = some ⟨0, 1, 0⟩ ∧ op.ref.system = 0 ∧ op.pc = .found 0 ∧ op.protocol = "ping" ∧
      op.inbound = false ∧ op.noYield = false := by
    decide +kernel
  have runs : At ((machine Unit).after {} (calledBack "ping")).hosts 0 fun host => At host.services 0 fun svc =>
      svc.state = .running ∧ svc.mailbox = some 0 ∧ svc.opts.noInterleave = true ∧
      svc.handlers = [⟨"ping", none⟩] := by
    decide +kernel
  obtain ⟨op, here, call, caller, system, pc, protocol, own, free⟩ := at_iff.mp called
  obtain ⟨host, found, known⟩ := at_iff.mp runs
  obtain ⟨svc, there, running, mailbox, solo, handlers⟩ := at_iff.mp known
  obtain ⟨_, _, _, checks⟩ := (cycle_detection ⟨_, Machine.run_after (by decide +kernel)⟩).2.1 2 op 0 host svc
    ⟨0, 0, 0⟩ here
    { call := call
      caller := ⟨_, caller, .single (waits_calledBack (by decide +kernel))⟩
      system := system.symm
      found := by rw [system]; exact found
      service := there
      mailbox := mailbox
      solo := solo }
  obtain ⟨_, fault, after, answers⟩ := checks pc
  refine at_iff.mpr ⟨_, after, fault, rfl, ?_⟩
  rw [answers ⟨"ping", none⟩ (by simp [Service.ready, running]) (by simp [Service.handler, handlers, protocol])
    (by simp [own])]
  simp [cycleFault, free, Fault.is]

/-- The protocol is looked up before the cycle. -/
theorem unknown_protocol_called_back :
    (machine Unit).Reachable {} ((machine Unit).after {} (calledBack "pang")) ∧
    ((machine Unit).after {} (calledBack "pang")).Waits ⟨0, 0, 0⟩ ⟨0, 1, 0⟩ ∧
    (At ((machine Unit).after {} (calledBack "pang")).hosts 0 fun host => At host.services 0 fun svc =>
      svc.state = .running ∧ svc.mailbox = some 0 ∧ svc.opts.noInterleave = true) ∧
    (At ((machine Unit).after {} (calledBack "pang")).ops 2 fun op =>
      op.caller = some ⟨0, 1, 0⟩ ∧ op.verb = .call ∧ op.noYield = false ∧ op.pc = .found 0) ∧
    At (((machine Unit).after {} (calledBack "pang")).next (.check 2 0)).ops 2 fun op =>
      op.pc = .returned (some (.wrapped .protocolNotFound "service=a protocol=pang")) := by
  refine ⟨⟨_, Machine.run_after (by decide +kernel)⟩, waits_calledBack (by decide +kernel), ?_, ?_, ?_⟩
  · decide +kernel
  · decide +kernel
  · decide +kernel

end World

end Skygo.Cluster
