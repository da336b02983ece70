import Skygo.Actor.SystemSound

/-! Every call session has one outcome.

A session belongs to one call and to the one envelope the call submits. The
envelope's completer and the caller both try to remove it from `pending`; who
comes first decides what the call returns. The invariant says, for each point of
the caller, what the session, the response channel and the completer's progress
can be.
-/

set_option autoImplicit false

attribute [-instance] instBooleanRingBool

namespace Skygo.Actor

open Semantics

variable {Msg : Type} {s : System Msg}

namespace Call

variable {call : Call Msg} {listed : Prop} {r r' : Request Msg}

def Untouched (call : Call Msg) : Prop :=
  call.response = none ∧ call.received = none ∧ call.completes = 0 ∧ call.cancels = 0

def Canceled (call : Call Msg) (listed : Prop) : Prop :=
  ¬listed ∧ call.response = none ∧ call.received = none ∧ call.completes = 0 ∧ call.cancels = 1

def Open (call : Call Msg) (listed : Prop) (r : Request Msg) : Prop :=
  match r.completion with
  | .owed => listed ∧ call.Untouched
  | .taken => ¬listed ∧ call.response = none ∧ call.received = none ∧ call.completes = 1 ∧ call.cancels = 0
  | .sent => ¬listed ∧ call.response = r.result ∧ r.result.isSome = true ∧ call.received = none ∧
      call.completes = 1 ∧ call.cancels = 0
  | .lost | .counted => False

/-- What a call at each point of its caller finds of its session, `listed` saying that the
session is in `pending` and `callee` being the envelope it submitted. -/
def Fits (call : Call Msg) (listed : Prop) (callee : Option (Request Msg)) : Prop :=
  match call.pc with
  | .allocated => ¬listed ∧ call.Untouched ∧ call.request = none
  | .registered => listed ∧ call.Untouched ∧ call.request = none
  | .admitting => ∃ r ∈ callee, call.Open listed r
  | .waiting | .expired _ => ∃ r ∈ callee, call.Open listed r ∧ r.Received
  | .receiving => ∃ r ∈ callee, call.Open listed r ∧ r.Received ∧ r.completion ≠ .owed
  | .counting | .returned (.expired _) => ∃ r ∈ callee, call.Canceled listed ∧ r.Received ∧
      (r.completion = .owed ∨ r.completion = .lost ∨ r.completion = .counted)
  | .returned .delivered => ∃ r ∈ callee, ¬listed ∧ call.response = none ∧ call.received = r.result ∧
      r.result.isSome = true ∧ call.completes = 1 ∧ call.cancels = 0 ∧ r.Received ∧ r.completion = .sent
  | .returned (.rejected fault) => call.Canceled listed ∧
      ∀ r ∈ callee, r.admission = .returned (some fault) ∧ r.completion = .owed

def after (e : Effect) (r : Request Msg) (call : Call Msg) : Call Msg :=
  match e with
  | .take => { call with completes := call.completes + 1 }
  | .deliver => { call with response := r.result }
  | _ => call

@[simp] theorem after_pc (e : Effect) : (after e r call).pc = call.pc := by cases e <;> rfl

@[simp] theorem after_service (e : Effect) : (after e r call).service = call.service := by cases e <;> rfl

@[simp] theorem after_request (e : Effect) : (after e r call).request = call.request := by cases e <;> rfl

attribute [grind] Untouched Canceled Open Fits after

variable {e : Effect}

theorem received_of_applies (applies : e.Applies r r') (received : r.Received) : r'.Received := by
  have admission := applies.admission
  grind

theorem Open.after (open_ : call.Open listed r) (applies : e.Applies r r')
    (found : e = .take → listed) (missing : e = .lose → ¬listed) :
    (call.after e r).Open (listed ∧ e ≠ .take) r' := by
  obtain ⟨ready, _, completed, result, _, _⟩ := applies
  unfold Open at open_ ⊢
  cases e with
  | silent | raise | lower =>
    simp only [Effect.completed] at completed
    cases progress : r.completion <;> simp_all [Call.after, Untouched]
  | _ => grind

theorem Canceled.after (canceled : call.Canceled listed)
    (progress : r.completion = .owed ∨ r.completion = .lost ∨ r.completion = .counted)
    (applies : e.Applies r r') (found : e = .take → listed) :
    (call.after e r).Canceled (listed ∧ e ≠ .take) ∧
      (r'.completion = .owed ∨ r'.completion = .lost ∨ r'.completion = .counted) := by
  obtain ⟨ready, _, completed, _, _, _⟩ := applies
  cases e <;> grind

theorem Fits.after (fits : call.Fits listed (some r)) (submitted : call.request ≠ none)
    (applies : e.Applies r r') (found : e = .take → listed) (missing : e = .lose → ¬listed) :
    (call.after e r).Fits (listed ∧ e ≠ .take) (some r') := by
  have received := received_of_applies applies
  have opened (open_ : call.Open listed r) := open_.after applies found missing
  have canceled (canceled : call.Canceled listed) progress := canceled.after progress applies found
  obtain ⟨ready, _, completed, result, _, admission⟩ := applies
  unfold Fits at fits ⊢
  rw [after_pc]
  split at fits
  · grind
  · grind
  · grind
  · grind
  · grind
  · cases e <;> grind
  · grind
  · grind
  · cases e <;> grind
  · cases e <;> grind

end Call

namespace System

def callee (s : System Msg) (call : Call Msg) : Option (Request Msg) := call.request.bind (s.request call.service)

structure Coordinated (s : System Msg) : Prop where
  fits : ∀ (c : Nat) (call : Call Msg), s.calls[c]? = some call → call.Fits (c + 1 ∈ s.pending) (s.callee call)
  caller : ∀ (k id : Nat) (r : Request Msg), s.request k id = some r → r.expectsResponse = true →
    ∃ c call, r.session = c + 1 ∧ s.calls[c]? = some call ∧ call.service = k ∧ call.request = some id
  submitted : ∀ (c : Nat) (call : Call Msg) (id : Nat), s.calls[c]? = some call → call.request = some id →
    ∃ r, s.request call.service id = some r ∧ r.session = c + 1 ∧ r.expectsResponse = true
  placed : ∀ (c : Nat) (call : Call Msg), s.calls[c]? = some call → call.service < s.mailboxes.length
  issued : ∀ n ∈ s.pending, ∃ c < s.calls.length, n = c + 1

variable {s' : System Msg}

theorem request_congr (mailboxes : s'.mailboxes = s.mailboxes) : s'.request = s.request := by
  funext k id
  simp only [request, mailboxes]

structure Aligned (s s' : System Msg) : Prop where
  calls : ∃ c f, s'.calls = s.calls.modify c f ∧
    ∀ call : Call Msg, (f call).service = call.service ∧ (f call).request = call.request
  requests : ∀ (k id : Nat) (r : Request Msg), s.request k id = some r →
    ∃ r', s'.request k id = some r' ∧ r'.session = r.session ∧ r'.expectsResponse = r.expectsResponse
  fresh : ∀ (k id : Nat) (r : Request Msg), s'.request k id = some r → s.request k id = none →
    r.expectsResponse = false
  mailboxes : s.mailboxes.length ≤ s'.mailboxes.length
  issued : ∀ n ∈ s'.pending, n ∈ s.pending ∨ ∃ c < s.calls.length, n = c + 1

theorem Coordinated.align (coordinated : s.Coordinated) (aligned : s.Aligned s')
    (fits : ∀ (c : Nat) (call : Call Msg), s'.calls[c]? = some call →
      call.Fits (c + 1 ∈ s'.pending) (s'.callee call)) : s'.Coordinated := by
  obtain ⟨_, caller, submitted, placed, issued⟩ := coordinated
  obtain ⟨⟨c, f, calls, same⟩, requests, fresh, mailboxes, listed⟩ := aligned
  have origin {j : Nat} {call : Call Msg} (found : s'.calls[j]? = some call) :
      ∃ before, s.calls[j]? = some before ∧ call.service = before.service ∧ call.request = before.request :=
    modify_origin (M := fun before call => call.service = before.service ∧ call.request = before.request)
      (calls ▸ found) (fun _ => ⟨rfl, rfl⟩) fun _ before _ => same before
  refine ⟨fits, fun k id r' known expects => ?_, ?_, ?_, fun n member => ?_⟩
  · cases before : s.request k id with
    | none => grind
    | some r =>
      obtain ⟨_, known', session, expects'⟩ := requests k id r before
      obtain ⟨j, call, numbered, found, service, named⟩ := caller k id r before (by grind)
      by_cases at_ : j = c
      · exact ⟨j, f call, by grind⟩
      · exact ⟨j, call, by grind⟩
  · intro j call id found named
    obtain ⟨before, was, service, request⟩ := origin found
    obtain ⟨r, known, session, expects⟩ := submitted j before id was (request ▸ named)
    obtain ⟨r', later, session', expects'⟩ := requests _ _ r known
    exact ⟨r', service ▸ later, session'.trans session, expects'.trans expects⟩
  · intro j call found
    obtain ⟨before, was, service, -⟩ := origin found
    exact service ▸ Nat.lt_of_lt_of_le (placed j before was) mailboxes
  · rw [calls, List.length_modify]
    exact (listed n member).elim (issued n) id

theorem calls_apply (s : System Msg) (e : Effect) (r : Request Msg) :
    (s.apply e r).calls = s.calls.modify (r.session - 1) (Call.after e r) := by
  have idle : s.calls = s.calls.modify (r.session - 1) fun call => call := (List.modify_id _ _).symm
  cases e with
  | take | deliver => rfl
  | silent | raise | lower | lose | miss => exact idle

theorem mem_pending_apply (s : System Msg) (e : Effect) (r : Request Msg) (n : Nat) :
    n ∈ (s.apply e r).pending ↔ n ∈ s.pending ∧ (e = .take → n ≠ r.session) := by
  cases e <;> simp [apply, and_comm]

theorem calls_next (a : SystemAction Msg) :
    (∃ c f, (next s a).calls = s.calls.modify c f ∧
      ∀ call : Call Msg, (f call).service = call.service ∧ (f call).request = call.request) ∨
    (∃ k remote, a = .allocate k remote) ∨ ∃ c ctx protocol, a = .admitCall c ctx protocol := by
  have idle : ∃ c f, s.calls = s.calls.modify c f ∧
      ∀ call : Call Msg, (f call).service = call.service ∧ (f call).request = call.request :=
    ⟨0, fun call => call, (List.modify_id _ _).symm, fun _ => ⟨rfl, rfl⟩⟩
  cases a with
  | allocate k remote => exact .inr (.inl ⟨k, remote, rfl⟩)
  | admitCall c ctx protocol => exact .inr (.inr ⟨c, ctx, protocol, rfl⟩)
  | mail k act =>
    left
    simp only [next]
    split
    · split
      · exact ⟨_, _, calls_apply _ _ _, fun call => ⟨Call.after_service _, Call.after_request _⟩⟩
      · exact idle
    · exact idle
  | packFailed | rejected | cancel | register | admitted | receive | expire | countTimeout | receiveLate
  | reserveWork | finish =>
    left
    simp only [next, cancelSession]
    first
      | exact ⟨_, _, rfl, fun _ => ⟨rfl, rfl⟩⟩
      | split <;> first | exact ⟨_, _, rfl, fun _ => ⟨rfl, rfl⟩⟩ | exact idle
  | _ => exact .inl idle

variable {a : SystemAction Msg}

theorem pending_next (enabled : Enabled s a) {n : Nat} (listed : n ∈ (next s a).pending) :
    n ∈ s.pending ∨ ∃ c < s.calls.length, n = c + 1 := by
  cases a with
  | mail k act =>
    left
    simp only [next] at listed
    split at listed
    · split at listed
      · exact ((mem_pending_apply _ _ _ n).mp listed).1
      · exact listed
    · exact listed
  | register c =>
    obtain ⟨call, found, _⟩ := at_iff.mp enabled
    rcases Finset.mem_insert.mp listed with here | old
    · exact .inr ⟨c, lookup_lt found, here⟩
    · exact .inl old
  | _ => grind

theorem aligned_next (enabled : Enabled s a) (call : ∀ k remote, a ≠ .allocate k remote)
    (admitCall : ∀ c ctx protocol, a ≠ .admitCall c ctx protocol) : s.Aligned (next s a) where
  calls := by
    rcases calls_next a with moved | ⟨k, remote, rfl⟩ | ⟨c, ctx, protocol, rfl⟩
    · exact moved
    · exact absurd rfl (call k remote)
    · exact absurd rfl (admitCall c ctx protocol)
  requests k id r found := by
    obtain ⟨r', after, _, _, later⟩ := request_next enabled found
    exact ⟨r', after, later.session, later.expectsResponse⟩
  fresh k id r after absent := by
    rcases (request_fresh enabled after absent).2.2.2 with ⟨_, _, _, _, _, rfl⟩ | ⟨c, _, ctx, protocol, rfl, _⟩
    · rfl
    · exact absurd rfl (admitCall c ctx protocol)
  mailboxes := by
    rcases next_mailboxes enabled with same | ⟨_, _, _, appended⟩ | ⟨_, _, _, _, _, changed, _⟩
    · rw [same]
    · simp [appended]
    · simp [changed]
  issued _ listed := pending_next enabled listed

def Fitting (s : System Msg) : Prop :=
  ∀ (c : Nat) (call : Call Msg), s.calls[c]? = some call → call.Fits (c + 1 ∈ s.pending) (s.callee call)

theorem Coordinated.frame (coordinated : s.Coordinated) (calls : s'.calls = s.calls)
    (pending : s'.pending = s.pending)
    (kept : ∀ (k id : Nat) (r : Request Msg), s.request k id = some r → s'.request k id = some r) :
    s'.Fitting := by
  intro c call found
  rw [calls] at found
  have callee_ : s'.callee call = s.callee call := by
    cases named : call.request with
    | none => simp [callee, named]
    | some id =>
      obtain ⟨r, known, _⟩ := coordinated.submitted c call id found named
      simp only [callee, named, Option.bind_some, known, kept _ _ r known]
  rw [callee_, pending]
  exact coordinated.fits c call found

theorem Coordinated.touch (coordinated : s.Coordinated) {c : Nat} {call : Call Msg}
    {f : Call Msg → Call Msg} (found : s.calls[c]? = some call) (mailboxes : s'.mailboxes = s.mailboxes)
    (calls : s'.calls = s.calls.modify c f)
    (same : (f call).service = call.service ∧ (f call).request = call.request)
    (pending : ∀ n, n ≠ c + 1 → (n ∈ s'.pending ↔ n ∈ s.pending))
    (here : (f call).Fits (c + 1 ∈ s'.pending) (s.callee call)) : s'.Fitting := by
  have requests := request_congr mailboxes
  unfold Fitting
  rw [calls]
  apply forall_modify_at (P := fun c (call : Call Msg) => call.Fits (c + 1 ∈ s'.pending) (s'.callee call)) found
  · simp only [callee, requests, same]
    exact here
  · intro j other ne was
    simp only [callee, requests, pending (j + 1) (by omega)]
    exact coordinated.fits j other was

theorem Coordinated.cancel (coordinated : s.Coordinated) {c : Nat} {call : Call Msg} {won lost : CallPc}
    (found : s.calls[c]? = some call)
    (wins : c + 1 ∈ s.pending → Call.Fits { call with pc := won, cancels := call.cancels + 1 } False (s.callee call))
    (loses : c + 1 ∉ s.pending → Call.Fits { call with pc := lost } False (s.callee call)) :
    (s.cancelSession c won lost).Fitting := by
  by_cases listed : c + 1 ∈ s.pending
  · rw [cancelSession, if_pos listed]
    refine coordinated.touch found rfl rfl ⟨rfl, rfl⟩ (fun n ne => by simp [ne]) ?_
    simpa using wins listed
  · rw [cancelSession, if_neg listed]
    refine coordinated.touch found rfl rfl ⟨rfl, rfl⟩ (fun n _ => Iff.rfl) ?_
    simpa [listed] using loses listed

theorem Coordinated.mail (coordinated : s.Coordinated) (healthy : s.Healthy) {k : Nat} {act : Action Msg}
    (enabled : Enabled s (.mail k act)) : (next s (.mail k act)).Fitting := by
  obtain ⟨m, box, sound, allowed, agrees, taken⟩ := mail_cases healthy enabled
  have kept : ∀ (j id : Nat) (r : Request Msg), s.request j id = some r →
      ¬(j = k ∧ Runtime.subject m act = some id) → (next s (.mail k act)).request j id = some r := by
    intro j id r found other
    rcases request_cases healthy enabled found with same | ⟨_, _, _, ⟨⟩, box', _, _, acts, _⟩
    · exact same
    · rw [box] at box'
      cases box'
      exact absurd ⟨rfl, acts⟩ other
  rcases taken with ⟨_, idle, same⟩ | ⟨id, r, r', acts, there, after, applies, answers, changed⟩
  · refine coordinated.frame (by rw [same]) (by rw [same]) fun j id r found => kept j id r found ?_
    simp [idle]
  · have found : s.request k id = some r := request_eq_some.mpr ⟨m, box, there⟩
    have found' : (next s (.mail k act)).request k id = some r' := by
      refine request_eq_some.mpr ⟨Runtime.next m act, ?_, after⟩
      rw [changed, mailboxes_apply, lookup_modify_self box]
    have pending : ∀ n, n ∈ (next s (.mail k act)).pending ↔
        n ∈ s.pending ∧ (Runtime.effect m act = .take → n ≠ r.session) := by
      intro n
      rw [changed]
      exact mem_pending_apply _ _ r n
    have calls : (next s (.mail k act)).calls = s.calls.modify (r.session - 1)
        (Call.after (Runtime.effect m act) r) := by
      rw [changed]
      exact calls_apply _ _ r
    intro c call' was'
    obtain ⟨call, was, moved⟩ : ∃ call, s.calls[c]? = some call ∧
        call' = if c = r.session - 1 then call.after (Runtime.effect m act) r else call := by
      rw [calls] at was'
      rcases lookup_modify was' with ⟨rfl, call, was, rfl⟩ | ⟨ne, was⟩
      · exact ⟨call, was, by simp⟩
      · exact ⟨call', was, by simp [ne]⟩
    have fits := coordinated.fits c call was
    by_cases own : call.service = k ∧ call.request = some id
    · -- the call's own envelope: its session is the one the step is about
      obtain ⟨rfl, named⟩ := own
      obtain ⟨_, known, session, _⟩ := coordinated.submitted c call id was named
      rw [found] at known
      cases known
      rw [if_pos (by omega)] at moved
      subst moved
      have before : s.callee call = some r := by simp [callee, named, found]
      have now : (next s (.mail call.service act)).callee (call.after (Runtime.effect m act) r) = some r' := by
        simp [callee, named, found']
      have listed : (c + 1 ∈ (next s (.mail call.service act)).pending) =
          (c + 1 ∈ s.pending ∧ Runtime.effect m act ≠ .take) := by
        rw [pending, session]
        simp
      rw [before] at fits
      rw [now, listed]
      refine fits.after (by simp [named]) applies (fun takes => ?_) (fun loses => ?_)
      · rw [takes] at answers
        simpa [Answers, session] using answers
      · rw [loses] at answers
        simpa [Answers, session] using answers
    · have other : r.expectsResponse = true → c ≠ r.session - 1 ∧ c + 1 ≠ r.session := by
        intro expects
        obtain ⟨c₀, call₀, session, was₀, service, named⟩ := coordinated.caller k id r found expects
        have ne : c ≠ c₀ := by
          rintro rfl
          rw [was] at was₀
          cases was₀
          exact own ⟨service, named⟩
        omega
      have same : call' = call ∧ (c + 1 ∈ (next s (.mail k act)).pending ↔ c + 1 ∈ s.pending) := by
        have ready := applies.ready
        rw [pending, moved]
        cases e : Runtime.effect m act with
        | take =>
          rw [e] at ready
          obtain ⟨ne, ne'⟩ := other ready.2.1
          simp [ne, ne']
        | deliver =>
          rw [e] at ready
          simp [(other ready.2.1).1]
        | silent | raise | lower | lose | miss => simp [Call.after]
      obtain ⟨rfl, listed⟩ := same
      have callee_ : (next s (.mail k act)).callee call' = s.callee call' := by
        cases named : call'.request with
        | none => simp [callee, named]
        | some j =>
          obtain ⟨q, known, _⟩ := coordinated.submitted c call' j was named
          simp only [callee, named, Option.bind_some, known]
          refine kept _ j q known ?_
          rintro ⟨service, subject_⟩
          rw [acts] at subject_
          cases subject_
          exact own ⟨service, named⟩
      rw [callee_, listed]
      exact fits

theorem callee_of_returned {call : Call Msg} {fault : Option Fault} (returned : s.AdmitReturned call fault) :
    ∃ id r, call.request = some id ∧ s.request call.service id = some r ∧ s.callee call = some r ∧
      r.admission = .returned fault := by
  obtain ⟨id, named, known⟩ := returned
  obtain ⟨m, box, known⟩ := at_iff.mp known
  obtain ⟨r, there, admission⟩ := at_iff.mp known
  have found : s.request call.service id = some r := request_eq_some.mpr ⟨m, box, there⟩
  have named : call.request = some id := named
  exact ⟨id, r, named, found, by simp [callee, named, found], admission⟩

theorem owed_of_refused (healthy : s.Healthy) {k id : Nat} {r : Request Msg} (found : s.request k id = some r)
    {fault : Fault} (refused : r.admission = .returned (some fault)) : r.completion = .owed := by
  obtain ⟨m, box, there⟩ := request_eq_some.mp found
  obtain ⟨_, _, _, owed, _⟩ := ((healthy k m box).1.fits id r there).unsent (by simp [refused])
  exact owed

theorem Coordinated.act (coordinated : s.Coordinated) (healthy : s.Healthy)
    (enabled : Enabled s a) (call : ∀ k remote, a ≠ .allocate k remote)
    (admitCall : ∀ c ctx protocol, a ≠ .admitCall c ctx protocol) : (next s a).Fitting := by
  cases a with
  | allocate k remote => exact absurd rfl (call k remote)
  | admitCall c ctx protocol => exact absurd rfl (admitCall c ctx protocol)
  | mail k act => exact coordinated.mail healthy enabled
  | start name opts =>
    refine coordinated.frame rfl rfl fun k id r found => ?_
    obtain ⟨m, box, there⟩ := request_eq_some.mp found
    exact request_eq_some.mpr ⟨m, lookup_append_old box, there⟩
  | register c =>
    obtain ⟨call, found, here⟩ := at_iff.mp enabled
    have fits := coordinated.fits c call found
    simp only [Call.Fits, here] at fits
    refine coordinated.touch found rfl rfl ⟨rfl, rfl⟩ (fun n ne => by simp [next, goto, ne]) ?_
    exact ⟨Finset.mem_insert_self _ _, fits.2⟩
  | packFailed c detail =>
    obtain ⟨call, found, here, _⟩ := at_iff.mp enabled
    have fits := coordinated.fits c call found
    exact coordinated.cancel found (by grind [callee]) (by grind)
  | rejected c fault =>
    obtain ⟨call, found, here, returned⟩ := at_iff.mp enabled
    have fits := coordinated.fits c call found
    obtain ⟨id, r, named, request_, callee_, refused⟩ := callee_of_returned returned
    have owed := owed_of_refused healthy request_ refused
    rw [callee_] at fits
    refine coordinated.cancel found ?_ ?_ <;> rw [callee_] <;> grind
  | admitted c =>
    obtain ⟨call, found, here, returned⟩ := at_iff.mp enabled
    have fits := coordinated.fits c call found
    obtain ⟨_, r, _, _, callee_, received⟩ := callee_of_returned returned
    refine coordinated.touch found rfl rfl ⟨rfl, rfl⟩ (fun _ _ => Iff.rfl) ?_
    grind
  | receive c | receiveLate c =>
    obtain ⟨call, found, here, response⟩ := at_iff.mp enabled
    have fits := coordinated.fits c call found
    refine coordinated.touch found rfl rfl ⟨rfl, rfl⟩ (fun _ _ => Iff.rfl) ?_
    grind
  | expire c cause =>
    obtain ⟨call, found, here, _⟩ := at_iff.mp enabled
    have fits := coordinated.fits c call found
    simp only [Call.Fits, here] at fits
    exact coordinated.touch found rfl rfl ⟨rfl, rfl⟩ (fun _ _ => Iff.rfl) fits
  | cancel c cause =>
    obtain ⟨call, found, here⟩ := at_iff.mp enabled
    have fits := coordinated.fits c call found
    refine coordinated.cancel found ?_ ?_ <;> cases cause <;> grind
  | countTimeout c =>
    obtain ⟨call, found, here⟩ := at_iff.mp enabled
    have fits := coordinated.fits c call found
    simp only [Call.Fits, here] at fits
    exact coordinated.touch found rfl rfl ⟨rfl, rfl⟩ (fun _ _ => Iff.rfl) fits
  | reserveWork | finish =>
    simp only [next]
    split <;> exact coordinated.frame rfl rfl fun _ _ _ found => found
  | _ => exact coordinated.frame rfl rfl fun _ _ _ found => found

theorem Coordinated.allocate (coordinated : s.Coordinated) {k : Nat} (remote : Bool) (there : k < s.mailboxes.length) :
    (next s (.allocate k remote)).Coordinated where
  fits c call found := by
    rcases lookup_append found with old | ⟨rfl, rfl⟩
    · exact coordinated.fits c call old
    · refine ⟨fun listed => ?_, ⟨rfl, rfl, rfl, rfl⟩, rfl⟩
      obtain ⟨c, inside, same⟩ := coordinated.issued _ listed
      omega
  caller j id r known expects := by
    obtain ⟨c, call, session, found, rest⟩ := coordinated.caller j id r known expects
    exact ⟨c, call, session, lookup_append_old found, rest⟩
  submitted c call id found named := by
    rcases lookup_append found with old | ⟨_, rfl⟩
    · exact coordinated.submitted c call id old named
    · cases named
  placed := forall_append coordinated.placed there
  issued n listed := by
    obtain ⟨c, inside, same⟩ := coordinated.issued n listed
    refine ⟨c, ?_, same⟩
    simp only [next, List.length_append]
    omega

theorem Coordinated.admitCall (coordinated : s.Coordinated) {c : Nat} {ctx : Context} {protocol : String}
    (enabled : Enabled s (.admitCall c ctx protocol)) : (next s (.admitCall c ctx protocol)).Coordinated := by
  obtain ⟨call, found, here⟩ := at_iff.mp enabled.1
  obtain ⟨m, box⟩ : ∃ m, s.mailboxes[call.service]? = some m :=
    ⟨_, List.getElem?_eq_getElem (coordinated.placed c call found)⟩
  have changed : next s (.admitCall c ctx protocol) = { s with
      mailboxes := s.mailboxes.modify call.service (Runtime.next · (.submit ctx protocol (c + 1) true false))
      calls := s.calls.modify c fun call =>
        { call with pc := .admitting, request := some m.requests.length } } := by
    simp only [next, found, box]
  have fits := coordinated.fits c call found
  simp only [Call.Fits, here] at fits
  obtain ⟨listed, untouched, unnamed⟩ := fits
  obtain ⟨fresh, known, session, expects, owed⟩ : ∃ fresh : Request Msg,
      (next s (.admitCall c ctx protocol)).request call.service m.requests.length = some fresh ∧
      fresh.session = c + 1 ∧ fresh.expectsResponse = true ∧ fresh.completion = .owed := by
    refine ⟨{ ctx := ctx, protocol := protocol, session := c + 1, expectsResponse := true, nonBlocking := false },
      request_eq_some.mpr ⟨_, by rw [changed]; exact lookup_modify_self box, ?_⟩, rfl, rfl, rfl⟩
    simp [Runtime.next]
  have pending : (next s (.admitCall c ctx protocol)).pending = s.pending := by rw [changed]
  have kept : ∀ (k id : Nat) (r : Request Msg), s.request k id = some r →
      (next s (.admitCall c ctx protocol)).request k id = some r := by
    rw [changed]
    grind
  have back : ∀ (k id : Nat) (r : Request Msg), (next s (.admitCall c ctx protocol)).request k id = some r →
      s.request k id = some r ∨ (k = call.service ∧ id = m.requests.length) := by
    rw [changed]
    grind
  -- every other call keeps its envelope; this one had none
  have calls : ∀ {j : Nat} {call' : Call Msg}, (next s (.admitCall c ctx protocol)).calls[j]? = some call' ↔
      (j = c ∧ call' = { call with pc := .admitting, request := some m.requests.length }) ∨
        (j ≠ c ∧ s.calls[j]? = some call') := by
    rw [changed]
    grind
  obtain ⟨fitting, caller, submitted, placed, issued⟩ := coordinated
  have callee_ : ∀ (j : Nat) (call' : Call Msg), s.calls[j]? = some call' →
      (next s (.admitCall c ctx protocol)).callee call' = s.callee call' := by
    intro j call' before
    cases named : call'.request with
    | none => simp [callee, named]
    | some id =>
      obtain ⟨r, old, _⟩ := submitted j call' id before named
      simp only [callee, named, Option.bind_some, old, kept _ _ r old]
  have grown : (next s (.admitCall c ctx protocol)).mailboxes.length = s.mailboxes.length ∧
      (next s (.admitCall c ctx protocol)).calls.length = s.calls.length := by
    simp [changed]
  clear changed
  refine ⟨?_, ?_, ?_, ?_, ?_⟩
  · intro j call' was
    rcases calls.mp was with ⟨rfl, rfl⟩ | ⟨_, before⟩
    · refine ⟨fresh, by simpa [callee] using known, ?_⟩
      grind
    · rw [callee_ j call' before, pending]
      exact fitting j call' before
  · intro k id r after expects'
    rcases back k id r after with before | ⟨rfl, rfl⟩
    · obtain ⟨j, old, numbered, was, service, named⟩ := caller k id r before expects'
      exact ⟨j, old, numbered, calls.mpr (.inr ⟨by grind, was⟩), service, named⟩
    · rw [known] at after
      cases after
      exact ⟨c, _, session, calls.mpr (.inl ⟨rfl, rfl⟩), rfl, rfl⟩
  · grind
  · grind
  · grind

theorem coordinated_next (coordinated : s.Coordinated) (healthy : s.Healthy) (a : SystemAction Msg)
    (enabled : Enabled s a) : (next s a).Coordinated := by
  cases a with
  | allocate k remote => exact coordinated.allocate remote enabled
  | admitCall c ctx protocol => exact coordinated.admitCall enabled
  | _ => exact coordinated.align (aligned_next enabled nofun nofun) (coordinated.act healthy enabled nofun nofun)

theorem reachable_coordinated {self : Nat} {drainable : Bool}
    (reached : (machine Msg).Reachable (fresh self drainable) s) : s.Coordinated :=
  reached.invariant_with
    ⟨by simp [fresh], by intro k id r found; simp [fresh, request] at found, by simp [fresh], by simp [fresh],
      by simp [fresh]⟩
    fun _ a known coordinated enabled => coordinated_next coordinated (reachable_healthy known) a enabled

end System

end Skygo.Actor
