import Skygo.Actor.Sessions

/-! What a call returns, and what the counters of abandoned calls count. -/

set_option autoImplicit false

attribute [-instance] instBooleanRingBool

namespace Skygo.Actor

open Semantics

variable {Msg : Type} {s : System Msg}

namespace Request

variable {r : Request Msg} {drainable : Bool} {place : Place}

/-- The result is the one the handler, run once, came back with; or its request could not
be unpacked. -/
def Handled (r : Request Msg) : Prop := r.started = true ∧ r.discards = 0 ∧ r.Returned

def Stopped (r : Request Msg) : Prop :=
  r.discards = 1 ∧ r.invocations = 0 ∧ r.result = some (.error (.bare .serviceStopping))

attribute [grind] Handled Stopped

theorem Fits.answered (fits : r.Fits drainable place) (sent : r.completion = .sent) :
    r.Handled ∨ r.Stopped := by
  have live : r.Live drainable → r.Returned := by cases here : r.pc <;> grind
  cases place with
  | discarding stage => cases stage <;> grind
  | _ => grind

theorem Fits.completing (fits : r.Fits drainable place) (busy : r.completion = .taken ∨ r.completion = .lost) :
    r.expectsResponse = true ∧
      (r.completion = .taken → r.pc = .responding ∨ place = .discarding .respond) ∧
      (r.completion = .lost → r.pc = .missing ∨ place = .discarding .missing) := by
  have live : r.Live drainable → r.expectsResponse = true ∧ (r.completion = .taken → r.pc = .responding) ∧
      (r.completion = .lost → r.pc = .missing) := by
    cases here : r.pc <;> grind
  cases place with
  | discarding stage => cases stage <;> grind
  | _ => grind

end Request

theorem LoopPc.eq_of_place {loop : LoopPc} {id : Nat} {stage : Stage} (place : loop.place id = .discarding stage)
    (further : stage ≠ .track) : ∃ rest inSchedule, loop = .discard stage id rest inSchedule := by
  cases loop <;> grind

variable {call : Call Msg}

theorem Call.Fits.response {listed : Prop} {r : Request Msg} (fits : call.Fits listed (some r))
    (submitted : call.request ≠ none) (taken : r.completion = .taken) : call.response = none := by
  unfold Call.Fits at fits
  split at fits <;> grind

theorem Call.Fits.once {listed : Prop} {callee : Option (Request Msg)}
    (fits : call.Fits listed callee) :
    call.completes + call.cancels ≤ 1 ∧ (listed ↔ call.pc ≠ .allocated ∧ call.completes + call.cancels = 0) := by
  unfold Call.Fits at fits
  split at fits <;> grind

theorem Call.Fits.returned {listed : Prop} {callee : Option (Request Msg)}
    (fits : call.Fits listed callee) {outcome : Outcome} (returned : call.pc = .returned outcome) :
    ¬listed ∧ call.completes + call.cancels = 1 ∧ (outcome = .delivered ↔ call.completes = 1) := by
  cases outcome <;> grind

namespace System

theorem completer_ready {m : ServiceRuntime Msg} {id : Nat} {r : Request Msg} (sound : m.Sound)
    (found : m.requests[id]? = some r) (busy : r.completion = .taken ∨ r.completion = .lost) :
    ∃ act, Runtime.Enabled m act ∧ Runtime.subject m act = some id ∧
      Runtime.effect m act = (if r.completion = .taken then .deliver else .miss) ∧
      (act = .respond id ∨ act = .missed id ∨ act = .finishPending true) := by
  obtain ⟨_, taken, lost⟩ := (sound.fits id r found).completing busy
  have discards : ∀ {stage rest inSchedule}, m.loop = .discard stage id rest inSchedule → stage ≠ .slot →
      Runtime.Enabled m (.finishPending true) ∧ Runtime.subject m (.finishPending true) = some id := by
    intro stage rest inSchedule loop further
    refine ⟨?_, by simp [Runtime.subject, loop, LoopPc.discarding]⟩
    cases stage <;> simp_all [Runtime.Enabled]
  rcases busy with busy | busy
  · rcases taken busy with at_ | place
    · exact ⟨.respond id, at_iff.mpr ⟨r, found, at_⟩, rfl, by simp [Runtime.effect, busy], .inl rfl⟩
    · obtain ⟨rest, inSchedule, loop⟩ := LoopPc.eq_of_place (m.loop_of_place place) (by decide)
      obtain ⟨enabled, acts⟩ := discards loop (by decide)
      exact ⟨.finishPending true, enabled, acts, by simp [Runtime.effect, loop, busy], .inr (.inr rfl)⟩
  · rcases lost busy with at_ | place
    · exact ⟨.missed id, at_iff.mpr ⟨r, found, at_⟩, rfl, by simp [Runtime.effect, busy], .inr (.inl rfl)⟩
    · obtain ⟨rest, inSchedule, loop⟩ := LoopPc.eq_of_place (m.loop_of_place place) (by decide)
      obtain ⟨enabled, acts⟩ := discards loop (by decide)
      exact ⟨.finishPending true, enabled, acts, by simp [Runtime.effect, loop, busy], .inr (.inr rfl)⟩

theorem completer_enabled (healthy : s.Healthy) (coordinated : s.Coordinated) {k id : Nat} {r : Request Msg}
    (found : s.request k id = some r) (busy : r.completion = .taken ∨ r.completion = .lost) :
    ∃ act, Enabled s (.mail k act) ∧ At s.mailboxes k fun m => Runtime.subject m act = some id ∧
      Runtime.effect m act = if r.completion = .taken then .deliver else .miss := by
  obtain ⟨m, box, there⟩ := request_eq_some.mp found
  have sound := (healthy k m box).1
  obtain ⟨act, enabled, acts, effect, form⟩ := completer_ready sound there busy
  refine ⟨act, at_iff.mpr ⟨m, box, enabled, ?_⟩, at_iff.mpr ⟨m, box, acts, effect⟩⟩
  have answers : ∀ q ∈ target m act, s.Answers (Runtime.effect m act) q := by
    intro q is
    simp only [target, acts, Option.bind_some, there, Option.mem_some_iff] at is
    subst is
    rw [effect]
    split
    · next taken =>
      have expects := ((sound.fits id r there).completing busy).1
      obtain ⟨c, call, session, was, rfl, named⟩ := coordinated.caller k id r found expects
      have fits := coordinated.fits c call was
      simp only [callee, named, Option.bind_some, found] at fits
      have response := fits.response (by simp [named]) taken
      refine at_iff.mpr ⟨call, ?_, response⟩
      rw [session]
      exact was
    · trivial
  rcases form with rfl | rfl | rfl <;> exact ⟨answers, trivial⟩

def unknowns (s : System Msg) : Nat :=
  (s.mailboxes.map fun m => m.requests.countP (·.completion = .counted)).sum

def timeouts (s : System Msg) : Nat := s.calls.countP (·.pc = .returned (.expired .timeout))

theorem unknowns_modify {k : Nat} {m : ServiceRuntime Msg} {act : Action Msg} (found : s.mailboxes[k]? = some m)
    (sound : m.Sound) (enabled : Runtime.Enabled m act) :
    ({ s with mailboxes := s.mailboxes.modify k (Runtime.next · act) } : System Msg).unknowns =
      s.unknowns + (Runtime.effect m act).missed := by
  have moved := sum_modify (g := fun m : ServiceRuntime Msg => m.requests.countP (·.completion = .counted))
    (f := (Runtime.next · act)) found
  have counted := Runtime.countP_counted_next sound enabled
  simp only [unknowns]
  omega

theorem timeouts_modify {s' : System Msg} {c : Nat} {f : Call Msg → Call Msg} (calls : s'.calls = s.calls.modify c f)
    (same : ∀ call, s.calls[c]? = some call →
      ((f call).pc = .returned (.expired .timeout) ↔ call.pc = .returned (.expired .timeout))) :
    s'.timeouts = s.timeouts := by
  simp only [timeouts, calls]
  exact countP_modify_same fun call found => by simp only [same call found]

structure Tallied (s : System Msg) : Prop where
  timedOut : s.timedOut = s.timeouts
  unknown : s.unknown = s.unknowns

theorem Tallied.move {s' : System Msg} (tallied : s.Tallied) {c : Nat} {f : Call Msg → Call Msg}
    (timedOut : s'.timedOut = s.timedOut) (unknown : s'.unknown = s.unknown)
    (mailboxes : s'.mailboxes = s.mailboxes) (calls : s'.calls = s.calls.modify c f)
    (same : ∀ call, s.calls[c]? = some call →
      ((f call).pc = .returned (.expired .timeout) ↔ call.pc = .returned (.expired .timeout))) : s'.Tallied where
  timedOut := by rw [timedOut, timeouts_modify calls same, tallied.timedOut]
  unknown := by
    simp only [unknowns, mailboxes]
    exact unknown.trans tallied.unknown

theorem Tallied.cancel (tallied : s.Tallied) {c : Nat} {won lost : CallPc}
    (other : At s.calls c (·.pc ≠ .returned (.expired .timeout)))
    (wins : won ≠ .returned (.expired .timeout)) (loses : lost ≠ .returned (.expired .timeout)) :
    (s.cancelSession c won lost).Tallied := by
  unfold cancelSession
  split
  · refine tallied.move rfl rfl rfl rfl fun call found => ?_
    simp [wins, other.here found]
  · refine tallied.move rfl rfl rfl rfl fun call found => ?_
    simp [loses, other.here found]

theorem counters_apply (s : System Msg) (e : Effect) (r : Request Msg) :
    (s.apply e r).timedOut = s.timedOut ∧ (s.apply e r).unknown = s.unknown + e.missed := by
  cases e <;> exact ⟨rfl, rfl⟩

theorem tallied_mail (tallied : s.Tallied) (healthy : s.Healthy) {k : Nat} {act : Action Msg}
    (enabled : Enabled s (.mail k act)) : (next s (.mail k act)).Tallied := by
  obtain ⟨m, box, sound, allowed, _, taken⟩ := mail_cases healthy enabled
  have counted := unknowns_modify box sound allowed
  rcases taken with ⟨silent, _, same⟩ | ⟨_, r, _, _, _, _, _, _, changed⟩
  · rw [same]
    refine ⟨tallied.timedOut, ?_⟩
    rw [counted, silent]
    exact tallied.unknown
  · rw [changed]
    obtain ⟨timedOut, unknown⟩ := counters_apply
      { s with mailboxes := s.mailboxes.modify k (Runtime.next · act) } (Runtime.effect m act) r
    refine ⟨?_, ?_⟩
    · rw [timedOut, timeouts_modify (calls_apply _ _ r) fun call _ => by rw [Call.after_pc]]
      exact tallied.timedOut
    · rw [unknown, unknowns, mailboxes_apply]
      have before := tallied.unknown
      simp only [unknowns] at counted before ⊢
      omega

theorem tallied_next (tallied : s.Tallied) (healthy : s.Healthy) (a : SystemAction Msg) (enabled : Enabled s a) :
    (next s a).Tallied := by
  cases a with
  | mail k act => exact tallied_mail tallied healthy enabled
  | start name opts =>
    refine ⟨tallied.timedOut, ?_⟩
    have before := tallied.unknown
    simpa [unknowns, next, ServiceRuntime.start] using before
  | allocate k remote =>
    refine ⟨?_, tallied.unknown⟩
    have before := tallied.timedOut
    simpa [timeouts, next] using before
  | admitCall c ctx protocol =>
    obtain ⟨call, found, here⟩ := at_iff.mp enabled.1
    simp only [next, found]
    split
    · next m box =>
      refine ⟨?_, ?_⟩
      · rw [timeouts_modify rfl fun old was => ?_]
        · exact tallied.timedOut
        · rw [found] at was
          cases was
          simp [here]
      · have free : Runtime.Enabled m (.submit ctx protocol (c + 1) true false) := trivial
        have counted := unknowns_modify box (healthy _ m box).1 free
        exact tallied.unknown.trans counted.symm
    · exact tallied
  | countTimeout c =>
    obtain ⟨call, found, here⟩ := at_iff.mp enabled
    refine ⟨?_, tallied.unknown⟩
    have counted := countP_modify (p := fun call : Call Msg => call.pc = .returned (.expired .timeout))
      (f := fun call => { call with pc := .returned (.expired .timeout) }) found
    have before := tallied.timedOut
    simp [here] at counted
    simp only [next, goto, timeouts] at before ⊢
    omega
  | register c | admitted c | receive c | expire c | receiveLate c =>
    refine tallied.move rfl rfl rfl rfl fun call found => ?_
    grind
  | packFailed c | rejected c =>
    obtain ⟨call, found, here, _⟩ := at_iff.mp enabled
    exact tallied.cancel (at_iff.mpr ⟨call, found, by simp [here]⟩) (by simp) (by simp)
  | cancel c cause =>
    refine tallied.cancel (enabled.mono fun call here => by simp [here]) ?_ (by simp)
    cases cause <;> simp [afterCancel]
  | reserveWork | finish =>
    simp only [next]
    split <;> exact ⟨tallied.timedOut, tallied.unknown⟩
  | _ => exact ⟨tallied.timedOut, tallied.unknown⟩

theorem reachable_tallied {self : Nat} {drainable : Bool}
    (reached : (machine Msg).Reachable (fresh self drainable) s) : s.Tallied :=
  reached.invariant_with ⟨rfl, rfl⟩ fun _ a known tallied enabled =>
    tallied_next tallied (reachable_healthy known) a enabled

/-- After a lost `cancelSession` the response is there, or is the completer's next statement. -/
theorem receive_ready (healthy : s.Healthy) (coordinated : s.Coordinated) {c : Nat} {call : Call Msg}
    (found : s.calls[c]? = some call) (receiving : call.pc = .receiving) :
    Enabled s (.receiveLate c) ∨ ∃ act, Enabled s (.mail call.service act) ∧
      Enabled (next s (.mail call.service act)) (.receiveLate c) := by
  have fits := coordinated.fits c call found
  simp only [Call.Fits, receiving] at fits
  obtain ⟨r, known, open_, _, begun⟩ := fits
  obtain ⟨id, named, request_⟩ : ∃ id, call.request = some id ∧ s.request call.service id = some r := by
    simpa [callee, Option.bind_eq_some_iff] using known
  unfold Call.Open at open_
  split at open_
  · next owed => exact absurd owed begun
  · next taken =>
    right
    obtain ⟨act, enabled, does⟩ := completer_enabled healthy coordinated request_ (.inl taken)
    refine ⟨act, enabled, ?_⟩
    obtain ⟨m, box, acts, effect⟩ := at_iff.mp does
    rw [if_pos taken] at effect
    obtain ⟨m', box', _, _, _, ⟨_, idle, _⟩ | ⟨id', r', _, acts', there, _, applies, _, changed⟩⟩ :=
      mail_cases healthy enabled
    · rw [box] at box'
      cases box'
      simp [idle] at acts
    · rw [box] at box'
      cases box'
      rw [acts] at acts'
      cases acts'
      obtain rfl : r = r' := by
        have here : s.request call.service id = some r' := request_eq_some.mpr ⟨m, box, there⟩
        exact Option.some.inj (request_.symm.trans here)
      rw [effect] at changed applies
      obtain ⟨_, known', session, _⟩ := coordinated.submitted c call id found named
      rw [request_] at known'
      cases known'
      refine at_iff.mpr ⟨{ call with response := r.result }, ?_, receiving, applies.ready.2.2⟩
      rw [changed, calls_apply, session]
      exact lookup_modify_self found
  · obtain ⟨_, response, some_, _⟩ := open_
    exact .inl (at_iff.mpr ⟨call, found, receiving, by rw [response]; exact some_⟩)
  · cases open_
  · cases open_

/-- Every session is removed from `pending` once, by `completeSession` or by `cancelSession`. A call that has returned
left nothing pending; it returns what `completeSession` delivered exactly if that removed the session, which is the
handler's own result, or `ErrServiceStopping` if the envelope was discarded on stop. The receive after a lost
`cancelSession` waits at most for a send that never blocks. The counters are exact. -/
theorem single_outcome {self : Nat} {drainable : Bool}
    (reached : (machine Msg).Reachable (fresh self drainable) s) :
    (∀ (c : Nat) (call : Call Msg), s.calls[c]? = some call →
      call.completes + call.cancels ≤ 1 ∧
      (c + 1 ∈ s.pending ↔ call.pc ≠ .allocated ∧ call.completes + call.cancels = 0) ∧
      (∀ outcome, call.pc = .returned outcome → c + 1 ∉ s.pending ∧ call.completes + call.cancels = 1 ∧
        (outcome = .delivered ↔ call.completes = 1)) ∧
      (call.pc = .returned .delivered → ∃ r, s.callee call = some r ∧ call.received = r.result ∧
        (r.Handled ∨ r.Stopped)) ∧
      (call.pc = .receiving → Enabled s (.receiveLate c) ∨ ∃ act, Enabled s (.mail call.service act) ∧
        Enabled (next s (.mail call.service act)) (.receiveLate c))) ∧
    (∀ (k id : Nat) (r : Request Msg), s.request k id = some r → r.completion = .taken ∨ r.completion = .lost →
      ∃ act, Enabled s (.mail k act) ∧ At s.mailboxes k fun m => Runtime.subject m act = some id ∧
        Runtime.effect m act = if r.completion = .taken then .deliver else .miss) ∧
    s.timedOut = s.timeouts ∧ s.unknown = s.unknowns := by
  have healthy := reachable_healthy reached
  have coordinated := reachable_coordinated reached
  have tallied := reachable_tallied reached
  refine ⟨fun c call found => ?_, fun k id r found busy => completer_enabled healthy coordinated found busy,
    tallied.timedOut, tallied.unknown⟩
  have fits := coordinated.fits c call found
  refine ⟨fits.once.1, fits.once.2, fun outcome returned => fits.returned returned, fun returned => ?_,
    receive_ready healthy coordinated found⟩
  simp only [Call.Fits, returned] at fits
  obtain ⟨r, known, _, _, received, _, _, _, _, sent⟩ := fits
  obtain ⟨id, _, request_⟩ : ∃ id, call.request = some id ∧ s.request call.service id = some r := by
    simpa [callee, Option.bind_eq_some_iff] using known
  obtain ⟨m, box, there⟩ := request_eq_some.mp request_
  exact ⟨r, known, received, ((healthy _ m box).1.fits id r there).answered sent⟩

/-- A call is queued behind a running notification when the service stops; the loop is in
`finishPending`, about to complete the call's session. -/
def stopWhileQueuedCall : List (SystemAction Unit) :=
  [.start "counter" {}, .mail 0 (.submit .background "inc" 0 false false), .mail 0 (.track 0 true),
    .mail 0 (.acquire 0), .mail 0 .schedule, .mail 0 (.enqueue 0), .mail 0 .schedule,
    .mail 0 (.receiveGrant 0), .mail 0 (.invoke 0), .allocate 0 false, .register 0,
    .admitCall 0 .background "get", .mail 0 (.track 1 true), .mail 0 (.acquire 1), .mail 0 (.enqueue 1),
    .admitted 0, .mail 0 .schedule, .mail 0 .cancel, .mail 0 .observeStop, .mail 0 (.finishPending true),
    .mail 0 (.finishPending true), .mail 0 (.finishPending true)]

def sessionRun (actions : List (SystemAction Unit)) : System Unit :=
  ((machine Unit).run (fresh 0 false) actions).getD (fresh 0 false)

def stoppedCall : List (SystemAction Unit) :=
  stopWhileQueuedCall ++ [.mail 0 (.finishPending true), .receive 0]

def lateCancel : List (SystemAction Unit) := stopWhileQueuedCall ++ [.expire 0 .timeout, .cancel 0 .timeout]

theorem single_outcome_stopped :
    (1 ∉ (sessionRun stoppedCall).pending) ∧
      ∃ call, (sessionRun stoppedCall).calls[0]? = some call ∧ call.completes = 1 := by
  have reached : (machine Unit).Reachable (fresh 0 false) (sessionRun stoppedCall) := ⟨stoppedCall, rfl⟩
  obtain ⟨unlisted, _, won⟩ := ((single_outcome reached).1 0 _ rfl).2.2.1 .delivered rfl
  exact ⟨unlisted, _, rfl, won.mp rfl⟩

/-- `completeSession` wins and the call returns what it sent, yet no handler has run for it;
and after a lost `cancelSession` the response need not be there yet. -/
theorem stopped_call_unhandled :
    ((machine Unit).Reachable (fresh 0 false) (sessionRun stoppedCall) ∧
      (∃ call, (sessionRun stoppedCall).calls[0]? = some call ∧ call.pc = .returned .delivered ∧
        call.completes = 1 ∧ call.received = some (.error (.bare .serviceStopping))) ∧
      ∃ r, (sessionRun stoppedCall).request 0 1 = some r ∧ r.session = 1 ∧ r.invocations = 0 ∧ ¬r.Handled) ∧
    (machine Unit).Reachable (fresh 0 false) (sessionRun lateCancel) ∧
      (∃ call, (sessionRun lateCancel).calls[0]? = some call ∧ call.pc = .receiving) ∧
      ¬Enabled (sessionRun lateCancel) (.receiveLate 0) := by
  refine ⟨⟨⟨stoppedCall, rfl⟩, ⟨_, rfl, rfl, rfl, rfl⟩, ⟨_, rfl, rfl, rfl, ?_⟩⟩, ⟨lateCancel, rfl⟩, ⟨_, rfl, rfl⟩,
    by decide⟩
  intro handled
  cases handled.1

end System

end Skygo.Actor
