import Skygo.Actor.Quiescence

/-! What a nil error of `Drain` says about the work it waited for.

`Drain` captures the current channel under the lock and reads the counters after the
channel was closed. A channel is closed only at zero, so whatever was counted while it
was open has finished by then; and a failure after the close stays above the baseline
until admission is resumed.
-/

set_option autoImplicit false

attribute [-instance] instBooleanRingBool

namespace Skygo.Actor

open Semantics

variable {Msg : Type} {s : System Msg}

def Request.Finished (r : Request Msg) : Prop :=
  r.drainTracked = false ∧
    ((∃ fault, r.admission = .returned (some fault)) ∨ r.discards = 1 ∨ r.pc.isFinished = true)

theorem Request.Fits.finished {r : Request Msg} {place : Place} (fits : r.Fits true place)
    (begun : r.admission ≠ .track) (uncounted : r.drainTracked = false) : r.Finished := by
  have ended : r.Live true → r.pc.isFinished = true := by
    intro live
    simpa [uncounted] using live.flags.2
  cases place with
  | discarding stage => cases stage <;> grind [Request.Finished]
  | _ => grind [Request.Finished]

structure DrainTracker.Moves (d d' : DrainTracker) : Prop where
  gauge : d'.gauge = d.gauge ∨ d'.gauge = d.gauge.raise ∨ d'.gauge = d.gauge.lower
  failures : d.failures ≤ d'.failures
  durable : d.durableFailures ≤ d'.durableFailures
  held : d.closed = true → d'.closed = true ∧ d'.baseline = d.baseline

namespace System

variable {a : SystemAction Msg}

theorem drain_moves (healthy : s.Healthy) (enabled : Enabled s a)
    (unresumed : a ≠ .resumeAdmission) : s.drain.Moves (next s a).drain := by
  cases a with
  | mail k act =>
    obtain ⟨m, _, _, _, _, taken⟩ := mail_cases healthy enabled
    rcases taken with ⟨_, _, same⟩ | ⟨_, r, _, _, _, _, _, _, changed⟩
    · rw [same]
      constructor <;> grind
    · rw [changed, drain_apply]
      cases Runtime.effect m act <;> constructor <;> grind
  | _ => constructor <;> grind

variable {k id : Nat} {r : Request Msg}

theorem request_ongoing (healthy : s.Healthy) (enabled : Enabled s a) (found : s.request k id = some r) (begun : r.admission ≠ .track) :
    ∃ r', (next s a).request k id = some r' ∧ r'.admission ≠ .track ∧
      ((r'.drainTracked = r.drainTracked ∧ r'.failed = r.failed) ∨
        (r'.drainTracked = false ∧ (next s a).drain = s.drain.finishTracked r'.failed)) := by
  rcases request_cases healthy enabled found with same | ⟨m, act, r', _, _, _, _, _, _, after, applies, _, _,
      changed⟩
  · exact ⟨r, same, begun, .inl ⟨rfl, rfl⟩⟩
  · have further : r'.admission ≠ .track := by
      rcases applies.admission with same | ⟨_, _, past⟩
      · rw [same]
        exact begun
      · exact past
    refine ⟨r', after, further, ?_⟩
    have ready := applies.ready
    have tracked := applies.tracked
    have failed := applies.failed
    have drain := drain_apply { s with mailboxes := s.mailboxes.modify k (Runtime.next · act) }
      (Runtime.effect m act) r
    rw [← changed] at drain
    cases e : Runtime.effect m act with
    | raise =>
      rw [e] at ready
      exact absurd ready.2 begun
    | lower told =>
      rw [e] at tracked failed drain
      exact .inr ⟨tracked, by rw [drain, failed]; rfl⟩
    | silent | take | lose | deliver | miss =>
      rw [e] at tracked failed
      exact .inl ⟨tracked, failed⟩

theorem drains_apply (s : System Msg) (e : Effect) (r : Request Msg) : (s.apply e r).drains = s.drains := by
  cases e <;> rfl

/-- What a step does to the `Drain` calls: each keeps its channel, and reads only once
the channel is closed. -/
theorem drains_next (enabled : Enabled s a) {i : Nat} {d' : DrainCall}
    (after : (next s a).drains[i]? = some d') :
    (∃ d, s.drains[i]? = some d ∧ d'.zero = d.zero ∧
      (d'.pc = .reading → d.pc = .reading ∨ s.drain.gauge.IsClosed d.zero)) ∨
    (a = .drain ∧ i = s.drains.length ∧ d'.zero = s.drain.gauge.channel ∧ d'.pc = .waiting) := by
  cases a with
  | mail k act =>
    have same : (next s (.mail k act)).drains = s.drains := by
      simp only [next]
      grind [drains_apply]
    grind
  | _ => grind

theorem closed_next (healthy : s.Healthy) (enabled : Enabled s a) {c : Nat}
    (closed : s.drain.gauge.IsClosed c) : (next s a).drain.gauge.IsClosed c := by
  by_cases resume : a = .resumeAdmission
  · subst resume
    exact closed
  · rcases (drain_moves healthy enabled resume).gauge with same | raised | lowered
    · rw [same]
      exact closed
    · rw [raised]
      exact closed.raise
    · rw [lowered]
      exact closed.lower

theorem zero_of_closed_next (healthy : s.Healthy) (enabled : Enabled s a) {c : Nat}
    (opened : ¬s.drain.gauge.IsClosed c) (closed : (next s a).drain.gauge.IsClosed c) :
    (next s a).drain.pending = 0 := by
  by_cases resume : a = .resumeAdmission
  · subst resume
    exact absurd closed opened
  · rcases (drain_moves healthy enabled resume).gauge with same | raised | lowered
    · rw [same] at closed
      exact absurd closed opened
    · rw [raised] at closed
      exact absurd closed (Gauge.raise_opens opened)
    · rw [lowered] at closed
      rw [DrainTracker.pending, lowered]
      exact Gauge.zero_of_closes opened closed

theorem reachable_observed {self : Nat} (reached : (machine Msg).Reachable (fresh self true) s) :
    ∀ (i : Nat) (d : DrainCall), s.drains[i]? = some d → d.pc = .reading → s.drain.gauge.IsClosed d.zero := by
  refine reached.invariant_with
    (I := fun s => ∀ (i : Nat) (d : DrainCall), s.drains[i]? = some d → d.pc = .reading →
      s.drain.gauge.IsClosed d.zero) (by intro i d found; simp [fresh] at found) ?_
  intro s a known observed enabled i d' after reading
  rcases drains_next enabled after with ⟨d, found, zero, past⟩ | ⟨_, _, _, waiting⟩
  · rw [zero]
    refine closed_next (reachable_healthy known) enabled ?_
    rcases past reading with before | closed
    · exact observed i d found before
    · exact closed
  · simp [reading] at waiting

theorem failed_next {p : Nat} {permit' : Permit}
    (after : (next s a).permits[p]? = some permit') (failed : permit'.failed = true) :
    (∃ permit, s.permits[p]? = some permit ∧ permit.failed = true) ∨ 0 < (next s a).drain.durableFailures := by
  cases a with
  | mail k act =>
    have same : (next s (.mail k act)).permits = s.permits := by
      simp only [next]
      grind [permits_apply]
    grind
  | _ => grind

theorem reachable_durable {self : Nat} (reached : (machine Msg).Reachable (fresh self true) s) :
    ∀ (p : Nat) (permit : Permit), s.permits[p]? = some permit → permit.failed = true →
      0 < s.drain.durableFailures := by
  refine reached.invariant_with
    (I := fun s => ∀ (p : Nat) (permit : Permit), s.permits[p]? = some permit → permit.failed = true →
      0 < s.drain.durableFailures) (by intro p permit found; simp [fresh] at found) ?_
  intro s a known durable enabled p permit' after failed
  rcases failed_next after failed with ⟨permit, found, before⟩ | counted
  · have positive := durable p permit found before
    by_cases resume : a = .resumeAdmission
    · subst resume
      exact positive
    · have grows := (drain_moves (reachable_healthy known) enabled resume).durable
      exact Nat.lt_of_lt_of_le positive grows
  · exact counted

def Answered (s : System Msg) (k id : Nat) : Prop :=
  ∃ r, s.request k id = some r ∧ r.admission ≠ .track ∧
    (r.drainTracked = true ∨ r.failed = false ∨ s.drain.baseline < s.drain.failures)

def Awaited (s : System Msg) (k id i : Nat) : Prop :=
  ∃ r, s.request k id = some r ∧ r.admission ≠ .track ∧
    (r.drainTracked = true → ∀ d, s.drains[i]? = some d → ¬s.drain.gauge.IsClosed d.zero)

theorem answered_next (healthy : s.Healthy) (accounted : s.Accounted) (closed : s.drain.closed = true)
    (enabled : Enabled s a) (unresumed : a ≠ .resumeAdmission) (answered : s.Answered k id) : (next s a).Answered k id := by
  obtain ⟨r, found, begun, outcome⟩ := answered
  obtain ⟨r', after, further, goes⟩ := request_ongoing healthy enabled found begun
  have moves := drain_moves healthy enabled unresumed
  refine ⟨r', after, further, ?_⟩
  rcases goes with ⟨tracked, failed⟩ | ⟨_, drain⟩
  · rw [tracked, failed, (moves.held closed).2]
    have failures := moves.failures
    rcases outcome with counted | fine | above
    · exact .inl counted
    · exact .inr (.inl fine)
    · exact .inr (.inr (by omega))
  · have baseline := accounted.balanced.baseline
    rw [drain]
    cases r'.failed with
    | false => exact .inr (.inl rfl)
    | true => exact .inr (.inr (by simp only [DrainTracker.finishTracked, Bool.toNat_true]; omega))

theorem awaited_next (healthy : s.Healthy) (accounted : s.Accounted)
    (enabled : Enabled s a) {k id i : Nat} (awaited : s.Awaited k id i) : (next s a).Awaited k id i := by
  obtain ⟨r, found, begun, opened⟩ := awaited
  obtain ⟨r', after, further, goes⟩ := request_ongoing healthy enabled found begun
  refine ⟨r', after, further, fun tracked d' there closed => ?_⟩
  have counted : r.drainTracked = true := by
    rcases goes with ⟨same, _⟩ | ⟨finished, _⟩
    · exact same.symm.trans tracked
    · simp [tracked] at finished
  rcases drains_next enabled there with ⟨d, before, zero, _⟩ | ⟨rfl, _, zero, _⟩
  · -- the channel closes only at zero, where nothing is counted any more
    rw [zero] at closed
    have idle := zero_of_closed_next healthy enabled (opened counted d before) closed
    simp [untracked_of_zero (accounted_next accounted healthy a enabled) idle after] at tracked
  · -- a new `Drain` is given the current channel, which is open while the envelope is counted
    rw [zero] at closed
    have gauge : (next s .drain).drain.gauge = s.drain.gauge := by
      simp only [next, DrainTracker.close]
      split <;> rfl
    rw [gauge] at closed
    have idle := accounted.balanced.coherent.signal.mp closed
    simp [untracked_of_zero accounted idle found] at counted

section Closed

variable {self : Nat} {actions : List (SystemAction Msg)} {t : System Msg}
  (reached : (machine Msg).Reachable (fresh self true) t) (closed : t.drain.closed = true)
  (ran : (machine Msg).run t actions = some s) (unresumed : .resumeAdmission ∉ actions)
include reached closed ran unresumed

theorem closed_run : s.drain.closed = true ∧ s.drain.baseline = t.drain.baseline ∧
    t.drain.failures ≤ s.drain.failures := by
  induction actions generalizing t with
  | nil =>
    cases ran
    exact ⟨closed, rfl, Nat.le_refl _⟩
  | cons a rest ih =>
    obtain ⟨enabled, ran⟩ := Machine.run_cons.mp ran
    simp only [List.mem_cons, not_or] at unresumed
    have moves := drain_moves (reachable_healthy reached) enabled (Ne.symm unresumed.1)
    obtain ⟨still, baseline⟩ := moves.held closed
    obtain ⟨final, fixed, rises⟩ := ih (reached.next enabled) still ran unresumed.2
    exact ⟨final, fixed.trans baseline, Nat.le_trans moves.failures rises⟩

theorem answered_run {k id : Nat} (answered : t.Answered k id) : s.Answered k id := by
  induction actions generalizing t with
  | nil =>
    cases ran
    exact answered
  | cons a rest ih =>
    obtain ⟨enabled, ran⟩ := Machine.run_cons.mp ran
    simp only [List.mem_cons, not_or] at unresumed
    have healthy := reachable_healthy reached
    have moves := drain_moves healthy enabled (Ne.symm unresumed.1)
    exact ih (reached.next enabled) (moves.held closed).1 ran unresumed.2
      (answered_next healthy (reachable_accounted reached) closed enabled (Ne.symm unresumed.1) answered)

end Closed

theorem awaited_run {self : Nat} {actions : List (SystemAction Msg)} {t : System Msg}
    (reached : (machine Msg).Reachable (fresh self true) t) (ran : (machine Msg).run t actions = some s)
    {k id i : Nat} (awaited : t.Awaited k id i) : s.Awaited k id i := by
  induction actions generalizing t with
  | nil =>
    cases ran
    exact awaited
  | cons a rest ih =>
    obtain ⟨enabled, ran⟩ := Machine.run_cons.mp ran
    exact ih (reached.next enabled) ran
      (awaited_next (reachable_healthy reached) (reachable_accounted reached) enabled awaited)

theorem begun_of_tracked (healthy : s.Healthy) (found : s.request k id = some r)
    (tracked : r.drainTracked = true) : r.admission ≠ .track := by
  intro entering
  obtain ⟨m, box, there⟩ := request_eq_some.mp found
  obtain ⟨_, _, _, _, _, stage⟩ := ((healthy k m box).1.fits id r there).unsent (by simp [entering])
  simp [entering, tracked] at stage

/-- The `i`th `Drain` has observed zero and is about to return a nil error. -/
def ReturnsNil (s : System Msg) (i : Nat) : Prop := Enabled s (.drainRead i) ∧ s.drain.verdict = none

theorem verdict_eq_none {d : DrainTracker} :
    d.verdict = none ↔ d.failures ≤ d.baseline ∧ d.durableFailures = 0 := by
  have fine : d.state.failures = 0 ↔ d.failures ≤ d.baseline ∧ d.durableFailures = 0 := by
    simp only [DrainTracker.state]
    omega
  rw [← fine]
  by_cases failures : d.state.failures = 0 <;> simp [DrainTracker.verdict, failures]

def FinishedFine (s : System Msg) (k id : Nat) : Prop :=
  ∃ r, s.request k id = some r ∧ r.Finished ∧ r.failed = false

/-- Whatever was counted at a time the `Drain`'s channel was not closed has finished when it
returns nil, and not in failure. -/
theorem ReturnsNil.finished {self : Nat} {actions : List (SystemAction Msg)} {t : System Msg}
    (reached : (machine Msg).Reachable (fresh self true) t) (closed : t.drain.closed = true)
    (ran : (machine Msg).run t actions = some s) (unresumed : .resumeAdmission ∉ actions) {i : Nat}
    (returns : s.ReturnsNil i) (opened : ∀ d, t.drains[i]? = some d → ¬t.drain.gauge.IsClosed d.zero)
    (found : t.request k id = some r) (tracked : r.drainTracked = true) :
    s.FinishedFine k id := by
  have begun := begun_of_tracked (reachable_healthy reached) found tracked
  obtain ⟨r', there, _, waits⟩ := awaited_run reached ran ⟨r, found, begun, fun _ => opened⟩
  obtain ⟨_, there', further, outcome⟩ := answered_run reached closed ran unresumed ⟨r, found, begun, .inl tracked⟩
  rw [there] at there'
  cases there'
  have final := reached.run ran
  obtain ⟨d, called, reading⟩ := at_iff.mp returns.1
  have uncounted : r'.drainTracked = false := by
    by_contra counted
    exact waits (by simpa using counted) d called (reachable_observed final i d called reading)
  have quiet := (verdict_eq_none.mp returns.2).1
  obtain ⟨m, box, record⟩ := request_eq_some.mp there
  obtain ⟨sound, on⟩ := reachable_healthy final k m box
  have fits := sound.fits id r' record
  rw [on, (reachable_settings final).2] at fits
  refine ⟨r', there, fits.finished further uncounted, ?_⟩
  rcases outcome with counted | fine | above
  · simp [uncounted] at counted
  · exact fine
  · omega

/-- `s₀` is the state in which a call of `Drain` closes admission; from then on `ResumeAdmission` is not called. If a
`Drain` made since returns nil, what was counted at the close, or while the channel it captured was open, has finished
without failure, and no reservation ever finished with an error. If a counted envelope finishes in failure, no later
`Drain` returns nil. -/
theorem drain_verdict {self : Nat} {s₀ : System Msg} (reached : (machine Msg).Reachable (fresh self true) s₀)
    (opened : s₀.drain.closed = false) {actions : List (SystemAction Msg)}
    (ran : (machine Msg).run (next s₀ .drain) actions = some s) (unresumed : .resumeAdmission ∉ actions) :
    (∀ i, s₀.drains.length ≤ i → s.ReturnsNil i →
      (∀ (k id : Nat) (r : Request Msg), s₀.request k id = some r → r.drainTracked = true →
        s.FinishedFine k id) ∧
      (∀ (before after : List (SystemAction Msg)) (t : System Msg), actions = before ++ after →
        (machine Msg).run (next s₀ .drain) before = some t →
        (∀ d, t.drains[i]? = some d → ¬t.drain.gauge.IsClosed d.zero) →
        ∀ (k id : Nat) (r : Request Msg), t.request k id = some r → r.drainTracked = true →
          s.FinishedFine k id) ∧
      ∀ (p : Nat) (permit : Permit), s.permits[p]? = some permit → permit.failed = false) ∧
    ∀ (before during after : List (SystemAction Msg)) (t u : System Msg) (k id : Nat) (r r' : Request Msg),
      actions = before ++ (during ++ after) → (machine Msg).run (next s₀ .drain) before = some t →
      (machine Msg).run t during = some u → t.request k id = some r → r.drainTracked = true →
      u.request k id = some r' → r'.drainTracked = false → r'.failed = true → ∀ i, ¬s.ReturnsNil i := by
  have drainable := (reachable_settings reached).2
  have enabled : (machine Msg).Enabled s₀ .drain := drainable
  have started : (machine Msg).Reachable (fresh self true) (next s₀ .drain) := reached.next enabled
  have closed : (next s₀ .drain).drain.closed = true := by simp [next, DrainTracker.close, opened]
  -- a state on the way, with the rest of the run
  have midway : ∀ {before after : List (SystemAction Msg)} {t : System Msg}, actions = before ++ after →
      (machine Msg).run (next s₀ .drain) before = some t →
      (machine Msg).Reachable (fresh self true) t ∧ t.drain.closed = true ∧
        (machine Msg).run t after = some s ∧ .resumeAdmission ∉ after := by
    intro before after t split_ early
    subst split_
    obtain ⟨t', early', late⟩ := Machine.run_append.mp ran
    rw [early] at early'
    cases early'
    simp only [List.mem_append, not_or] at unresumed
    exact ⟨started.run early, (closed_run started closed early unresumed.1).1, late, unresumed.2⟩
  refine ⟨fun i since returns => ⟨?_, ?_, ?_⟩, ?_⟩
  · intro k id r found tracked
    refine returns.finished started closed ran unresumed (fun d called => ?_) found tracked
    -- the call that closed admission was given the current channel, open while `r` is counted
    rcases lookup_append called with old | ⟨_, rfl⟩
    · have := lookup_lt old
      omega
    · intro idle
      have accounted := reachable_accounted reached
      simp only [next, DrainTracker.close, opened] at idle
      have zero := accounted.balanced.coherent.signal.mp idle
      simp [untracked_of_zero accounted zero found] at tracked
  · intro before after t split_ early waiting k id r found tracked
    obtain ⟨known, still, late, rest⟩ := midway split_ early
    exact returns.finished known still late rest waiting found tracked
  · intro p permit found
    by_contra failed
    have counted := reachable_durable (started.run ran) p permit found (by simpa using failed)
    have quiet := (verdict_eq_none.mp returns.2).2
    omega
  · intro before during after t u k id r r' split_ early middle found tracked later finished failed i returns
    obtain ⟨known, still, late, rest⟩ := midway split_ early
    obtain ⟨u', middle', late⟩ := Machine.run_append.mp late
    rw [middle] at middle'
    cases middle'
    simp only [List.mem_append, not_or] at rest
    have begun := begun_of_tracked (reachable_healthy known) found tracked
    obtain ⟨_, there, _, outcome⟩ := answered_run known still middle rest.1 ⟨r, found, begun, .inl tracked⟩
    rw [later] at there
    cases there
    have above : u.drain.baseline < u.drain.failures := by simpa [finished, failed] using outcome
    obtain ⟨_, fixed, rises⟩ := closed_run (known.run middle)
      (closed_run known still middle rest.1).1 late rest.2
    have quiet := (verdict_eq_none.mp returns.2).1
    omega

def drainOne : List (SystemAction Unit) :=
  [.start "counter" {}, .mail 0 (.submit .background "inc" 0 false false), .mail 0 (.track 0 true)]

def runToEnd : List (SystemAction Unit) :=
  [.mail 0 .schedule, .mail 0 (.acquire 0), .mail 0 (.enqueue 0), .mail 0 .schedule,
    .mail 0 (.receiveGrant 0), .mail 0 (.invoke 0), .mail 0 (.handlerReturned 0 0 (.message ())),
    .mail 0 (.finishTracked 0), .drainObserved 0]

theorem drain_verdict_one :
    (drainRun (drainOne ++ .drain :: runToEnd)).ReturnsNil 0 ∧
      (drainRun (drainOne ++ .drain :: runToEnd)).FinishedFine 0 0 := by
  have reached : (machine Unit).Reachable (fresh 0 true) (drainRun drainOne) := ⟨drainOne, rfl⟩
  have ran : (machine Unit).run (next (drainRun drainOne) .drain) runToEnd =
      some (drainRun (drainOne ++ .drain :: runToEnd)) := rfl
  have returns : (drainRun (drainOne ++ .drain :: runToEnd)).ReturnsNil 0 := ⟨by decide, rfl⟩
  have verdict := drain_verdict reached rfl ran (by decide)
  exact ⟨returns, (verdict.1 0 (Nat.le_refl _) returns).1 0 0 _ rfl rfl⟩

end System

end Skygo.Actor
