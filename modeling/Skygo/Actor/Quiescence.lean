import Skygo.Actor.Drain

/-! A drained system stays drained, and draining starves no work in flight.

Both rest on one fact: while an activation is unfinished or a permit is active,
the tracker counts it. So when the count is zero, no context can carry a reason
to be let in.
-/

set_option autoImplicit false

attribute [-instance] instBooleanRingBool

namespace Skygo.Actor

open Semantics

variable {Msg : Type} {s : System Msg}

def Pc.isFinished : Pc → Bool
  | .completing | .responding | .missing | .leaving | .ended => true
  | _ => false

namespace Request

variable {r : Request Msg} {drainable : Bool} {place : Place}

theorem Fits.live (fits : r.Fits drainable place) (started : r.started = true) : r.Live drainable := by
  cases place with
  | discarding stage => cases stage <;> grind
  | _ => grind

theorem Live.flags (live : r.Live true) :
    r.maintenanceFinished = r.pc.isFinished ∧ r.drainTracked = !r.pc.isFinished := by
  cases here : r.pc <;> grind [Pc.isFinished]

end Request

namespace System

def CarriesUnfinished (s : System Msg) (ctx : Context) : Prop :=
  ∃ ref ∈ ctx.activation, ∃ r ∈ s.activation ref, r.started = true ∧ r.pc.isFinished = false

def CarriesPermit (s : System Msg) (ctx : Context) : Prop :=
  ∃ ref ∈ ctx.permit, ∃ p ∈ s.permit ref, p.finished = false

theorem permits_next (a : SystemAction Msg) :
    Grows (fun before after : Permit => before.finished = true → after.finished = true) s.permits
      (next s a).permits := by
  intro p permit found
  cases a with
  | mail k act =>
    simp only [next]
    split
    · split
      · exact ⟨permit, by rwa [permits_apply], id⟩
      · exact ⟨permit, found, id⟩
    · exact ⟨permit, found, id⟩
  | _ => grind

theorem carries_next {a : SystemAction Msg} (enabled : Enabled s a) {ctx : Context} (carries : s.Carries ctx) :
    (next s a).Carries ctx := by
  refine ⟨fun ref held own => ?_, fun ref held own => ?_⟩
  · rw [(settings_next a).1] at own
    obtain ⟨r, known, started⟩ := carries.1 ref held own
    simp only [activation, own, if_true, Option.mem_def] at known
    obtain ⟨r', after, _, _, later⟩ := request_next enabled known
    refine ⟨r', ?_, later.started started⟩
    simp only [activation, (settings_next a).1, own, if_true, Option.mem_def]
    exact after
  · rw [(settings_next a).1] at own
    have known := carries.2 ref held own
    simp only [permit, own, if_true] at known
    obtain ⟨p, found⟩ := Option.isSome_iff_exists.mp known
    obtain ⟨p', after, _⟩ := permits_next a ref.permit p found
    simp only [permit, (settings_next a).1, own, if_true, after, Option.isSome_some]

def Rooted (s : System Msg) : Prop :=
  ∀ (k id : Nat) (r : Request Msg), s.request k id = some r → s.Carries r.ctx

theorem rooted_next (rooted : s.Rooted) (a : SystemAction Msg) (enabled : Enabled s a) :
    (next s a).Rooted := by
  intro k id r' after
  cases found : s.request k id with
  | none => exact carries_next enabled (request_fresh enabled after found).1
  | some r =>
    obtain ⟨r'', there, _, _, later⟩ := request_next enabled found
    rw [after] at there
    cases there
    rw [later.ctx]
    exact carries_next enabled (rooted k id r found)

variable {self : Nat}

theorem reachable_rooted {drainable : Bool}
    (reached : (machine Msg).Reachable (fresh self drainable) s) : s.Rooted :=
  reached.invariant (by intro k id r found; simp [fresh, request] at found)
    fun _ a rooted enabled => rooted_next rooted a enabled

theorem admits_iff (healthy : s.Healthy) (accounted : s.Accounted) (drainable : s.drainable = true)
    (closed : s.drain.closed = true) {ctx : Context} (carries : s.Carries ctx) :
    s.Admits ctx ↔ s.CarriesUnfinished ctx ∨ s.CarriesPermit ctx := by
  have flags : ∀ {ref r}, s.activation ref = some r → r.started = true →
      r.maintenanceFinished = r.pc.isFinished := by
    intro ref r known started
    unfold activation at known
    split at known
    · obtain ⟨m, box, there⟩ := request_eq_some.mp known
      obtain ⟨sound, on⟩ := healthy _ m box
      have live := (sound.fits _ r there).live started
      rw [on, drainable] at live
      exact live.flags.1
    · cases known
  have unexpired : ∀ {ref p}, s.permit ref = some p → p.active = !p.finished := by
    intro ref p known
    unfold permit at known
    split at known
    · exact accounted.expired _ p known
    · cases known
  constructor
  · intro admits
    rcases admits closed with ⟨ref, held, r, known, open_⟩ | ⟨ref, held, p, known, active⟩
    · have own : ref.system = s.self := by
        by_contra other
        simp [activation, other] at known
      obtain ⟨r', there, started⟩ := carries.1 ref held own
      rw [known] at there
      cases there
      exact .inl ⟨ref, held, r, known, started, by rw [← flags known started]; exact open_⟩
    · exact .inr ⟨ref, held, p, known, by simpa [unexpired known] using active⟩
  · rintro (⟨ref, held, r, known, started, open_⟩ | ⟨ref, held, p, known, current⟩) _
    · exact .inl ⟨ref, held, r, known, by rw [flags known started]; exact open_⟩
    · exact .inr ⟨ref, held, p, known, by simp [unexpired known, current]⟩

theorem not_carries_of_zero (healthy : s.Healthy) (accounted : s.Accounted) (drainable : s.drainable = true)
    (zero : s.drain.pending = 0) (ctx : Context) : ¬(s.CarriesUnfinished ctx ∨ s.CarriesPermit ctx) := by
  have counted := accounted.balanced.counted
  rintro (⟨ref, _, r, known, started, open_⟩ | ⟨ref, _, p, known, current⟩)
  · have positive : 0 < s.tracked := by
      simp only [activation, Option.mem_def] at known
      split at known
      · obtain ⟨m, box, there⟩ := request_eq_some.mp known
        obtain ⟨sound, on⟩ := healthy _ m box
        have live := (sound.fits _ r there).live started
        rw [on, drainable] at live
        exact tracked_pos box there (by simp [live.flags.2, open_])
      · cases known
    omega
  · have positive : 0 < s.activePermits := by
      simp only [permit, Option.mem_def] at known
      split at known
      · have active := accounted.expired _ p known
        exact List.countP_pos_iff.mpr ⟨p, List.mem_of_getElem? known, by simp [active, current]⟩
      · cases known
    omega

variable {k id : Nat}

/-- Nothing is counted, so no step can uncount: no envelope is tracked and no permit is active. -/
theorem untracked_of_zero (accounted : s.Accounted) (zero : s.drain.pending = 0) {r : Request Msg}
    (found : s.request k id = some r) : r.drainTracked = false := by
  obtain ⟨m, box, there⟩ := request_eq_some.mp found
  have counted := accounted.balanced.counted
  by_contra tracked
  have positive := tracked_pos box there (by simpa using tracked)
  omega

theorem finished_of_zero (accounted : s.Accounted) (zero : s.drain.pending = 0) {p : Nat} {permit : Permit}
    (found : s.permits[p]? = some permit) : permit.finished = true := by
  have counted := accounted.balanced.counted
  have expired := accounted.expired p permit found
  by_contra current
  have positive : 0 < s.activePermits :=
    List.countP_pos_iff.mpr ⟨permit, List.mem_of_getElem? found, by simpa [expired] using current⟩
  omega

theorem tracked_of_emit (healthy : s.Healthy) (drainable : s.drainable = true) {r : Request Msg}
    (found : s.request k id = some r) (sending : r.admission = .emit) : r.drainTracked = true := by
  obtain ⟨m, box, there⟩ := request_eq_some.mp found
  obtain ⟨sound, on⟩ := healthy k m box
  obtain ⟨_, _, _, _, _, stage⟩ := (sound.fits id r there).unsent (by simp [sending])
  simp only [sending, on, drainable] at stage
  exact stage.1

structure Drained (s : System Msg) : Prop where
  closed : s.drain.closed = true
  zero : s.drain.pending = 0

theorem Drained.received (healthy : s.Healthy) (accounted : s.Accounted) (drainable : s.drainable = true)
    (drained : s.Drained) {a : SystemAction Msg} (enabled : Enabled s a)
    {r' : Request Msg} (after : (System.next s a).request k id = some r') (received : r'.Received) :
    ∃ r, s.request k id = some r ∧ r.Received := by
  cases found : s.request k id with
  | none =>
    have fresh := (request_fresh enabled after found).2.1
    rw [Request.Received, fresh] at received
    cases received
  | some r =>
    refine ⟨r, rfl, ?_⟩
    rcases request_cases healthy enabled found with same | ⟨_, _, r'', _, _, _, _, _, _, there, applies, _, _, _⟩
    · rw [after] at same
      cases same
      exact received
    · rw [after] at there
      cases there
      rcases applies.admission with same | ⟨_, sent, _⟩
      · exact same.symm.trans received
      · have counted := tracked_of_emit healthy drainable found (sent received)
        simp [untracked_of_zero accounted drained.zero found] at counted

section Drained

variable (healthy : s.Healthy) (accounted : s.Accounted) (rooted : s.Rooted) (drainable : s.drainable = true)
  (drained : s.Drained)
include healthy accounted rooted drainable drained

theorem Drained.mail {k : Nat} {act : Action Msg} (enabled : Enabled s (.mail k act)) :
    (next s (.mail k act)).drain = s.drain := by
  obtain ⟨m, box, sound, allowed, agrees, taken⟩ := mail_cases healthy enabled
  rcases taken with ⟨_, _, same⟩ | ⟨id, r, r', acts, there, _, applies, _, changed⟩
  · rw [same]
  · have found : s.request k id = some r := request_eq_some.mpr ⟨m, box, there⟩
    rw [changed, drain_apply]
    have ready := applies.ready
    cases e : Runtime.effect m act with
    | raise =>
      -- only `trackAdmission` raises the count, and no context gives it a reason to
      obtain ⟨id', rfl, on⟩ := Runtime.track_of_raise e
      cases acts
      have target_ : target m (.track id true) = some r := by simp [target, Runtime.subject, there]
      have admits := (agrees.2 r target_ on).mp rfl
      have reason := (admits_iff healthy accounted drainable drained.closed (rooted k id r found)).mp admits
      exact absurd reason (not_carries_of_zero healthy accounted drainable drained.zero r.ctx)
    | lower failed =>
      rw [e] at ready
      have idle := untracked_of_zero accounted drained.zero found
      simp [Effect.Ready, idle] at ready
    | silent | take | lose | deliver | miss => rfl

theorem Drained.next {a : SystemAction Msg} (enabled : Enabled s a) (maintenance : a ≠ .enterMaintenance)
    (resume : a ≠ .resumeAdmission) : (next s a).drain = s.drain ∧ (next s a).permits = s.permits := by
  cases a with
  | mail k act =>
    refine ⟨drained.mail healthy accounted rooted drainable enabled, ?_⟩
    obtain ⟨_, _, _, _, _, ⟨_, _, same⟩ | ⟨_, _, _, _, _, _, _, _, changed⟩⟩ := mail_cases healthy enabled
    · rw [same]
    · rw [changed, permits_apply]
  | finish p failed =>
    obtain ⟨permit, found, _⟩ := at_iff.mp enabled
    have finished := finished_of_zero accounted drained.zero found
    grind
  | leaveMaintenance p =>
    obtain ⟨permit, found, _, current⟩ := at_iff.mp enabled
    simp [finished_of_zero accounted drained.zero found] at current
  | _ =>
    have closed := drained.closed
    have zero := drained.zero
    grind

end Drained

theorem reachable_settings {drainable : Bool}
    (reached : (machine Msg).Reachable (fresh self drainable) s) :
    s.self = self ∧ s.drainable = drainable :=
  reached.invariant (I := fun s => s.self = self ∧ s.drainable = drainable) ⟨rfl, rfl⟩ fun _ a held _ =>
    ⟨(settings_next a).1.trans held.1, (settings_next a).2.trans held.2⟩

theorem Drained.run (reached : (machine Msg).Reachable (fresh self true) s) (drained : s.Drained)
    {actions : List (SystemAction Msg)} {s' : System Msg} (ran : (machine Msg).run s actions = some s')
    (maintenance : .enterMaintenance ∉ actions) (resume : .resumeAdmission ∉ actions) :
    s'.Drained ∧ s'.permits = s.permits ∧
      ∀ (k id : Nat) (r' : Request Msg), s'.request k id = some r' → r'.Received →
        ∃ r, s.request k id = some r ∧ r.Received := by
  induction actions generalizing s with
  | nil =>
    cases ran
    exact ⟨drained, rfl, fun _ _ r found received => ⟨r, found, received⟩⟩
  | cons a rest ih =>
    obtain ⟨enabled, ran⟩ := Machine.run_cons.mp ran
    simp only [List.mem_cons, not_or] at maintenance resume
    have healthy := reachable_healthy reached
    have accounted := reachable_accounted reached
    have drainable := (reachable_settings reached).2
    obtain ⟨drain, permits⟩ := drained.next healthy accounted (reachable_rooted reached) drainable enabled
      (Ne.symm maintenance.1) (Ne.symm resume.1)
    have kept : (System.next s a).Drained := ⟨by rw [drain]; exact drained.closed, by rw [drain]; exact drained.zero⟩
    obtain ⟨final, issued, received⟩ := ih (reached.next enabled) kept ran maintenance.2 resume.2
    refine ⟨final, issued.trans permits, fun k id r' found done => ?_⟩
    obtain ⟨r, before, known⟩ := received k id r' found done
    exact drained.received healthy accounted drainable enabled before known

/-- With admission closed, `trackAdmission` lets an envelope pass exactly for the sake of an
unfinished activation or an active permit. -/
theorem track_enabled_iff (reached : (machine Msg).Reachable (fresh self true) s)
    (closed : s.drain.closed = true) {r : Request Msg} (found : s.request k id = some r)
    (entering : r.admission = .track) (admitted : Bool) :
    Enabled s (.mail k (.track id admitted)) ↔
      (admitted = true ↔ s.CarriesUnfinished r.ctx ∨ s.CarriesPermit r.ctx) := by
  obtain ⟨m, box, there⟩ := request_eq_some.mp found
  have healthy := reachable_healthy reached
  have drainable := (reachable_settings reached).2
  have on : m.drainable = true := (healthy k m box).2.trans drainable
  have target_ : target m (.track id admitted) = some r := by simp [target, Runtime.subject, there]
  have answers : s.Answers (Runtime.effect m (.track id admitted)) r := by
    cases admitted <;> simp [Runtime.effect, on, Answers]
  rw [← admits_iff healthy (reachable_accounted reached) drainable closed (reachable_rooted reached k id r found)]
  simp [Enabled, At, box, Runtime.Enabled, there, entering, on, Agrees, target_, answers]

/-- Quiescence: once admission is closed and nothing is pending, no reservation is granted
and no envelope admitted until `MaintenanceWork` or `ResumeAdmission`; while it is closed,
an envelope is refused with `ErrMaintenance` exactly if its context carries neither an
unfinished activation of the system nor an active permit. -/
theorem drain_quiescence (reached : (machine Msg).Reachable (fresh self true) s)
    (closed : s.drain.closed = true) :
    (s.drain.pending = 0 → ∀ (actions : List (SystemAction Msg)) (s' : System Msg),
      (machine Msg).run s actions = some s' → .enterMaintenance ∉ actions → .resumeAdmission ∉ actions →
      s'.drain.closed = true ∧ s'.drain.pending = 0 ∧ s'.permits = s.permits ∧
      ∀ (k id : Nat) (r' : Request Msg), s'.request k id = some r' → r'.Received →
        ∃ r, s.request k id = some r ∧ r.Received) ∧
    ∀ (k id : Nat) (r : Request Msg), s.request k id = some r → r.admission = .track →
      (∀ admitted, Enabled s (.mail k (.track id admitted)) ↔
        (admitted = true ↔ s.CarriesUnfinished r.ctx ∨ s.CarriesPermit r.ctx)) ∧
      (next s (.mail k (.track id true))).request k id =
        some { r with admission := .acquire, drainTracked := true } ∧
      (next s (.mail k (.track id false))).request k id =
        some { r with admission := .returned (some (.bare .maintenance)) } := by
  refine ⟨fun zero actions s' ran maintenance resume => ?_, fun k id r found entering => ⟨?_, ?_, ?_⟩⟩
  · obtain ⟨final, permits, received⟩ := Drained.run reached ⟨closed, zero⟩ ran maintenance resume
    exact ⟨final.closed, final.zero, permits, received⟩
  · exact track_enabled_iff reached closed found entering
  · obtain ⟨m, box, there⟩ := request_eq_some.mp found
    have on := ((reachable_healthy reached k m box).2).trans (reachable_settings reached).2
    simp [next, box, target, Runtime.subject, there, request, Runtime.next, on]
  · obtain ⟨m, box, there⟩ := request_eq_some.mp found
    simp [next, box, target, Runtime.subject, there, request, Runtime.next]

def drainIdle : List (SystemAction Unit) :=
  [.start "counter" {}, .drain, .mail 0 (.submit .background "inc" 0 false false)]

theorem drain_quiescence_idle :
    (drainRun drainIdle).drain.pending = 0 ∧
    (∀ s', (machine Unit).run (drainRun drainIdle) [.reserveWork, .mail 0 (.track 0 false)] = some s' → s'.permits = []) ∧
    ¬Enabled (drainRun drainIdle) (.mail 0 (.track 0 true)) := by
  have reached : (machine Unit).Reachable (fresh 0 true) (drainRun drainIdle) := ⟨drainIdle, rfl⟩
  have quiet := drain_quiescence reached rfl
  refine ⟨rfl, fun s' ran => ?_, fun enabled => ?_⟩
  · exact (quiet.1 rfl _ s' ran (by decide) (by decide)).2.2.1
  · have reason := (((quiet.2 0 0 _ rfl rfl).1 true).mp enabled).mp rfl
    simp [CarriesUnfinished, CarriesPermit, Context.background] at reason

end System

end Skygo.Actor
