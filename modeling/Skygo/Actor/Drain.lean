import Mathlib.Algebra.Order.BigOperators.Group.List
import Mathlib.Algebra.Order.Group.Nat
import Skygo.Actor.SystemSound

/-! The drain tracker counts the tracked envelopes and the active permits. -/

set_option autoImplicit false

namespace Skygo.Actor

open Semantics

variable {Msg : Type} {s : System Msg}

structure DrainTracker.Balanced (d : DrainTracker) (n : Nat) : Prop where
  counted : d.pending = n
  coherent : d.gauge.Coherent
  baseline : d.baseline ≤ d.failures

namespace DrainTracker.Balanced

variable {d : DrainTracker} {n : Nat}

theorem begin (balanced : d.Balanced n) : d.begin.Balanced (n + 1) where
  counted := by
    have counted := balanced.counted
    simp only [pending] at counted
    simp [pending, DrainTracker.begin, counted]
  coherent := balanced.coherent.raise
  baseline := balanced.baseline

theorem lower (balanced : d.Balanced (n + 1)) {after : DrainTracker} (gauge : after.gauge = d.gauge.lower)
    (baseline : after.baseline = d.baseline) (failures : d.failures ≤ after.failures) :
    after.Balanced n where
  counted := by
    have counted := balanced.counted
    simp only [pending] at counted
    simp [pending, gauge, counted]
  coherent := by
    have counted := balanced.counted
    simp only [pending] at counted
    rw [gauge]
    exact balanced.coherent.lower (by omega)
  baseline := by
    have before := balanced.baseline
    omega

theorem finishTracked (balanced : d.Balanced (n + 1)) (failed : Bool) : (d.finishTracked failed).Balanced n :=
  balanced.lower rfl rfl (Nat.le_add_right _ _)

theorem finish (balanced : d.Balanced (n + 1)) (failed : Bool) : (d.finish failed).Balanced n :=
  balanced.lower rfl rfl (Nat.le_refl _)

theorem leaveMaintenance (balanced : d.Balanced (n + 1)) : d.leaveMaintenance.Balanced n :=
  balanced.lower rfl rfl (Nat.le_refl _)

theorem close (balanced : d.Balanced n) : d.close.Balanced n := by
  unfold DrainTracker.close
  split
  · exact balanced
  · exact ⟨balanced.counted, balanced.coherent, Nat.le_refl _⟩

theorem resumeAdmission (balanced : d.Balanced n) : d.resumeAdmission.Balanced n :=
  ⟨balanced.counted, balanced.coherent, Nat.le_refl _⟩

end DrainTracker.Balanced

namespace System

def tracked (s : System Msg) : Nat := (s.mailboxes.map fun m => m.requests.countP (·.drainTracked)).sum

def activePermits (s : System Msg) : Nat := s.permits.countP (·.active)

structure Accounted (s : System Msg) : Prop where
  balanced : s.drain.Balanced (s.tracked + s.activePermits)
  expired : ∀ (p : Nat) (permit : Permit), s.permits[p]? = some permit → permit.active = !permit.finished

theorem tracked_modify {k : Nat} {m : ServiceRuntime Msg} {act : Action Msg} (found : s.mailboxes[k]? = some m)
    (sound : m.Sound) (enabled : Runtime.Enabled m act) :
    ({ s with mailboxes := s.mailboxes.modify k (Runtime.next · act) } : System Msg).tracked +
      (Runtime.effect m act).lowered = s.tracked + (Runtime.effect m act).raised := by
  have moved := sum_modify (g := fun m : ServiceRuntime Msg => m.requests.countP (·.drainTracked))
    (f := (Runtime.next · act)) found
  have counted := Runtime.countP_tracked_next sound enabled
  simp only [tracked]
  omega

theorem tracked_pos {k id : Nat} {m : ServiceRuntime Msg} {r : Request Msg}
    (found : s.mailboxes[k]? = some m) (there : m.requests[id]? = some r) (counted : r.drainTracked = true) :
    0 < s.tracked := by
  have inside : 0 < m.requests.countP (·.drainTracked) :=
    List.countP_pos_iff.mpr ⟨r, List.mem_of_getElem? there, counted⟩
  have among : m.requests.countP (·.drainTracked) ∈
      s.mailboxes.map fun m => m.requests.countP (·.drainTracked) :=
    List.mem_map.mpr ⟨m, List.mem_of_getElem? found, rfl⟩
  exact Nat.lt_of_lt_of_le inside (List.le_sum_of_mem among)

theorem drain_apply (s : System Msg) (e : Effect) (r : Request Msg) :
    (s.apply e r).drain = match e with
      | .raise => s.drain.trackAdmission
      | .lower failed => s.drain.finishTracked failed
      | _ => s.drain := by
  cases e <;> rfl

@[simp] theorem permits_apply (s : System Msg) (e : Effect) (r : Request Msg) :
    (s.apply e r).permits = s.permits := by
  cases e <;> rfl

variable {s' : System Msg}

section

variable (accounted : s.Accounted)
include accounted

theorem Accounted.track (permits : s'.permits = s.permits) (balanced : s.drain.Balanced (s.tracked + s.activePermits) →
      s'.drain.Balanced (s'.tracked + s.activePermits)) : s'.Accounted where
  balanced := by
    rw [activePermits, permits]
    exact balanced accounted.balanced
  expired := by
    rw [permits]
    exact accounted.expired

theorem Accounted.permit (mailboxes : s'.mailboxes = s.mailboxes)
    (issued : ∃ permit, s'.permits = s.permits ++ [permit] ∧ (permit.active = true ∧ permit.finished = false))
    (balanced : s.drain.Balanced (s.tracked + s.activePermits) →
      s'.drain.Balanced (s.tracked + s.activePermits + 1)) : s'.Accounted := by
  obtain ⟨fresh, permits, active, unfinished⟩ := issued
  refine ⟨?_, ?_⟩
  · have counted : s'.activePermits = s.activePermits + 1 := by simp [activePermits, permits, active]
    rw [counted, tracked, mailboxes]
    exact balanced accounted.balanced
  · rw [permits]
    exact forall_append accounted.expired (by simp [active, unfinished])

theorem Accounted.release {p : Nat} {permit : Permit} {f : Permit → Permit} (mailboxes : s'.mailboxes = s.mailboxes)
    (found : s.permits[p]? = some permit) (held : permit.finished = false)
    (permits : s'.permits = s.permits.modify p f) (ended : (f permit).active = false ∧ (f permit).finished = true)
    (balanced : ∀ {n}, s.drain.Balanced (n + 1) → s'.drain.Balanced n) : s'.Accounted := by
  have active : permit.active = true := by simpa [held] using accounted.expired p permit found
  refine ⟨?_, ?_⟩
  · have counted := countP_modify (p := (·.active)) (f := f) found
    simp only [active, ended.1, Bool.toNat_true, Bool.toNat_false] at counted
    have before := accounted.balanced
    simp only [activePermits] at before
    rw [activePermits, permits, tracked, mailboxes]
    rw [show s.tracked + s.permits.countP (·.active) =
      s.tracked + (s.permits.modify p f).countP (·.active) + 1 by omega] at before
    exact balanced before
  · rw [permits]
    apply forall_modify_at (P := fun _ (permit : Permit) => permit.active = !permit.finished) found
    · simp [ended.1, ended.2]
    · intro j other _ there
      exact accounted.expired j other there

theorem accounted_mail (healthy : s.Healthy) {k : Nat} {act : Action Msg}
    (enabled : Enabled s (.mail k act)) : (next s (.mail k act)).Accounted := by
  obtain ⟨m, found, sound, allowed, _, cases_⟩ := mail_cases healthy enabled
  have counted := tracked_modify found sound allowed
  rcases cases_ with ⟨silent, _, same⟩ | ⟨_, r, _, _, _, _, _, _, changed⟩
  · rw [same]
    refine accounted.track rfl fun balanced => ?_
    simp only [silent, Effect.lowered, Effect.raised, Nat.add_zero] at counted
    rwa [counted]
  · rw [changed]
    refine accounted.track (by simp) fun balanced => ?_
    have same : ∀ e, (apply { s with mailboxes := s.mailboxes.modify k (Runtime.next · act) } e r).tracked =
        ({ s with mailboxes := s.mailboxes.modify k (Runtime.next · act) } : System Msg).tracked := by
      intro e
      simp [tracked]
    rw [same, drain_apply]
    generalize ({ s with mailboxes := s.mailboxes.modify k (Runtime.next · act) } : System Msg).tracked =
      after at counted ⊢
    cases e : Runtime.effect m act with
    | raise =>
      simp only [e, Effect.lowered, Effect.raised] at counted
      rw [show after + s.activePermits = s.tracked + s.activePermits + 1 by omega]
      exact balanced.begin
    | lower failed =>
      simp only [e, Effect.lowered, Effect.raised] at counted
      rw [show s.tracked + s.activePermits = after + s.activePermits + 1 by omega] at balanced
      exact balanced.finishTracked failed
    | silent | take | lose | deliver | miss =>
      simp only [e, Effect.lowered, Effect.raised, Nat.add_zero] at counted
      rw [counted]
      exact balanced

theorem accounted_next (healthy : s.Healthy) (a : SystemAction Msg) (enabled : Enabled s a) : (next s a).Accounted := by
  cases a with
  | mail k act => exact accounted_mail accounted healthy enabled
  | start name opts =>
    refine accounted.track rfl fun balanced => ?_
    simpa [tracked, next, ServiceRuntime.start] using balanced
  | admitCall c ctx protocol =>
    simp only [next]
    split
    · split
      · next m found =>
        refine accounted.track rfl fun balanced => ?_
        have free : Runtime.Enabled m (.submit ctx protocol (c + 1) true false) := trivial
        have counted := tracked_modify found (healthy _ m found).1 free
        simp only [Runtime.effect, Effect.lowered, Effect.raised, Nat.add_zero] at counted
        rwa [← counted] at balanced
      · exact accounted
    · exact accounted
  | packFailed | rejected | cancel =>
    simp only [next, cancelSession]
    split <;> exact accounted.track rfl fun balanced => balanced
  | reserveWork =>
    simp only [next]
    split
    · exact accounted
    · exact accounted.permit rfl ⟨_, rfl, rfl, rfl⟩ fun balanced => balanced.begin
  | enterMaintenance => exact accounted.permit rfl ⟨_, rfl, rfl, rfl⟩ fun balanced => balanced.begin
  | finish p failed =>
    obtain ⟨permit, found, _⟩ := at_iff.mp enabled
    simp only [next]
    split
    · exact accounted
    · next unfinished =>
      have held : permit.finished = false := by simpa [At, found] using unfinished
      exact accounted.release rfl found held rfl ⟨rfl, rfl⟩ fun balanced => balanced.finish failed
  | leaveMaintenance p =>
    obtain ⟨permit, found, _, held⟩ := at_iff.mp enabled
    exact accounted.release rfl found held rfl ⟨rfl, rfl⟩ fun balanced => balanced.leaveMaintenance
  | drain => exact accounted.track rfl fun balanced => balanced.close
  | resumeAdmission => exact accounted.track rfl fun balanced => balanced.resumeAdmission
  | _ => exact accounted.track rfl fun balanced => balanced

end

theorem accounted_fresh (self : Nat) (drainable : Bool) : (fresh self drainable : System Msg).Accounted where
  balanced := ⟨rfl, Gauge.coherent_idle, Nat.le_refl _⟩
  expired p permit found := by simp [fresh] at found

theorem reachable_accounted {self : Nat} {drainable : Bool}
    (reached : (machine Msg).Reachable (fresh self drainable) s) : s.Accounted :=
  reached.invariant_with (accounted_fresh self drainable) fun _ a known accounted enabled =>
    accounted_next accounted (reachable_healthy known) a enabled

/-- Drain accounting: `pending` is exact, `zero` is closed exactly when it is zero, no
step counted down at zero or closed a closed channel, and `Failures` does not underflow. -/
theorem drain_accounting {self : Nat} (reached : (machine Msg).Reachable (fresh self true) s) :
    s.drain.pending = s.tracked + s.activePermits ∧
    (s.drain.gauge.IsClosed s.drain.gauge.channel ↔ s.drain.pending = 0) ∧
    s.drain.gauge.broken = false ∧
    s.drain.baseline ≤ s.drain.failures ∧
    s.drain.state.failures + s.drain.baseline = s.drain.failures + s.drain.durableFailures := by
  obtain ⟨counted, coherent, baseline⟩ := (reachable_accounted reached).balanced
  refine ⟨counted, coherent.signal, coherent.intact, baseline, ?_⟩
  simp only [DrainTracker.state]
  omega

def drainWhileBusy : List (SystemAction Unit) :=
  [.start "counter" {}, .mail 0 (.submit .background "inc" 0 false false), .mail 0 (.track 0 true),
    .reserveWork, .drain, .finish 0 true, .finish 0 false]

def drainRun (actions : List (SystemAction Unit)) : System Unit :=
  ((machine Unit).run (fresh 0 true) actions).getD (fresh 0 true)

theorem drain_accounting_busy :
    (drainRun drainWhileBusy).drain.pending =
      (drainRun drainWhileBusy).tracked + (drainRun drainWhileBusy).activePermits ∧
    (drainRun drainWhileBusy).drain.pending = 1 := by
  have reached : (machine Unit).Reachable (fresh 0 true) (drainRun drainWhileBusy) := ⟨drainWhileBusy, rfl⟩
  exact ⟨(drain_accounting reached).1, rfl⟩

end System

end Skygo.Actor
