import Skygo.Actor.Growth

/-! Handlers from the call of the handler to its return, requests whose handler can no longer
run, and callers that wait until then. -/

set_option autoImplicit false

attribute [-instance] instBooleanRingBool

namespace Skygo.Actor

open Semantics

variable {Msg : Type} {m : ServiceRuntime Msg} {s : System Msg} {id k : Nat} {r r' : Request Msg}

def Pc.isHandling : Pc → Bool
  | .code _ | .yielding _ | .answered _ _ | .resuming _ | .parked _ => true
  | _ => false

namespace Request

def Settled (r : Request Msg) : Prop := r.completion ≠ .owed ∨ ∃ fault, r.admission = .returned (some fault)

attribute [grind] Pc.isHandling Settled

theorem Settled.applies {e : Effect} (settled : r.Settled) (applies : e.Applies r r') : r'.Settled := by
  obtain ⟨_, _, completed, _, _, admission⟩ := applies
  cases e <;> grind

end Request

namespace ServiceRuntime

theorem Sound.live (sound : m.Sound) (found : m.requests[id]? = some r) (inside : r.pc.isHandling = true) :
    r.Live m.drainable := by
  have active := (sound.fits id r found).active
  grind

theorem Sound.handling (sound : m.Sound) (found : m.requests[id]? = some r) (inside : r.pc.isHandling = true) :
    ¬r.Settled ∧ m.done = false := by
  have live := sound.live found inside
  have quiet := fun closed => Runtime.Sound.quiet sound closed found
  clear sound
  refine ⟨?_, ?_⟩
  · cases here : r.pc <;> grind
  · grind

end ServiceRuntime

namespace Runtime

open ServiceRuntime

theorem handling_next (sound : m.Sound) {a : Action Msg} (enabled : Enabled m a)
    (found : m.requests[id]? = some r) (inside : r.pc.isHandling = true) :
    (∃ r', (next m a).requests[id]? = some r' ∧ r'.pc.isHandling = true) ∨
      ∃ depth result, a = .handlerReturned id depth result := by
  have live := sound.live found inside
  by_cases acts : subject m a = some id
  case neg => exact .inl ⟨r, next_other acts found, inside⟩
  obtain ⟨r', after⟩ := next_kept a found
  cases a with
  | handlerReturned act depth result =>
    cases acts
    exact .inr ⟨depth, result, rfl⟩
  | schedule =>
    have chosen : m.picked = some id := acts
    left
    simp only [next, chosen]
    split
    · exact ⟨r, found, inside⟩
    · rw [grantTurn_eq (by exact found)]
      exact ⟨_, lookup_modify_self found, by simpa [granted, live.started] using inside⟩
  | finishPending won =>
    cases loop : m.loop with
    | top | select | exited => grind
    | discard stage act rest inSchedule =>
      obtain ⟨_, _, _, _, _, there, fits⟩ := Sound.discarding sound loop
      cases stage <;> grind
  | track id admitted | complete id admitted => cases admitted <;> clear sound <;> grind
  | _ =>
    clear sound
    exact .inl ⟨r', after, by grind⟩

theorem received_next (sound : m.Sound) {a : Action Msg} (enabled : Enabled m a) (closed : m.done = true)
    (found : m.requests[id]? = some r) (after : (next m a).requests[id]? = some r') (received : r'.Received) :
    r.Received := by
  have exited := sound.closed.mp closed
  by_cases acts : subject m a = some id
  case neg =>
    rw [next_other acts found] at after
    cases after
    exact received
  obtain ⟨_, there, applies⟩ := next_applies sound enabled acts found
  rw [after] at there
  cases there
  rcases applies.admission with same | ⟨_, sent, _⟩
  · exact same.symm.trans received
  exfalso
  have emit : r.admission = .emit := sent received
  have idle : r.pc = .idle := ((sound.fits id r found).unsent (by simp [emit])).2.1.pc
  clear sound applies
  cases a with
  | finishPending won => simp [Enabled, exited] at enabled
  | _ => grind

end Runtime

namespace System

variable {a : SystemAction Msg}

theorem settled_next (healthy : s.Healthy) (enabled : Enabled s a)
    (found : s.request k id = some r) (settled : r.Settled) :
    ∃ r', (next s a).request k id = some r' ∧ r'.Settled := by
  rcases request_cases healthy enabled found with same | ⟨_, _, r', _, _, _, _, _, _, after, applies, _⟩
  · exact ⟨r, same, settled⟩
  · exact ⟨r', after, settled.applies applies⟩

theorem mailbox_step (enabled : Enabled s a) (found : s.request k id = some r) :
    (next s a).request k id = some r ∨
    ∃ m act, s.mailboxes[k]? = some m ∧ Runtime.Enabled m act ∧ m.requests[id]? = some r ∧
      (next s a).request k id = (Runtime.next m act).requests[id]? ∧
      (a = .mail k act ∨ Runtime.subject m act = none) := by
  obtain ⟨m, box, there⟩ := request_eq_some.mp found
  rcases mailbox_cases enabled box with same | ⟨act, allowed, changed, taken⟩
  · exact .inl (request_eq_some.mpr ⟨m, same, there⟩)
  · exact .inr ⟨m, act, box, allowed, there, by simp [request, changed], taken⟩

theorem handling_next (healthy : s.Healthy) (enabled : Enabled s a)
    (found : s.request k id = some r) (inside : r.pc.isHandling = true) :
    (∃ r', (next s a).request k id = some r' ∧ r'.pc.isHandling = true) ∨
      ∃ depth result, a = .mail k (.handlerReturned id depth result) := by
  rcases mailbox_step enabled found with same | ⟨m, act, box, allowed, there, after, taken⟩
  · exact .inl ⟨r, same, inside⟩
  · rcases Runtime.handling_next (healthy k m box).1 allowed there inside with ⟨r', there', inside'⟩ |
      ⟨depth, result, rfl⟩
    · exact .inl ⟨r', after.trans there', inside'⟩
    · rcases taken with rfl | nobody
      · exact .inr ⟨depth, result, rfl⟩
      · cases nobody

theorem received_next (healthy : s.Healthy) (enabled : Enabled s a)
    (closed : At s.mailboxes k (·.done = true)) (after : (next s a).request k id = some r')
    (received : r'.Received) : ∃ r, s.request k id = some r ∧ r.Received := by
  cases found : s.request k id with
  | none =>
    obtain ⟨_, fresh, _⟩ := request_fresh enabled after found
    rw [Request.Received, fresh] at received
    cases received
  | some r =>
    refine ⟨r, rfl, ?_⟩
    rcases mailbox_step enabled found with same | ⟨m, act, box, allowed, there, same, _⟩
    · rw [after] at same
      cases same
      exact received
    · rw [after] at same
      exact Runtime.received_next (healthy k m box).1 allowed (closed.here box) there same.symm received

def Patient (s : System Msg) : Prop :=
  ∀ (c : Nat) (call : Call Msg), s.calls[c]? = some call → call.pc ≠ .counting ∧
    ∀ cause, call.pc ≠ .returned (.expired cause)

theorem patient_next (patient : s.Patient) (enabled : Enabled s a)
    (waits : ∀ c cause, a = .cancel c cause → c + 1 ∉ s.pending) : (next s a).Patient := by
  intro c call found
  cases a with
  | mail k act =>
    simp only [next] at found
    split at found
    · split at found
      · rw [calls_apply] at found
        rcases lookup_modify found with ⟨rfl, old, was, rfl⟩ | ⟨_, was⟩
        · rw [Call.after_pc]
          exact patient _ old was
        · exact patient c call was
      · exact patient c call found
    · exact patient c call found
  | _ => grind [Patient]

theorem Patient.settled (patient : s.Patient) (coordinated : s.Coordinated) {c : Nat} {call : Call Msg}
    {outcome : Outcome} (found : s.calls[c]? = some call) (named : call.request = some id)
    (returned : call.pc = .returned outcome) : ∃ r, s.request call.service id = some r ∧ r.Settled := by
  obtain ⟨r, there, _⟩ := coordinated.submitted c call id found named
  have callee : s.callee call = some r := by simp [callee, named, there]
  have fits := coordinated.fits c call found
  rw [callee] at fits
  have waited := (patient c call found).2
  exact ⟨r, there, by cases outcome <;> grind⟩

end System

end Skygo.Actor
