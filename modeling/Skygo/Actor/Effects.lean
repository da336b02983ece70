import Skygo.Actor.Disposal

/-! What an action of a service does outside its runtime.

A runtime shares two things with the rest of its system: the drain tracker, which
counts admitted envelopes, and the pending sessions, which `completeSession`
removes. Each action touches the record of one request and has one effect on them.
-/

set_option autoImplicit false

attribute [-instance] instBooleanRingBool

namespace Skygo.Actor

open Semantics

inductive Effect where
  | silent
  | raise
  | lower (failed : Bool)
  | take | lose | deliver | miss
  deriving DecidableEq

def Effect.tracked : Effect → Bool → Bool
  | .raise, _ => true
  | .lower _, _ => false
  | _, before => before

def Effect.failed : Effect → Bool → Bool
  | .lower failed, _ => failed
  | _, before => before

def Effect.completed : Effect → Completion → Completion
  | .take, _ => .taken
  | .lose, _ => .lost
  | .deliver, _ => .sent
  | .miss, _ => .counted
  | _, before => before

def Effect.raised : Effect → Nat
  | .raise => 1
  | _ => 0

def Effect.lowered : Effect → Nat
  | .lower _ => 1
  | _ => 0

def Effect.missed : Effect → Nat
  | .miss => 1
  | _ => 0

variable {Msg : Type} {m : ServiceRuntime Msg} {id : Nat} {r : Request Msg}

def Admission.Steps (before after : Admission) : Prop :=
  after = before ∨ ((∀ fault, before ≠ .returned fault) ∧ (after = .returned none → before = .emit) ∧
    after ≠ .track)

def Effect.Ready (e : Effect) (r : Request Msg) : Prop :=
  match e with
  | .silent => True
  | .raise => r.drainTracked = false ∧ r.admission = .track
  | .lower _ => r.drainTracked = true
  | .take | .lose => r.completion = .owed ∧ r.expectsResponse = true ∧ r.Received
  | .deliver => r.completion = .taken ∧ r.expectsResponse = true ∧ r.result.isSome = true
  | .miss => r.completion = .lost ∧ r.expectsResponse = true

structure Effect.Applies (e : Effect) (before after : Request Msg) : Prop where
  ready : e.Ready before
  tracked : after.drainTracked = e.tracked before.drainTracked
  completed : after.completion = e.completed before.completion
  result : before.completion ≠ .owed → after.result = before.result
  failed : after.failed = e.failed before.failed
  admission : before.admission.Steps after.admission

namespace ServiceRuntime

def isTracked (m : ServiceRuntime Msg) (id : Nat) : Bool :=
  m.drainable && decide (At m.requests id (·.drainTracked = true))

end ServiceRuntime

namespace Runtime

open ServiceRuntime

def subject (m : ServiceRuntime Msg) : Action Msg → Option Nat
  | .submit .. | .cancel | .exit | .observeStop => none
  | .schedule => m.picked
  | .finishPending _ => m.loop.discarding.head?
  | .track id _ | .acquire id | .refuse id _ | .enqueue id | .emitFailed id | .release id
  | .unwind id _ | .receiveGrant id | .unpackFailed id _ | .invoke id | .yield id _
  | .yieldEvent id _ | .yieldFailed id _ | .hear id _ _ | .waitReturned id _ | .resumeEvent id _
  | .resumeFailed id _ | .regrant id _ | .grantLost id _ | .recovered id _ _
  | .handlerReturned id _ _ | .finishTracked id | .complete id _ | .respond id | .missed id
  | .report id | .doneEvent id | .doneFailed id => some id

def effect (m : ServiceRuntime Msg) : Action Msg → Effect
  | .track _ true => if m.drainable then .raise else .silent
  | .unwind id _ => if m.isTracked id then .lower false else .silent
  | .finishTracked id => if m.isTracked id then .lower (m.hasFailed id) else .silent
  | .complete _ won => if won then .take else .lose
  | .respond _ => .deliver
  | .missed _ => .miss
  | .finishPending won =>
      match m.loop with
      | .discard .track act _ _ => if m.isTracked act then .lower true else .silent
      | .discard .complete _ _ _ => if won then .take else .lose
      | .discard .respond _ _ _ => .deliver
      | .discard .missing _ _ _ => .miss
      | _ => .silent
  | _ => .silent


attribute [grind] subject effect isTracked Effect.tracked Effect.failed Effect.completed Effect.raised Effect.lowered
  Effect.missed Admission.Steps Effect.Ready

variable {a : Action Msg}

theorem next_other {j : Nat} (other : subject m a ≠ some j)
    (found : m.requests[j]? = some r) : (next m a).requests[j]? = some r := by
  cases a with
  | track id admitted | complete id admitted => cases admitted <;> grind
  | schedule =>
    dsimp only [next, subject] at other ⊢
    split
    · exact found
    · split <;> grind
  | _ =>
    first
    | exact found
    | exact (List.getElem?_modify_ne _ _ fun same => other (congrArg some same)).trans found
    | grind

theorem discardStep_applies {won : Bool} {r' : Request Msg} (sound : m.Sound)
    (acts : m.loop.discarding.head? = some id) (found : m.requests[id]? = some r)
    (after : (m.discardStep won).requests[id]? = some r') : (effect m (.finishPending won)).Applies r r' := by
  cases loop : m.loop with
  | top | select | exited => simp [loop, LoopPc.discarding] at acts
  | discard stage act rest inSchedule =>
    obtain ⟨_, _, _, _, _, there, fits⟩ := Sound.discarding sound loop
    clear sound
    cases stage <;> dsimp only [discardStep, effect] at after ⊢ <;> constructor <;> grind

theorem next_applies (sound : m.Sound) (enabled : Enabled m a)
    (acts : subject m a = some id) (found : m.requests[id]? = some r) :
    ∃ r', (next m a).requests[id]? = some r' ∧ (effect m a).Applies r r' := by
  obtain ⟨r', after⟩ := next_kept a found
  refine ⟨r', after, ?_⟩
  have unsent := fun sending => ((sound.fits id r found).unsent sending).2
  have live : r.pc ≠ .idle → r.pc ≠ .ended → r.Trail m.drainable ∧ r.Received := by
    intro begun open_
    rcases (sound.fits id r found).active begun open_ with ⟨_, running⟩ | ⟨_, suspended⟩ | ⟨_, resumed⟩
    · exact ⟨running.1.trail, running.1.admitted⟩
    · exact ⟨suspended.1.trail, suspended.1.admitted⟩
    · exact ⟨resumed.1.trail, resumed.1.admitted⟩
  cases a with
  | submit | cancel | exit | observeStop => cases acts
  | finishPending won => exact discardStep_applies sound acts found after
  | schedule =>
    clear sound unsent live
    dsimp only [next, subject, effect] at acts after ⊢
    constructor <;> grind
  | track id admitted => clear sound live; cases admitted <;> constructor <;> grind
  | unwind id admitted => clear sound live; constructor <;> grind
  | complete id won => clear sound unsent; cases won <;> constructor <;> grind
  | acquire | refuse | emitFailed | enqueue | release => clear sound unsent live; constructor <;> grind
  | receiveGrant act | invoke act | yield act | yieldFailed act | hear act | waitReturned act
  | resumeFailed act | regrant act | grantLost act | recovered act | report act | doneFailed act =>
    cases acts
    cases (lookup_modify_self found).symm.trans after
    exact ⟨trivial, rfl, rfl, fun _ => rfl, rfl, .inl rfl⟩
  | yieldEvent | resumeEvent | doneEvent => clear sound unsent live enabled; constructor <;> grind
  | finishTracked | respond | missed | unpackFailed | handlerReturned => clear sound unsent; constructor <;> grind

theorem subject_found (sound : m.Sound) (enabled : Enabled m a)
    (acts : subject m a = some id) : ∃ r, m.requests[id]? = some r := by
  cases a with
  | finishPending won =>
    cases loop : m.loop with
    | top | select | exited => grind
    | discard stage act rest inSchedule =>
      obtain ⟨_, _, _, _, r, found, _⟩ := Sound.discarding sound loop
      exact ⟨r, by grind⟩
  | schedule =>
    obtain ⟨r, found, _⟩ := at_iff.mp (enabled.2.2 id acts)
    exact ⟨r, found⟩
  | _ => clear sound; grind

theorem silent_of_no_subject (acts : subject m a = none) : effect m a = .silent := by
  cases a <;> first | rfl | cases acts | grind

theorem track_of_raise (raises : effect m a = .raise) :
    ∃ id, a = .track id true ∧ m.drainable = true := by
  cases a with
  | track id admitted => cases admitted <;> grind
  | _ => grind

/-- Everything a step can do to the records, seen from outside: it adds an envelope, or
it leaves them alone, or it changes the record of its subject as its effect says. -/
theorem next_cases (sound : m.Sound) (enabled : Enabled m a) :
    (∃ ctx protocol session expects nonBlocking, a = .submit ctx protocol session expects nonBlocking) ∨
    (effect m a = .silent ∧ (next m a).requests = m.requests) ∨
    ∃ id r f, subject m a = some id ∧ m.requests[id]? = some r ∧
      (next m a).requests = m.requests.modify id f ∧ (effect m a).Applies r (f r) := by
  by_cases kept : ∀ ctx protocol session expects nonBlocking,
      a ≠ .submit ctx protocol session expects nonBlocking
  · right
    have same := next_length m a kept
    have other := fun j r => next_other (m := m) (a := a) (j := j) (r := r)
    cases acts : subject m a with
    | none =>
      refine .inl ⟨silent_of_no_subject acts, List.ext_getElem? fun j => ?_⟩
      grind
    | some id =>
      obtain ⟨r, found⟩ := subject_found sound enabled acts
      obtain ⟨r', after, applies⟩ := next_applies sound enabled acts found
      refine .inr ⟨id, r, fun _ => r', rfl, found, List.ext_getElem? fun j => ?_, applies⟩
      grind
  · simp only [not_forall, not_not] at kept
    exact .inl kept

theorem countP_tracked_next (sound : m.Sound) (enabled : Enabled m a) :
    (next m a).requests.countP (·.drainTracked) + (effect m a).lowered =
      m.requests.countP (·.drainTracked) + (effect m a).raised := by
  rcases next_cases sound enabled with ⟨_, _, _, _, _, rfl⟩ | ⟨silent, same⟩ |
    ⟨id, r, f, _, found, changed, applies⟩
  · simp [next, effect, Effect.raised, Effect.lowered]
  · simp [silent, same, Effect.raised, Effect.lowered]
  · have counted := countP_modify (p := (·.drainTracked)) (f := f) found
    have ready := applies.ready
    have tracked := applies.tracked
    rw [changed]
    cases e : effect m a <;>
      simp only [e, Effect.Ready, Effect.tracked] at ready tracked <;>
      simp only [tracked, ready, Bool.toNat_true, Bool.toNat_false] at counted <;>
      simp only [Effect.raised, Effect.lowered] <;> omega

theorem countP_counted_next (sound : m.Sound) (enabled : Enabled m a) :
    (next m a).requests.countP (·.completion = .counted) =
      m.requests.countP (·.completion = .counted) + (effect m a).missed := by
  rcases next_cases sound enabled with ⟨_, _, _, _, _, rfl⟩ | ⟨silent, same⟩ |
    ⟨id, r, f, _, found, changed, applies⟩
  · simp [next, effect, Effect.missed]
  · simp [silent, same, Effect.missed]
  · have counted := countP_modify (p := (·.completion = .counted)) (f := f) found
    have ready := applies.ready
    have completed := applies.completed
    rw [changed]
    cases e : effect m a <;>
      simp only [e, Effect.Ready, Effect.completed] at ready completed <;>
      simp [completed, ready] at counted <;> simp only [Effect.missed] <;> omega

end Runtime

end Skygo.Actor
