import Skygo.Actor.Scheduling

/-! What no action takes back: the envelope of a request, a first grant, an
`eventDone`; and what only `schedule` does: grant the turn. -/

set_option autoImplicit false

attribute [-instance] instBooleanRingBool

namespace Skygo.Actor

open Semantics

variable {Msg : Type} {m : ServiceRuntime Msg} {turn : Option Nat} {discarding : Bool}

structure Request.Later (turn : Option Nat) (discarding : Bool) (before after : Request Msg) : Prop where
  ctx : after.ctx = before.ctx
  protocol : after.protocol = before.protocol
  session : after.session = before.session
  expectsResponse : after.expectsResponse = before.expectsResponse
  started : before.started = true → after.started = true
  dones : before.dones ≤ after.dones
  grants : turn ≠ none → after.grants = before.grants
  discards : discarding = false → after.discards = before.discards

theorem Request.Later.refl (r : Request Msg) : r.Later turn discarding r :=
  ⟨rfl, rfl, rfl, rfl, id, Nat.le_refl _, fun _ => rfl, fun _ => rfl⟩

def Request.fixed (r : Request Msg) : Context × String × Nat × Bool × Bool × Nat × Nat × Nat :=
  (r.ctx, r.protocol, r.session, r.expectsResponse, r.started, r.dones, r.grants, r.discards)

theorem Request.Later.quiet {r s : Request Msg} (same : s.fixed = r.fixed) : r.Later turn discarding s := by
  simp only [Request.fixed, Prod.mk.injEq] at same
  obtain ⟨ctx, protocol, session, expects, started, dones, grants, discards⟩ := same
  exact ⟨ctx, protocol, session, expects, started.trans, Nat.le_of_eq dones.symm, fun _ => grants, fun _ => discards⟩

namespace ServiceRuntime

def Evolves (turn : Option Nat) (discarding : Bool) (m m' : ServiceRuntime Msg) : Prop :=
  Grows (Request.Later turn discarding) m.requests m'.requests

end ServiceRuntime

def Action.isDiscard : Action Msg → Bool
  | .finishPending _ => true
  | _ => false

namespace Runtime

open ServiceRuntime

attribute [grind] Action.isDiscard

theorem next_length (m : ServiceRuntime Msg) (a : Action Msg)
    (kept : ∀ ctx protocol session expects nonBlocking,
      a ≠ .submit ctx protocol session expects nonBlocking) :
    (next m a).requests.length = m.requests.length := by
  cases a with
  | track id admitted | complete id admitted => cases admitted <;> grind
  | submit => grind
  | schedule =>
    dsimp only [next]
    split
    · rfl
    · split <;> grind
  | _ => first | rfl | exact List.length_modify .. | grind

theorem next_kept {id : Nat} {r : Request Msg} (a : Action Msg) (found : m.requests[id]? = some r) :
    ∃ r', (next m a).requests[id]? = some r' := by
  by_cases kept : ∀ ctx protocol session expects nonBlocking,
      a ≠ .submit ctx protocol session expects nonBlocking
  · have same := next_length m a kept
    exact ⟨_, List.getElem?_eq_getElem (same ▸ lookup_lt found)⟩
  · simp only [not_forall, not_not] at kept
    obtain ⟨ctx, protocol, session, expects, nonBlocking, rfl⟩ := kept
    exact ⟨r, lookup_append_old found⟩

theorem evolves_next (m : ServiceRuntime Msg) (a : Action Msg) :
    m.Evolves m.current a.isDiscard (next m a) := by
  cases a with
  | track id admitted | complete id admitted => cases admitted <;> exact .modify .refl id fun _ _ => .quiet rfl
  | acquire id | refuse id | emitFailed id | receiveGrant id | unpackFailed id | invoke id | yield id | yieldFailed id
  | hear id | waitReturned id | resumeFailed id | regrant id | grantLost id | recovered id
  | handlerReturned id | respond id | missed id | report id | doneFailed id =>
    exact .modify .refl id fun _ _ => .quiet rfl
  | cancel | exit | observeStop => exact .refl .refl _
  | enqueue id | resumeEvent id =>
    dsimp only [next]
    split <;> exact .modify .refl id fun _ _ => .quiet rfl
  | submit => exact fun _ r found => ⟨r, lookup_append_old found, .refl r⟩
  | doneEvent id =>
    exact .modify .refl id fun _ _ => ⟨rfl, rfl, rfl, rfl, fun same => same, Nat.le_succ _, fun _ => rfl, fun _ => rfl⟩
  | release | unwind | yieldEvent | finishTracked =>
    intro id r found
    obtain ⟨r', after⟩ := next_kept _ found
    refine ⟨r', after, .quiet ?_⟩
    dsimp only [next] at after
    repeat' split at after
    all_goals grind [Request.fixed]
  | finishPending won =>
    intro id r found
    obtain ⟨r', after⟩ := next_kept (.finishPending won) found
    have same : (r'.ctx, r'.protocol, r'.session, r'.expectsResponse, r'.started, r'.dones, r'.grants) =
        (r.ctx, r.protocol, r.session, r.expectsResponse, r.started, r.dones, r.grants) := by
      dsimp only [next] at after
      grind
    simp only [Prod.mk.injEq] at same
    obtain ⟨ctx, protocol, session, expects, started, dones, grants⟩ := same
    exact ⟨r', after, ctx, protocol, session, expects, started.trans, Nat.le_of_eq dones.symm, fun _ => grants,
      by simp [Action.isDiscard]⟩
  | schedule =>
    intro id r found
    obtain ⟨r', after⟩ := next_kept _ found
    refine ⟨r', after, ?_⟩
    dsimp only [next] at after
    repeat' split at after
    all_goals constructor <;> grind

theorem next_settings (m : ServiceRuntime Msg) (a : Action Msg) :
    (next m a).name = m.name ∧ (next m a).opts = m.opts ∧ (next m a).drainable = m.drainable ∧
      (m.done = true → (next m a).done = true) := by
  cases a with
  | track id admitted | complete id admitted => cases admitted <;> grind
  | schedule => dsimp only [next]; grind
  | _ => first | exact ⟨rfl, rfl, rfl, id⟩ | grind

theorem next_fresh (m : ServiceRuntime Msg) (a : Action Msg) (id : Nat) (r : Request Msg)
    (found : (next m a).requests[id]? = some r) (fresh : m.requests[id]? = none) :
    id = m.requests.length ∧ ∃ ctx protocol session expects nonBlocking,
      a = .submit ctx protocol session expects nonBlocking ∧
      r = { ctx := ctx, protocol := protocol, session := session, expectsResponse := expects,
            nonBlocking := nonBlocking } := by
  by_cases kept : ∀ ctx protocol session expects nonBlocking,
      a ≠ .submit ctx protocol session expects nonBlocking
  · have same := next_length m a kept
    grind
  · simp only [not_forall, not_not] at kept
    obtain ⟨ctx, protocol, session, expects, nonBlocking, rfl⟩ := kept
    grind

theorem discardStep_other (won : Bool) {id : Nat} (spared : id ∉ m.loop.discarding) :
    (m.discardStep won).requests[id]? = m.requests[id]? := by
  unfold discardStep
  grind

end Runtime

end Skygo.Actor
