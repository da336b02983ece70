import Skygo.Actor.System

/-! Every service of a reachable system is a sound runtime.

A system's step changes at most one service, and there it is a step of the
service's own machine; what was proved of one runtime therefore holds of all.
-/

set_option autoImplicit false

attribute [-instance] instBooleanRingBool

namespace Skygo.Actor

open Semantics

variable {Msg : Type} {s : System Msg}

namespace System

@[simp, grind =] theorem mailboxes_apply (s : System Msg) (e : Effect) (r : Request Msg) :
    (s.apply e r).mailboxes = s.mailboxes := by
  cases e <;> rfl

theorem settings_apply (s : System Msg) (e : Effect) (r : Request Msg) :
    (s.apply e r).self = s.self ∧ (s.apply e r).drainable = s.drainable := by
  cases e <;> exact ⟨rfl, rfl⟩

variable {a : SystemAction Msg}

theorem next_mailboxes (enabled : Enabled s a) :
    (next s a).mailboxes = s.mailboxes ∨
    (∃ name opts, a = .start name opts ∧
      (next s a).mailboxes = s.mailboxes ++ [.start name opts s.drainable]) ∨
    ∃ k m act, s.mailboxes[k]? = some m ∧ Runtime.Enabled m act ∧
      (next s a).mailboxes = s.mailboxes.modify k (Runtime.next · act) ∧
      (a = .mail k act ∨ Runtime.subject m act = none) := by
  cases a with
  | start name opts => exact .inr (.inl ⟨name, opts, rfl, rfl⟩)
  | mail k act =>
    obtain ⟨m, found, allowed, _⟩ := at_iff.mp enabled
    refine .inr (.inr ⟨k, m, act, found, allowed, ?_, .inl rfl⟩)
    simp only [next, found]
    split <;> simp
  | admitCall c ctx protocol =>
    obtain ⟨call, found, _⟩ := at_iff.mp enabled.1
    cases box : s.mailboxes[call.service]? with
    | none => grind
    | some m => exact .inr (.inr ⟨call.service, m, .submit ctx protocol (c + 1) true false, box, trivial, by grind, .inr rfl⟩)
  | _ => grind

theorem settings_next (a : SystemAction Msg) :
    (next s a).self = s.self ∧ (next s a).drainable = s.drainable := by
  cases a with
  | mail k act =>
    simp only [next]
    split
    · split
      · exact settings_apply _ _ _
      · exact ⟨rfl, rfl⟩
    · exact ⟨rfl, rfl⟩
  | _ => grind

theorem mailbox_cases (enabled : Enabled s a) {k : Nat} {m : ServiceRuntime Msg}
    (box : s.mailboxes[k]? = some m) :
    (next s a).mailboxes[k]? = some m ∨ ∃ act, Runtime.Enabled m act ∧
      (next s a).mailboxes[k]? = some (Runtime.next m act) ∧ (a = .mail k act ∨ Runtime.subject m act = none) := by
  rcases next_mailboxes enabled with same | ⟨name, opts, _, appended⟩ | ⟨j, m', act, box', allowed, changed, taken⟩
  · exact .inl (same ▸ box)
  · exact .inl (appended ▸ lookup_append_old box)
  · by_cases here : k = j
    · subst here
      obtain rfl : m = m' := Option.some.inj (box.symm.trans box')
      exact .inr ⟨act, allowed, changed ▸ lookup_modify_self box, taken⟩
    · left
      rw [changed, List.getElem?_modify_ne _ _ (Ne.symm here)]
      exact box

variable {r : Request Msg} {k id : Nat}

theorem request_eq_some :
    s.request k id = some r ↔ ∃ m, s.mailboxes[k]? = some m ∧ m.requests[id]? = some r := by
  simp [request, Option.bind_eq_some_iff]

theorem request_next (enabled : Enabled s a)
    (found : s.request k id = some r) :
    ∃ r', (next s a).request k id = some r' ∧ ∃ turn discarding, r.Later turn discarding r' := by
  obtain ⟨m, box, there⟩ := request_eq_some.mp found
  rcases mailbox_cases enabled box with same | ⟨act, _, changed, _⟩
  · exact ⟨r, request_eq_some.mpr ⟨m, same, there⟩, none, false, .refl r⟩
  · obtain ⟨r', after, later⟩ := Runtime.evolves_next m act id r there
    exact ⟨r', request_eq_some.mpr ⟨_, changed, after⟩, _, _, later⟩

theorem submitted_of_modify {s' : System Msg} {j k id : Nat} {act : Action Msg}
    (changed : s'.mailboxes = s.mailboxes.modify j (Runtime.next · act))
    (after : s'.request k id = some r) (absent : s.request k id = none) :
    k = j ∧ At s.mailboxes k (id = ·.requests.length) ∧ ∃ ctx protocol session expects nonBlocking,
      act = .submit ctx protocol session expects nonBlocking ∧
      r = { ctx := ctx, protocol := protocol, session := session, expectsResponse := expects,
            nonBlocking := nonBlocking } := by
  obtain ⟨m', box', there⟩ := request_eq_some.mp after
  rw [changed] at box'
  rcases lookup_modify box' with ⟨rfl, m, box, rfl⟩ | ⟨_, box⟩
  · have fresh : m.requests[id]? = none := by simpa [request, box] using absent
    obtain ⟨last, submitted⟩ := Runtime.next_fresh m act id r there fresh
    exact ⟨rfl, at_iff.mpr ⟨m, box, last⟩, submitted⟩
  · have here : s.request k id = some r := request_eq_some.mpr ⟨m', box, there⟩
    simp [absent] at here

theorem request_fresh (enabled : Enabled s a)
    (after : (next s a).request k id = some r) (absent : s.request k id = none) :
    s.Carries r.ctx ∧ r.admission = .track ∧ At s.mailboxes k (id = ·.requests.length) ∧
      ((∃ ctx protocol session nonBlocking, a = .mail k (.submit ctx protocol session false nonBlocking) ∧
        r = { ctx := ctx, protocol := protocol, session := session, expectsResponse := false,
              nonBlocking := nonBlocking }) ∨
      ∃ c call ctx protocol, a = .admitCall c ctx protocol ∧ s.calls[c]? = some call ∧ call.service = k ∧
        r = { ctx := ctx, protocol := protocol, session := c + 1, expectsResponse := true,
              nonBlocking := false }) := by
  have unchanged : (next s a).mailboxes ≠ s.mailboxes := by
    intro same
    simp only [request, same] at after
    simp [request, after] at absent
  cases a with
  | mail j act =>
    obtain ⟨m, box, _, agrees⟩ := at_iff.mp enabled
    have changed : (next s (.mail j act)).mailboxes = s.mailboxes.modify j (Runtime.next · act) := by
      simp only [next, box]
      split <;> simp
    obtain ⟨rfl, last, ctx, protocol, session, expects, nonBlocking, rfl, rfl⟩ :=
      submitted_of_modify changed after absent
    obtain ⟨rfl, carries⟩ := agrees.2
    exact ⟨carries, rfl, last, .inl ⟨ctx, protocol, session, nonBlocking, rfl, rfl⟩⟩
  | admitCall c ctx protocol =>
    cases found : s.calls[c]? with
    | none => simp [next, found] at unchanged
    | some call =>
      cases box : s.mailboxes[call.service]? with
      | none => simp [next, found, box] at unchanged
      | some m =>
        have changed : (next s (.admitCall c ctx protocol)).mailboxes = s.mailboxes.modify call.service
            (Runtime.next · (.submit ctx protocol (c + 1) true false)) := by
          simp only [next, found, box]
        obtain ⟨rfl, last, _, _, _, _, _, same, rfl⟩ := submitted_of_modify changed after absent
        cases same
        exact ⟨enabled.2, rfl, last, .inr ⟨c, call, ctx, protocol, rfl, found, rfl, rfl⟩⟩
  | start name opts =>
    obtain ⟨m, box, there⟩ := request_eq_some.mp after
    rcases lookup_append box with old | ⟨_, rfl⟩
    · have here : s.request k id = some r := request_eq_some.mpr ⟨m, old, there⟩
      simp [absent] at here
    · simp [ServiceRuntime.start] at there
  | _ => grind

def Healthy (s : System Msg) : Prop :=
  ∀ (k : Nat) (m : ServiceRuntime Msg), s.mailboxes[k]? = some m → m.Sound ∧ m.drainable = s.drainable

theorem healthy_next (healthy : s.Healthy) (a : SystemAction Msg) (enabled : Enabled s a) :
    (next s a).Healthy := by
  unfold Healthy
  rw [(settings_next a).2]
  rcases next_mailboxes enabled with same | ⟨name, opts, _, appended⟩ | ⟨k, m, act, found, allowed, changed, _⟩
  · rw [same]
    exact healthy
  · rw [appended]
    exact forall_append healthy ⟨Runtime.sound_start name opts s.drainable, rfl⟩
  · rw [changed]
    apply forall_modify_at (P := fun _ (m : ServiceRuntime Msg) => m.Sound ∧ m.drainable = s.drainable) found
    · have before := healthy k m found
      exact ⟨Runtime.sound_next before.1 act allowed, (Runtime.next_settings m act).2.2.1.trans before.2⟩
    · intro j other _ there
      exact healthy j other there

theorem reachable_healthy {self : Nat} {drainable : Bool}
    (reached : (machine Msg).Reachable (fresh self drainable) s) : s.Healthy :=
  reached.invariant (by intro k m found; simp [fresh] at found)
    fun _ a healthy enabled => healthy_next healthy a enabled

theorem mail_cases (healthy : s.Healthy) {k : Nat} {act : Action Msg} (enabled : Enabled s (.mail k act)) :
    ∃ m, s.mailboxes[k]? = some m ∧ m.Sound ∧ Runtime.Enabled m act ∧ s.Agrees m act ∧
      ((Runtime.effect m act = .silent ∧ Runtime.subject m act = none ∧
          next s (.mail k act) = { s with mailboxes := s.mailboxes.modify k (Runtime.next · act) }) ∨
        ∃ id r r', Runtime.subject m act = some id ∧ m.requests[id]? = some r ∧
          (Runtime.next m act).requests[id]? = some r' ∧ (Runtime.effect m act).Applies r r' ∧
          s.Answers (Runtime.effect m act) r ∧
          next s (.mail k act) =
            { s with mailboxes := s.mailboxes.modify k (Runtime.next · act) }.apply
              (Runtime.effect m act) r) := by
  obtain ⟨m, found, allowed, agrees⟩ := at_iff.mp enabled
  have sound := (healthy k m found).1
  refine ⟨m, found, sound, allowed, agrees, ?_⟩
  cases acts : Runtime.subject m act with
  | none =>
    have none_ : target m act = none := by simp [target, acts]
    exact .inl ⟨Runtime.silent_of_no_subject acts, rfl, by simp only [next, found, none_]⟩
  | some id =>
    obtain ⟨r, there⟩ := Runtime.subject_found sound allowed acts
    obtain ⟨r', after, applies⟩ := Runtime.next_applies sound allowed acts there
    have target_ : target m act = some r := by simp [target, acts, there]
    exact .inr ⟨id, r, r', rfl, there, after, applies, agrees.1 r target_, by simp only [next, found, target_]⟩

theorem request_cases (healthy : s.Healthy) (enabled : Enabled s a) (found : s.request k id = some r) :
    (next s a).request k id = some r ∨
    ∃ m act r', a = .mail k act ∧ s.mailboxes[k]? = some m ∧ m.Sound ∧ Runtime.Enabled m act ∧
      Runtime.subject m act = some id ∧ s.Answers (Runtime.effect m act) r ∧
      (next s a).request k id = some r' ∧ (Runtime.effect m act).Applies r r' ∧
      r'.session = r.session ∧ r'.expectsResponse = r.expectsResponse ∧
      next s a = { s with mailboxes := s.mailboxes.modify k (Runtime.next · act) }.apply
        (Runtime.effect m act) r := by
  obtain ⟨m, box, there⟩ := request_eq_some.mp found
  rcases mailbox_cases enabled box with same | ⟨act, allowed, changed, taken⟩
  · exact .inl (request_eq_some.mpr ⟨m, same, there⟩)
  by_cases acts : Runtime.subject m act = some id
  · obtain rfl : a = .mail k act := taken.resolve_right (by simp [acts])
    have sound := (healthy k m box).1
    have agrees := (enabled.here box).2
    obtain ⟨r', after, applies⟩ := Runtime.next_applies sound allowed acts there
    have target_ : target m act = some r := by simp [target, acts, there]
    obtain ⟨_, after', later⟩ := Runtime.evolves_next m act id r there
    rw [after] at after'
    cases after'
    exact .inr ⟨m, act, r', rfl, box, sound, allowed, acts, agrees.1 r target_,
      request_eq_some.mpr ⟨_, changed, after⟩, applies, later.session, later.expectsResponse,
      by simp only [next, box, target_]⟩
  · exact .inl (request_eq_some.mpr ⟨_, changed, Runtime.next_other acts there⟩)

end System

end Skygo.Actor
