import Skygo.Actor.Effects
import Skygo.Actor.Exclusion

/-! `MarkTurn` and `InterleavedSince`.

The version of an activation moves when it is granted the turn again and another segment was
granted since it yielded. So a version tells what the activation has seen: everything up to now
while it has the turn, and everything up to its yield while that is outstanding.
-/

set_option autoImplicit false

attribute [-instance] instBooleanRingBool

namespace Skygo.Actor

open Semantics

/-- An activation is named by its request, which is what `activationFromContext` finds. -/
structure TurnMark where
  activation : Option Nat := none
  version : UInt64 := 0
  deriving DecidableEq

variable {Msg : Type}

namespace ServiceRuntime

def version (m : ServiceRuntime Msg) (id : Nat) : UInt64 :=
  match m.requests[id]? with
  | some r => UInt64.ofNat r.interleaveVersion
  | none => 0

def markTurn (m : ServiceRuntime Msg) (act : Option Nat) : TurnMark :=
  match act with
  | none => {}
  | some id => ⟨some id, m.version id⟩

def interleavedSince (m : ServiceRuntime Msg) (act : Option Nat) (mark : TurnMark) : Bool :=
  match act with
  | none => false
  | some id => decide (mark.activation = some id) && decide (m.version id ≠ mark.version)

end ServiceRuntime

def Request.turns (r : Request Msg) : Bool × Nat × Nat × Nat × Bool :=
  (r.started, r.grants, r.yieldAtSegment, r.interleaveVersion, r.yielded)

def Request.SameTurns (before after : Request Msg) : Prop := after.turns = before.turns

def Request.horizon (r : Request Msg) (segmentSeq : Nat) : Nat :=
  if r.yielded then r.yieldAtSegment else segmentSeq

def Request.Unseen (r : Request Msg) (segmentSeq : Nat) : Prop :=
  r.yielded = true ∧ r.yieldAtSegment < segmentSeq

instance (r : Request Msg) (segmentSeq : Nat) : Decidable (r.Unseen segmentSeq) := inferInstanceAs (Decidable (_ ∧ _))

def Request.InCode (r : Request Msg) : Prop := ∃ depth, r.pc = .code depth

variable {m m' : ServiceRuntime Msg} {id : Nat} {r r' : Request Msg}

namespace Runtime

open ServiceRuntime

attribute [grind] Request.turns Request.SameTurns Request.horizon Request.Unseen granted grantsOf

variable {a : Action Msg}

theorem sameTurns_modify {act : Nat} {f : Request Msg → Request Msg} (found : m.requests[id]? = some r)
    (after : (m.requests.modify act f)[id]? = some r') (same : ∀ r, Request.SameTurns r (f r)) : r.SameTurns r' := by
  rcases lookup_modify after with ⟨rfl, old, was, rfl⟩ | ⟨-, was⟩ <;> cases found.symm.trans was
  · exact same r
  · rfl

theorem turns_next (enabled : Enabled m a) (found : m.requests[id]? = some r) :
    ∃ r', (next m a).requests[id]? = some r' ∧
      ((r.SameTurns r' ∧ ((next m a).segmentSeq = m.segmentSeq ∨
          ((next m a).segmentSeq = m.segmentSeq + 1 ∧ m.current = none))) ∨
        ((∃ depth, r.pc = .yielding depth) ∧ m.current = some id ∧ (next m a).segmentSeq = m.segmentSeq ∧
          r'.turns = (r.started, r.grants, m.segmentSeq, r.interleaveVersion, true)) ∨
        (id ∈ m.ready ∧ m.current = none ∧ (next m a).segmentSeq = m.segmentSeq + 1 ∧ r' = granted m.segmentSeq r)) := by
  obtain ⟨r', after⟩ := next_kept a found
  refine ⟨r', after, ?_⟩
  cases a with
  | track id admitted | complete id admitted =>
    cases admitted <;> exact .inl ⟨sameTurns_modify found after fun _ => rfl, .inl rfl⟩
  | schedule =>
    dsimp only [next] at after ⊢
    split at after
    · grind
    · next act chosen =>
      obtain ⟨s, there, -⟩ := at_iff.mp (enabled.2.2 act chosen)
      clear enabled
      split at after
      · grind
      · rw [grantTurn_eq (by exact there)] at after ⊢
        grind
  | submit =>
    cases (lookup_append_old found).symm.trans after
    exact .inl ⟨rfl, .inl rfl⟩
  | cancel | exit | observeStop =>
    cases found.symm.trans after
    exact .inl ⟨rfl, .inl rfl⟩
  | _ => first | exact .inl ⟨sameTurns_modify found after fun _ => rfl, .inl rfl⟩ | grind

theorem grantsOf_modify {act : Nat} {f : Request Msg → Request Msg} (changed : m'.requests = m.requests.modify act f)
    (same : ∀ r, (f r).grants = r.grants) (j : Nat) : m'.grantsOf j = m.grantsOf j := by
  rw [grantsOf, grantsOf, changed, List.getElem?_modify]
  cases m.requests[j]? <;> grind

theorem grantsOf_turn (enabled : Enabled m a) :
    ((next m a).segmentSeq = m.segmentSeq ∧ ∀ j, (next m a).grantsOf j = m.grantsOf j) ∨
      ∃ act, (next m a).segmentSeq = m.segmentSeq + 1 ∧ (next m a).grantsOf act = m.grantsOf act + 1 ∧
        ∀ j ≠ act, (next m a).grantsOf j = m.grantsOf j := by
  cases a with
  | track id admitted | complete id admitted => cases admitted <;> grind
  | schedule =>
    dsimp only [next]
    split
    · grind
    · next act chosen =>
      obtain ⟨s, there, -⟩ := at_iff.mp (enabled.2.2 act chosen)
      clear enabled
      split
      · grind
      · rw [grantTurn_eq (by exact there)]
        exact .inr ⟨act, rfl, by grind⟩
  | _ => first | exact .inl ⟨rfl, grantsOf_modify rfl fun _ => rfl⟩ | (refine .inl ⟨?_, fun j => ?_⟩ <;> first | rfl | grind)

def Clocked (m : ServiceRuntime Msg) : Prop :=
  ∀ (id : Nat) (r : Request Msg), m.requests[id]? = some r →
    r.yieldAtSegment ≤ m.segmentSeq ∧ r.interleaveVersion ≤ m.segmentSeq

theorem clocked_next (enabled : Enabled m a) (clocked : Clocked m) :
    Clocked (next m a) := by
  intro id r' after
  cases found : m.requests[id]? with
  | none =>
    obtain ⟨_, _, _, _, _, _, _, rfl⟩ := next_fresh m a id r' after found
    exact ⟨Nat.zero_le _, Nat.zero_le _⟩
  | some r =>
    have bounds := clocked id r found
    obtain ⟨later, there, kind⟩ := turns_next enabled found
    rcases kind with ⟨turns, seq⟩ | ⟨-, -, seq, turns⟩ | ⟨-, -, seq, rfl⟩ <;> grind

variable {name : String} {opts : ServiceOptions} {drainable : Bool}

theorem reachable_clocked (reached : (machine Msg).Reachable (ServiceRuntime.start name opts drainable) m) :
    Clocked m := by
  refine reached.invariant (I := Clocked) (fun id r found => by cases found) ?_
  intro m a clocked enabled
  exact clocked_next enabled clocked

/-- Since `first` the version of a running activation has moved exactly if its horizon outgrew its own grants. -/
structure Tells (first : ServiceRuntime Msg) (before : Request Msg) (id : Nat) (m : ServiceRuntime Msg) : Prop where
  sound : m.Sound
  clocked : Clocked m
  record : ∃ r, m.requests[id]? = some r ∧ r.started = true ∧
    (r.dones = 0 → before.interleaveVersion ≤ r.interleaveVersion ∧
      before.horizon first.segmentSeq + r.grants ≤ r.horizon m.segmentSeq + before.grants ∧
      (before.interleaveVersion = r.interleaveVersion ↔
        before.horizon first.segmentSeq + r.grants = r.horizon m.segmentSeq + before.grants))

variable {first : ServiceRuntime Msg}

theorem tells_next {before : Request Msg} (tells : Tells first before id m) (enabled : Enabled m a) : Tells first before id (next m a) := by
  obtain ⟨sound, clocked, r, found, started, exact_⟩ := tells
  refine ⟨sound_next sound a enabled, clocked_next enabled clocked, ?_⟩
  obtain ⟨r', after, kind⟩ := turns_next enabled found
  obtain ⟨_, there, later⟩ := evolves_next m a id r found
  rw [after] at there
  cases there
  refine ⟨r', after, later.started started, fun open_ => ?_⟩
  have running : r.dones = 0 := by
    have grows := later.dones
    omega
  obtain ⟨versions, ahead, iff_⟩ := exact_ running
  obtain ⟨yield, -⟩ := clocked id r found
  rcases kind with ⟨turns, seq⟩ | ⟨-, current, seq, turns⟩ | ⟨held, idle, seq, rfl⟩
  · -- a segment of another: without a yield outstanding the activation would have the turn
    have turn := fun yielded => Sound.current_of_executing sound found ⟨started, yielded, running⟩
    have horizon : r'.horizon (next m a).segmentSeq = r.horizon m.segmentSeq := by
      cases yielded : r.yielded <;> grind
    grind
  · -- the yield: what was seen until now is what was seen until the yield
    have before_ : r.yielded = false := by
      have fits := sound.fits id r found
      rw [show m.place id = .current by simp [place, current]] at fits
      exact fits.2.2.1
    have horizon : r'.horizon (next m a).segmentSeq = r.horizon m.segmentSeq := by grind
    grind
  · -- the turn again: what was seen until the yield becomes what is seen now
    have yielded : r.yielded = true := by
      have fits := sound.fits id r found
      rw [show m.place id = .ready by simp [place, idle, held]] at fits
      rcases fits with queued | resumed <;> grind
    grind

structure Counts (first : ServiceRuntime Msg) (id : Nat) (m : ServiceRuntime Msg) : Prop where
  grows : ∀ j, first.grantsOf j ≤ m.grantsOf j
  bounded : first.segmentSeq + m.grantsOf id ≤ m.segmentSeq + first.grantsOf id
  others : first.segmentSeq + m.grantsOf id < m.segmentSeq + first.grantsOf id ↔
    ∃ other, other ≠ id ∧ first.grantsOf other < m.grantsOf other

theorem counts_next (counts : Counts first id m) (enabled : Enabled m a) :
    Counts first id (next m a) := by
  obtain ⟨grows, bounded, others⟩ := counts
  rcases grantsOf_turn enabled with ⟨seq, same⟩ | ⟨act, seq, more, same⟩
  · refine ⟨fun j => ?_, ?_, ?_⟩
    · rw [same]
      exact grows j
    · rw [seq, same]
      exact bounded
    · simp only [seq, same]
      exact others
  · by_cases own : act = id
    · -- the activation's own segment counts on both sides
      subst own
      refine ⟨by grind, by omega, ?_⟩
      have kept : (∃ other, other ≠ act ∧ first.grantsOf other < (next m a).grantsOf other) ↔
          ∃ other, other ≠ act ∧ first.grantsOf other < m.grantsOf other :=
        exists_congr fun other => and_congr_right fun apart => by rw [same other apart]
      rw [kept, ← others, seq, more]
      omega
    · have more_ := grows act
      refine ⟨by grind, by grind, ?_⟩
      rw [seq, same id (Ne.symm own)]
      refine iff_of_true (by omega) ⟨act, own, ?_⟩
      omega

theorem counts_run {actions : List (Action Msg)}
    (ran : (machine Msg).run first actions = some m) : Counts first id m := by
  have start : Counts first id first := by
    refine ⟨fun _ => Nat.le_refl _, Nat.le_refl _, iff_of_false (Nat.lt_irrefl _) ?_⟩
    rintro ⟨other, -, more⟩
    exact absurd more (Nat.lt_irrefl _)
  exact Machine.run_keeps (I := Counts first id) (fun _ _ counts enabled => counts_next counts enabled) ran start

theorem Sound.inCode (sound : m.Sound) (found : m.requests[id]? = some r) (code : r.InCode) :
    r.started = true ∧ r.dones = 0 := by
  have active := (sound.fits id r found).active
  grind [Request.InCode]

theorem horizon_of_seen (clocked : Clocked m) (found : m.requests[id]? = some r) (seen : ¬r.Unseen m.segmentSeq) :
    r.horizon m.segmentSeq = m.segmentSeq := by
  have bounded := (clocked id r found).1
  grind

/-- The law of versions: a mark tells whether the horizon of the activation moved past its own segments. -/
theorem interleavedSince_iff
    (reached : (machine Msg).Reachable (ServiceRuntime.start name opts drainable) first)
    {actions : List (Action Msg)} (ran : (machine Msg).run first actions = some m)
    (found : first.requests[id]? = some r) (code : r.InCode) (after : m.requests[id]? = some r') (code' : r'.InCode)
    (few : m.segmentSeq < 2 ^ 64) :
    m.interleavedSince (some id) (first.markTurn (some id)) = true ↔
      r.horizon first.segmentSeq + r'.grants < r'.horizon m.segmentSeq + r.grants := by
  have tells : Tells first r id first :=
    ⟨reachable_sound reached, reachable_clocked reached, r, found, (Sound.inCode (reachable_sound reached) found code).1,
      fun _ => ⟨Nat.le_refl _, Nat.le_refl _, iff_of_true rfl rfl⟩⟩
  obtain ⟨sound, clocked, last, there, -, exact_⟩ :=
    Machine.run_keeps (I := Tells first r id) (fun _ _ tells enabled => tells_next tells enabled) ran tells
  rw [after] at there
  cases there
  obtain ⟨versions, ahead, iff_⟩ := exact_ (Sound.inCode sound after code').2
  have bounded := (clocked id r' after).2
  have versions_ne : UInt64.ofNat r'.interleaveVersion ≠ UInt64.ofNat r.interleaveVersion ↔
      r.interleaveVersion ≠ r'.interleaveVersion := by
    refine not_congr ⟨fun same => ?_, fun same => by rw [same]⟩
    have numbers := congrArg UInt64.toNat same
    rw [UInt64.toNat_ofNat', UInt64.toNat_ofNat', Nat.mod_eq_of_lt (by omega), Nat.mod_eq_of_lt (by omega)] at numbers
    exact numbers.symm
  simp only [interleavedSince, markTurn, version, found, after, decide_true, Bool.true_and, decide_eq_true_eq]
  rw [versions_ne, ne_eq, iff_]
  omega

theorem grantsOf_eq (found : m.requests[id]? = some r) : m.grantsOf id = r.grants := by
  rw [grantsOf, found]

theorem yielding_next (enabled : Enabled m a) (found : m.requests[id]? = some r)
    (after : (next m a).requests[id]? = some r') {depth : Nat} (yielding : r'.pc = .yielding depth) :
    r.pc = .yielding depth ∨ (r.InCode ∧ (next m a).current = m.current) := by
  cases a with
  | track id admitted | complete id admitted => cases admitted <;> grind
  | schedule =>
    clear enabled
    dsimp only [next] at after ⊢
    repeat' split at after
    all_goals grind
  | _ => grind [Request.InCode]

theorem current_next (enabled : Enabled m a) (current : (next m a).current = some id) :
    m.current = some id ∨ (m.current = none ∧ id ∈ m.ready) := by
  cases a with
  | track id admitted | complete id admitted => cases admitted <;> grind
  | schedule =>
    clear enabled
    dsimp only [next] at current
    grind
  | _ => first | exact .inl current | grind

def Marked (start : ServiceRuntime Msg) (id : Nat) (m : ServiceRuntime Msg) (r : Request Msg) : Prop :=
  ∃ first before, (machine Msg).Reachable start first ∧ (machine Msg).Reachable first m ∧
    first.requests[id]? = some before ∧ before.InCode ∧ before.yielded = false ∧ before.grants = r.grants ∧
    first.segmentSeq = r.horizon m.segmentSeq

theorem Marked.next {start : ServiceRuntime Msg} (marked : Marked start id m r) (enabled : Enabled m a)
    (grants : r'.grants = r.grants) (horizon : r'.horizon (next m a).segmentSeq = r.horizon m.segmentSeq) :
    Marked start id (next m a) r' := by
  obtain ⟨first, before, reached, later, found, code, turn, same, seen⟩ := marked
  exact ⟨first, before, reached, later.next enabled, found, code, turn, same.trans grants.symm, seen.trans horizon.symm⟩

/-- An activation that has yielded, or is about to with the turn, was in handler code with the turn before. -/
theorem marked_of_yielded (reached : (machine Msg).Reachable (ServiceRuntime.start name opts drainable) m)
    (found : m.requests[id]? = some r)
    (yields : r.yielded = true ∨ (m.current = some id ∧ ∃ depth, r.pc = .yielding depth)) :
    Marked (ServiceRuntime.start name opts drainable) id m r := by
  revert r
  refine reached.invariant_with (I := fun m => ∀ {r : Request Msg}, m.requests[id]? = some r →
    (r.yielded = true ∨ (m.current = some id ∧ ∃ depth, r.pc = .yielding depth)) →
    Marked (ServiceRuntime.start name opts drainable) id m r) (fun found => by cases found) ?_
  intro m a reached marked enabled r' after yields
  have sound := reachable_sound reached
  cases found : m.requests[id]? with
  | none =>
    obtain ⟨_, _, _, _, _, _, _, rfl⟩ := next_fresh m a id r' after found
    rcases yields with yielded | ⟨-, depth, pc⟩
    · cases yielded
    · cases pc
  | some r =>
    obtain ⟨_, there, kind⟩ := turns_next enabled found
    rw [show (next m a).requests[id]? = some r' from after] at there
    cases there
    rcases kind with ⟨turns, seq⟩ | ⟨yielding, current, seq, turns⟩ | ⟨held, idle, seq, rfl⟩
    · simp only [Request.SameTurns, Request.turns, Prod.mk.injEq] at turns
      obtain ⟨-, grants, yieldAt, -, same⟩ := turns
      cases yielded : r.yielded with
      | true =>
        refine (marked found (.inl yielded)).next enabled grants ?_
        rw [Request.horizon, Request.horizon, same, yielded, yieldAt]
        rfl
      | false =>
        rw [same, yielded] at yields
        obtain yields | ⟨current, depth, pc⟩ := yields
        · cases yields
        -- with the turn taken no segment is granted, so the earlier point still serves
        have steady : m.current = some id → (next m a).segmentSeq = m.segmentSeq := by
          intro turn
          rcases seq with same | ⟨-, idle⟩
          · exact same
          · rw [turn] at idle
            cases idle
        have horizon : m.current = some id → r'.horizon (next m a).segmentSeq = m.segmentSeq := by
          intro turn
          rw [Request.horizon, same, yielded]
          exact steady turn
        rcases yielding_next enabled found after pc with was | ⟨code, kept⟩
        · rcases current_next enabled current with turn | ⟨idle, held⟩
          · refine (marked found (.inr ⟨turn, depth, was⟩)).next enabled grants ?_
            rw [horizon turn, Request.horizon, yielded]
            rfl
          · have fits := sound.fits id r found
            rw [show m.place id = .ready by simp [place, idle, held]] at fits
            rcases fits with queued | resumed
            · cases was.symm.trans queued.1.pc
            · cases was.symm.trans resumed.2.2.2.2
        · have turn : m.current = some id := kept.symm.trans current
          exact ⟨m, r, reached, (Machine.Reachable.refl m).next enabled, found, code, yielded, grants.symm,
            (horizon turn).symm⟩
    · -- the accepted yield itself
      simp only [Request.turns, Prod.mk.injEq] at turns
      obtain ⟨-, grants, yieldAt, -, yielded⟩ := turns
      refine (marked found (.inr ⟨current, yielding⟩)).next enabled grants ?_
      have fits := sound.fits id r found
      rw [show m.place id = .current by simp [place, current]] at fits
      rw [Request.horizon, Request.horizon, yielded, yieldAt, fits.2.2.1]
      rfl
    · -- the turn ends the yield, and the goroutine is not yet at the next one
      have fits := sound.fits id r found
      rw [show m.place id = .ready by simp [place, idle, held]] at fits
      rcases yields with yielded | ⟨-, depth, pc⟩
      · cases yielded
      · dsimp only [granted] at pc
        split at pc
        · rcases fits with queued | resumed
          · cases pc.symm.trans queued.1.pc
          · cases pc.symm.trans resumed.2.2.2.2
        · cases pc

/-- At a point of a handler `InterleavedSince` tells of every mark whether another activation was granted a segment
since, exactly if the handler has no yield outstanding during which one was. The marks are those of earlier points
with the same property. -/
theorem interleaving_exact (reached : (machine Msg).Reachable (ServiceRuntime.start name opts drainable) m')
    (after : m'.requests[id]? = some r') (code : r'.InCode) (few : m'.segmentSeq < 2 ^ 64) :
    (∀ (m : ServiceRuntime Msg) (r : Request Msg) (actions : List (Action Msg)),
      (machine Msg).Reachable (ServiceRuntime.start name opts drainable) m → (machine Msg).run m actions = some m' →
      m.requests[id]? = some r → r.InCode → ¬r.Unseen m.segmentSeq →
      (m'.interleavedSince (some id) (m.markTurn (some id)) = true ↔
        ∃ other, other ≠ id ∧ m.grantsOf other < m'.grantsOf other)) ↔
    ¬r'.Unseen m'.segmentSeq := by
  constructor
  · -- a mark of the handler's last point before the yield is told wrong
    rintro exact_ ⟨yielded, later⟩
    obtain ⟨m, r, early, ⟨actions, ran⟩, found, inside, turn, grants, seen⟩ :=
      marked_of_yielded reached after (.inl yielded)
    have law := interleavedSince_iff early ran found inside after code few
    have told := exact_ m r actions early ran found inside fun unseen => by
      rw [Request.Unseen, turn] at unseen
      cases unseen.1
    rw [law, ← (counts_run ran).others, grantsOf_eq found, grantsOf_eq after, Request.horizon, Request.horizon, turn,
      yielded, grants] at told
    rw [Request.horizon, yielded] at seen
    simp only [Bool.false_eq_true, if_false, if_true] at told seen
    omega
  · intro seen m r actions early ran found inside unseen
    rw [interleavedSince_iff early ran found inside after code few, ← (counts_run ran).others, grantsOf_eq found,
      grantsOf_eq after, horizon_of_seen (reachable_clocked early) found unseen,
      horizon_of_seen (reachable_clocked reached) after seen]

def firstInHandler : List (Action Unit) :=
  [.submit .background "inc" 0 false false, .submit .background "inc" 0 false false, .track 0 true, .track 1 true,
    .acquire 0, .acquire 1, .schedule, .enqueue 0, .schedule, .enqueue 1, .schedule, .receiveGrant 0, .invoke 0]

def awaitsSecond : List (Action Unit) :=
  [.yield 0 0, .yieldEvent 0 0, .hear 0 0 none, .schedule, .receiveGrant 1, .invoke 1, .handlerReturned 1 0 (.message ()),
    .finishTracked 1, .report 1, .doneEvent 1, .schedule, .waitReturned 0 0, .resumeEvent 0 0, .schedule, .regrant 0 0]

def recoversFromWait : List (Action Unit) :=
  [.yield 0 0, .yieldEvent 0 0, .hear 0 0 none, .schedule, .recovered 0 1 0]

theorem interleaving_exact_awaits :
    ∃ m m', (machine Unit).run (.start "counter" {} false) firstInHandler = some m ∧
      (machine Unit).run m awaitsSecond = some m' ∧
      m'.interleavedSince (some 0) (m.markTurn (some 0)) = true := by
  refine ⟨_, _, Machine.run_after (by decide +kernel), Machine.run_after (by decide +kernel), ?_⟩
  have early : (machine Unit).Reachable (.start "counter" {} false)
      ((machine Unit).after (.start "counter" {} false) firstInHandler) :=
    ⟨firstInHandler, Machine.run_after (by decide +kernel)⟩
  have told := @interleaving_exact Unit _ 0 _ "counter" {} false
    (early.run (Machine.run_after (by decide +kernel : ((machine Unit).run _ awaitsSecond).isSome = true))) rfl
    ⟨0, by decide +kernel⟩ (by decide +kernel)
  exact (told.mpr (by decide +kernel) _ _ awaitsSecond early (Machine.run_after (by decide +kernel)) rfl
    ⟨0, by decide +kernel⟩ (by decide +kernel)).mpr ⟨1, by decide, by decide +kernel⟩

/-- The handler is back in its own code with its yield outstanding, and the grant of the second goes unnoticed. -/
theorem interleaving_missed :
    ∃ m m' r r', (machine Unit).run (.start "counter" {} false) firstInHandler = some m ∧
      (machine Unit).run m recoversFromWait = some m' ∧
      m.requests[0]? = some r ∧ r.pc = .code 0 ∧ m'.requests[0]? = some r' ∧ r'.pc = .code 0 ∧
      m.grantsOf 1 < m'.grantsOf 1 ∧ m'.interleavedSince (some 0) (m.markTurn (some 0)) = false :=
  ⟨_, _, _, _, Machine.run_after (by decide +kernel), Machine.run_after (by decide +kernel), rfl, by decide +kernel, rfl,
    by decide +kernel, by decide +kernel, by decide +kernel⟩

end Runtime

end Skygo.Actor
