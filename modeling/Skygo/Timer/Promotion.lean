import Skygo.Timer.EngineCalls

/-! The context of a promotion.

`promoteFromRedis` makes a context and cancels it when it returns. The goroutines that it launches for overdue records
look the record up, claim, handle and complete it under that same context, and nothing waits for them.
-/

set_option autoImplicit false

namespace Skygo.Timer

open Semantics
open scoped List

variable {T : Type}

inductive FirePlace where
  /-- Before the critical section of `onDelayTimerFire`. -/
  | started
  | submitting
  | claiming
  | handling
  | completing
  | ended
  deriving DecidableEq

def FirePlace.busy : FirePlace → Bool
  | .started | .ended => false
  | _ => true

structure FireGoroutine where
  timerID : Nat
  place : FirePlace := .started
  deriving DecidableEq

structure Promotion (T : Type) where
  engine : Engine T
  /-- `fireSubmit` is set. -/
  submits : Bool
  now : Int
  /-- The records it has yet to look at. -/
  records : List T
  /-- The record it has put into memory and not yet launched or queued. -/
  launching : Option T := none
  /-- It has returned, and its deferred `cancel` has run. -/
  canceled : Bool := false
  goroutines : List FireGoroutine := []

namespace Promotion

def start (e : Engine T) (submits : Bool) (now : Int) (records : List T) : Promotion T :=
  { engine := e, submits := submits, now := now, records := records }

def goto (s : Promotion T) (g : Nat) (place : FirePlace) : Promotion T :=
  { s with goroutines := s.goroutines.modify g fun goroutine => { goroutine with place := place } }

inductive Action where
  | takeUp
  | launch
  | returns
  | fire (g : Nat)
  | submit (g : Nat)
  /-- `ClaimForProcessing` returned, and whether the timer was claimed. -/
  | claim (g : Nat) (claimed : Bool)
  | handle (g : Nat)
  | complete (g : Nat)
  deriving DecidableEq

def Enabled (s : Promotion T) : Action → Prop
  | .takeUp => s.launching.isNone = true ∧ s.records.isEmpty = false
  | .launch => s.launching.isSome = true
  | .returns => s.launching.isNone = true ∧ s.records.isEmpty = true ∧ s.canceled = false
  | .fire g => At s.goroutines g fun goroutine => goroutine.place = .started
  | .submit g => At s.goroutines g fun goroutine => goroutine.place = .submitting
  | .claim g _ => At s.goroutines g fun goroutine => goroutine.place = .claiming
  | .handle g => At s.goroutines g fun goroutine => goroutine.place = .handling
  | .complete g => At s.goroutines g fun goroutine => goroutine.place = .completing

section Steps

variable (acc : Accessor T)

def launched (e : Engine T) (now : Int) (rec : T) : Engine T :=
  if unixMilli (acc.dueTimeMs rec) < now then { e with fires := e.fires ++ [acc.timerID rec] }
  else e.enqueue acc false rec

def fire (s : Promotion T) (g : Nat) (goroutine : FireGoroutine) : Promotion T :=
  let engine := { s.engine with fires := s.engine.fires.erase goroutine.timerID }
  match s.engine.inMem goroutine.timerID with
  | none => { s with engine := engine }.goto g .ended
  | some _ =>
      { s with engine := engine.onDelayTimerFire acc goroutine.timerID }.goto g
        (if s.submits then .submitting else .claiming)

def next (s : Promotion T) : Action → Promotion T
  | .takeUp =>
    match s.records with
    | [] => s
    | rec :: records =>
        if acc.timerID rec = 0 ∨ (s.engine.byTask (acc.taskID rec)).isSome = true then { s with records := records }
        else { s with engine := s.engine.remember acc rec, records := records, launching := some rec }
  | .launch =>
    match s.launching with
    | none => s
    | some rec =>
        { s with
          engine := launched acc s.engine s.now rec
          launching := none
          goroutines := s.goroutines ++
            if unixMilli (acc.dueTimeMs rec) < s.now then [{ timerID := acc.timerID rec }] else [] }
  | .returns => { s with canceled := true }
  | .fire g =>
    match s.goroutines[g]? with
    | none => s
    | some goroutine => s.fire acc g goroutine
  | .submit g => s.goto g .ended
  | .claim g claimed => s.goto g (if claimed then .handling else .ended)
  | .handle g => s.goto g .completing
  | .complete g => s.goto g .ended

def machine : Machine (Promotion T) Action where
  Enabled := Enabled
  next := next acc
  decideEnabled s a := by
    cases a <;> unfold Enabled <;> infer_instance

end Steps

/-- Nothing is submitted, claimed, handled or completed under a canceled context. -/
def Live (s : Promotion T) : Prop := s.canceled = true → ∀ goroutine ∈ s.goroutines, goroutine.place.busy = false

variable {acc : Accessor T} {s t : Promotion T} {e : Engine T} {now : Int} {rec : T} {records : List T}

theorem promoteRecord_eq : (e.promoteRecord acc now rec).1 =
    if acc.timerID rec = 0 ∨ (e.byTask (acc.taskID rec)).isSome = true then e
    else launched acc (e.remember acc rec) now rec := by
  unfold Engine.promoteRecord launched
  split_ifs <;> first | rfl | tauto

theorem promoteRecords_cons : (e.promoteRecords acc now (rec :: records)).1 =
    ((e.promoteRecord acc now rec).1.promoteRecords acc now records).1 := rfl

theorem fires_launched : e.fires <+: (launched acc e now rec).fires := by
  unfold launched
  split
  · exact List.prefix_append ..
  · exact List.prefix_rfl

theorem fires_promoteRecord : e.fires <+: (e.promoteRecord acc now rec).1.fires := by
  rw [promoteRecord_eq]
  split
  · exact List.prefix_rfl
  · exact fires_launched (e := e.remember acc rec)

theorem fires_promoteRecords : e.fires <+: (e.promoteRecords acc now records).1.fires := by
  induction records generalizing e with
  | nil => exact List.prefix_rfl
  | cons rec records ih =>
    rw [promoteRecords_cons]
    exact fires_promoteRecord.trans ih

/-- The promotion takes the record up: it has a timer, its task has none, and no record before it with a timer is of
the same task. -/
structure TakesUp (acc : Accessor T) (e : Engine T) (earlier : List T) (rec : T) : Prop where
  timer : acc.timerID rec ≠ 0
  unknown : e.byTask (acc.taskID rec) = none
  first : ∀ other ∈ earlier, acc.timerID other ≠ 0 → acc.taskID other ≠ acc.taskID rec

theorem takesUp_cons {earlier : List T} {other : T} :
    TakesUp acc (e.promoteRecord acc now rec).1 earlier other ↔ TakesUp acc e (rec :: earlier) other := by
  rw [promoteRecord_eq]
  by_cases skipped : acc.timerID rec = 0 ∨ (e.byTask (acc.taskID rec)).isSome = true
  · rw [if_pos skipped]
    constructor
    · rintro ⟨timer, unknown, first⟩
      refine ⟨timer, unknown, fun before member held => ?_⟩
      rcases List.mem_cons.mp member with rfl | member
      · intro same
        rw [same, unknown] at skipped
        exact skipped.elim held (by simp)
      · exact first before member held
    · rintro ⟨timer, unknown, first⟩
      exact ⟨timer, unknown, fun before member => first before (List.mem_cons_of_mem _ member)⟩
  · rw [if_neg skipped]
    rw [not_or] at skipped
    have byTask : (launched acc (e.remember acc rec) now rec).byTask =
        Function.update e.byTask (acc.taskID rec) (some (acc.timerID rec)) := by
      unfold launched
      split <;> rfl
    constructor
    · rintro ⟨timer, unknown, first⟩
      rw [byTask, Function.update_apply] at unknown
      split at unknown
      · cases unknown
      · next apart =>
        refine ⟨timer, unknown, fun before member held => ?_⟩
        rcases List.mem_cons.mp member with rfl | member
        · exact Ne.symm apart
        · exact first before member held
    · rintro ⟨timer, unknown, first⟩
      refine ⟨timer, ?_, fun before member => first before (List.mem_cons_of_mem _ member)⟩
      rw [byTask, Function.update_of_ne (Ne.symm (first rec List.mem_cons_self skipped.1))]
      exact unknown

theorem fires_promoteRecord_iff : (e.promoteRecord acc now rec).1.fires = e.fires ↔
    (TakesUp acc e [] rec → now ≤ unixMilli (acc.dueTimeMs rec)) := by
  rw [promoteRecord_eq]
  split
  · next skipped =>
    refine ⟨fun _ takes => ?_, fun _ => rfl⟩
    rcases skipped with zero | known
    · exact absurd zero takes.timer
    · rw [takes.unknown] at known
      cases known
  · next takes =>
    rw [not_or, Bool.not_eq_true, Option.isSome_eq_false_iff, Option.isNone_iff_eq_none] at takes
    have up : TakesUp acc e [] rec := ⟨takes.1, takes.2, fun _ member => by cases member⟩
    unfold launched
    split
    · next overdue =>
      refine ⟨fun same => ?_, fun future => absurd overdue (not_lt.mpr (future up))⟩
      simp [Engine.remember] at same
    · next future => exact ⟨fun _ _ => not_lt.mp future, fun _ => rfl⟩

/-- No goroutine is launched exactly if no record that is taken up is overdue. -/
theorem fires_promoteRecords_iff : (e.promoteRecords acc now records).1.fires = e.fires ↔
    ∀ earlier rec later, records = earlier ++ rec :: later → TakesUp acc e earlier rec →
      now ≤ unixMilli (acc.dueTimeMs rec) := by
  induction records generalizing e with
  | nil => simp [Engine.promoteRecords]
  | cons head records ih =>
    have split : ((e.promoteRecord acc now head).1.promoteRecords acc now records).1.fires = e.fires ↔
        (e.promoteRecord acc now head).1.fires = e.fires ∧
          ((e.promoteRecord acc now head).1.promoteRecords acc now records).1.fires =
            (e.promoteRecord acc now head).1.fires := by
      refine ⟨fun same => ?_, fun both => both.2.trans both.1⟩
      have first : (e.promoteRecord acc now head).1.fires = e.fires := by
        refine (fires_promoteRecord.eq_of_length_le ?_).symm
        rw [← same]
        exact fires_promoteRecords.length_le
      exact ⟨first, same.trans first.symm⟩
    rw [promoteRecords_cons, split, ih, fires_promoteRecord_iff]
    constructor
    · rintro ⟨first, rest⟩ earlier rec later parts takes
      rcases List.cons_eq_append_iff.mp parts with ⟨rfl, same⟩ | ⟨earlier, rfl, same⟩
      · cases same
        exact first takes
      · exact rest earlier rec later same (takesUp_cons.mpr takes)
    · intro all
      refine ⟨all [] head records rfl, fun earlier rec later parts takes => ?_⟩
      exact all (head :: earlier) rec later (by rw [parts]; rfl) (takesUp_cons.mp takes)

def ahead (acc : Accessor T) (s : Promotion T) : Engine T :=
  match s.launching with
  | none => (s.engine.promoteRecords acc s.now s.records).1
  | some rec => ((launched acc s.engine s.now rec).promoteRecords acc s.now s.records).1

theorem ahead_takeUp (enabled : s.Enabled .takeUp) : (s.next acc .takeUp).ahead acc = s.ahead acc := by
  obtain ⟨idle, more⟩ := enabled
  rw [Option.isNone_iff_eq_none] at idle
  cases records : s.records with
  | nil => simp [records] at more
  | cons rec records_ =>
    by_cases skipped : acc.timerID rec = 0 ∨ (s.engine.byTask (acc.taskID rec)).isSome = true
    · simp only [next, ahead, records, idle, promoteRecords_cons, promoteRecord_eq, if_pos skipped]
    · simp only [next, ahead, records, idle, promoteRecords_cons, promoteRecord_eq, if_neg skipped]

theorem ahead_launch (enabled : s.Enabled .launch) : (s.next acc .launch).ahead acc = s.ahead acc := by
  obtain ⟨rec, held⟩ := Option.isSome_iff_exists.mp enabled
  simp [next, ahead, held]

structure Calm (acc : Accessor T) (s : Promotion T) : Prop where
  none : s.goroutines = []
  rest : (s.ahead acc).fires = s.engine.fires

theorem calm_next {a : Action} (calm : s.Calm acc) (enabled : s.Enabled a) : (s.next acc a).Calm acc := by
  have nobody {g : Nat} {p : FireGoroutine → Prop} (here : At s.goroutines g p) : False := by
    rw [calm.none] at here
    exact here
  cases a with
  | takeUp =>
    have fires : (s.next acc .takeUp).engine.fires = s.engine.fires ∧ (s.next acc .takeUp).goroutines = s.goroutines := by
      dsimp only [next]
      repeat' split
      all_goals exact ⟨rfl, rfl⟩
    exact ⟨fires.2.trans calm.none, by rw [ahead_takeUp enabled, fires.1, calm.rest]⟩
  | launch =>
    obtain ⟨rec, held⟩ := Option.isSome_iff_exists.mp enabled
    have rest := calm.rest
    rw [← ahead_launch enabled] at rest
    have grown : (s.next acc .launch).engine.fires <+: ((s.next acc .launch).ahead acc).fires := by
      rw [ahead_launch enabled]
      simp only [ahead, held, next]
      exact fires_promoteRecords
    rw [rest] at grown
    -- an overdue record would be one more
    have future : ¬ unixMilli (acc.dueTimeMs rec) < s.now := by
      intro overdue
      have longer := grown.length_le
      simp only [next, held, launched, if_pos overdue, List.length_append, List.length_singleton] at longer
      omega
    refine ⟨?_, ?_⟩
    · simp [next, held, future, calm.none]
    · rw [rest]
      simp [next, held, launched, future, Engine.enqueue]
  | returns => exact ⟨calm.none, calm.rest⟩
  | fire g => exact (nobody enabled).elim
  | submit g => exact (nobody enabled).elim
  | claim g claimed => exact (nobody enabled).elim
  | handle g => exact (nobody enabled).elim
  | complete g => exact (nobody enabled).elim

structure Armed (s : Promotion T) : Prop where
  idle : s.launching = none
  running : s.canceled = false
  started : ∀ goroutine ∈ s.goroutines, goroutine.place = .started ∧ (s.engine.inMem goroutine.timerID).isSome = true

theorem Armed.remember (armed : s.Armed) (rec : T) {goroutine : FireGoroutine} (member : goroutine ∈ s.goroutines) :
    goroutine.place = .started ∧ ((s.engine.remember acc rec).inMem goroutine.timerID).isSome = true := by
  obtain ⟨started, held⟩ := armed.started goroutine member
  refine ⟨started, ?_⟩
  simp only [Engine.remember, Function.update_apply]
  split
  · rfl
  · exact held

theorem Armed.promotes (acc : Accessor T) (armed : s.Armed) (found : s.records = rec :: records) :
    ∃ t, (machine acc).Reachable s t ∧ t.Armed ∧ t.records = records ∧ t.now = s.now ∧ t.submits = s.submits ∧
      t.engine = (s.engine.promoteRecord acc s.now rec).1 ∧
      ∃ fresh, t.goroutines = s.goroutines ++ fresh ∧
        t.engine.fires = s.engine.fires ++ fresh.map FireGoroutine.timerID := by
  have enabled : (machine acc).Enabled s .takeUp := ⟨by rw [armed.idle]; rfl, by rw [found]; rfl⟩
  have taken := (Machine.Reachable.refl s).next enabled
  rw [promoteRecord_eq]
  by_cases skipped : acc.timerID rec = 0 ∨ (s.engine.byTask (acc.taskID rec)).isSome = true
  · refine ⟨{ s with records := records }, ?_, ⟨armed.idle, armed.running, armed.started⟩, rfl, rfl, rfl, ?_, [], ?_, ?_⟩
    · simpa only [machine, next, found, if_pos skipped] using taken
    · rw [if_pos skipped]
    · rw [List.append_nil]
    · rw [List.map_nil, List.append_nil]
  · rw [if_neg skipped]
    have held : ((machine acc).next s .takeUp) =
        { s with engine := s.engine.remember acc rec, records := records, launching := some rec } := by
      simp only [machine, next, found, if_neg skipped]
    rw [held] at taken
    have launched_ := taken.next (show (machine acc).Enabled _ .launch from rfl)
    refine ⟨_, launched_, ⟨rfl, armed.running, ?_⟩, rfl, rfl, rfl, rfl, _, rfl, ?_⟩
    · intro goroutine member
      have kept : (launched acc (s.engine.remember acc rec) s.now rec).inMem = (s.engine.remember acc rec).inMem := by
        unfold launched
        split <;> rfl
      show goroutine.place = .started ∧
        ((launched acc (s.engine.remember acc rec) s.now rec).inMem goroutine.timerID).isSome = true
      rw [kept]
      rcases List.mem_append.mp member with old | fresh
      · exact armed.remember rec old
      · split at fresh
        · obtain rfl := List.mem_singleton.mp fresh
          exact ⟨rfl, by simp [Engine.remember]⟩
        · cases fresh
    · show (launched acc (s.engine.remember acc rec) s.now rec).fires = _
      unfold launched
      split
      · rfl
      · simp [Engine.enqueue, Engine.remember]

theorem Armed.sweeps (acc : Accessor T) (armed : s.Armed) (found : s.records = records) :
    ∃ t, (machine acc).Reachable s t ∧ t.Armed ∧ t.records = [] ∧ t.submits = s.submits ∧
      ∃ fresh, t.goroutines = s.goroutines ++ fresh ∧
        (s.engine.promoteRecords acc s.now records).1.fires =
          s.engine.fires ++ fresh.map FireGoroutine.timerID := by
  induction records generalizing s with
  | nil => exact ⟨s, .refl s, armed, found, rfl, [], by simp, by simp [Engine.promoteRecords]⟩
  | cons rec records ih =>
    obtain ⟨u, first, between, rest, clock, submits, engine, early, launched, fires⟩ := armed.promotes acc found
    obtain ⟨t, second, after, done, same, late, more, all⟩ := ih between rest
    refine ⟨t, first.trans second, after, done, same.trans submits, early ++ late, ?_, ?_⟩
    · rw [more, launched, List.append_assoc]
    · rw [promoteRecords_cons, ← engine, ← clock, all, fires, List.map_append, List.append_assoc]

theorem fire_next (acc : Accessor T) {g : Nat} {goroutine : FireGoroutine} {task : T} (found : s.goroutines[g]? = some goroutine)
    (held : s.engine.inMem goroutine.timerID = some task) :
    (s.next acc (.fire g)).canceled = s.canceled ∧
      (s.next acc (.fire g)).goroutines[g]? =
        some { goroutine with place := if s.submits then .submitting else .claiming } := by
  simp only [next, found, fire, held]
  exact ⟨rfl, lookup_modify_self found⟩

/-- The context of a promotion is live in every interleaving exactly if no record that it takes up is overdue. -/
theorem promotion_context (acc : Accessor T) (e : Engine T) (submits : Bool) (now : Int) (records : List T) :
    (∀ s, (machine acc).Reachable (start e submits now records) s → s.Live) ↔
      ∀ earlier rec later, records = earlier ++ rec :: later → TakesUp acc e earlier rec →
        now ≤ unixMilli (acc.dueTimeMs rec) := by
  rw [← fires_promoteRecords_iff]
  constructor
  · intro live
    by_contra launches
    obtain ⟨t, reach, armed, done, _, fresh, goroutines, fires⟩ :=
      Armed.sweeps acc (s := start e submits now records) ⟨rfl, rfl, fun _ member => by cases member⟩ rfl
    cases fresh with
    | nil => exact launches (fires.trans (List.append_nil _))
    | cons goroutine fresh =>
      -- it returns, and the first goroutine runs
      have first : t.goroutines[0]? = some goroutine := by rw [goroutines]; rfl
      obtain ⟨started, held⟩ := armed.started goroutine (List.mem_of_getElem? first)
      obtain ⟨task, found⟩ := Option.isSome_iff_exists.mp held
      have returned := reach.next (show (machine acc).Enabled t .returns from
        ⟨by rw [armed.idle]; rfl, by rw [done]; rfl, armed.running⟩)
      have runs := returned.next (show (machine acc).Enabled _ (.fire 0) from at_iff.mpr ⟨goroutine, first, started⟩)
      obtain ⟨canceled, busy⟩ := fire_next acc (s := t.next acc .returns) first found
      have idle := live _ runs canceled _ (List.mem_of_getElem? busy)
      dsimp only at idle
      split at idle <;> cases idle
  · intro none s reach
    have calm : s.Calm acc := reach.invariant ⟨rfl, none⟩ fun _ _ calm enabled => calm_next calm enabled
    intro _ goroutine member
    rw [calm.none] at member
    cases member

def returnsFirst : List Action := [.takeUp, .launch, .returns, .fire 0]

/-- It has taken the record out of memory and claims it under the canceled context. -/
theorem promotion_context_canceled :
    ∃ s, (machine Engine.plain).run (start (Engine.new true 0) false 2000000 [⟨7, 70, 1, 1⟩]) returnsFirst = some s ∧
      s.canceled = true ∧ s.goroutines = [⟨70, .claiming⟩] ∧ s.engine.inMem 70 = none :=
  ⟨_, Machine.run_after (by decide +kernel), by decide +kernel, by decide +kernel, by decide +kernel⟩

attribute [grind] start goto Enabled launched fire next Live ahead

end Promotion

attribute [grind] FirePlace.busy

end Skygo.Timer
