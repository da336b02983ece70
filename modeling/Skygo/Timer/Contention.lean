import Mathlib.Data.Finset.Option
import Skygo.Semantics.Serial
import Skygo.Timer.AddFailure
import Skygo.Timer.Race

/-! `Add`s of one business that run at once.

Each reads the index, drops the timer it found there, and writes its own. Two that read the same
value drop the same timer, and neither drops the other's. One timer of the business is left
if no `Add` reads the index between the read of another and its end.
-/

set_option autoImplicit false

namespace Skygo.Timer.Queue

open Semantics Redis Program Ledger
open scoped List

variable {T V : Type}

def readsIndex : Nat × Command V → Bool
  | (_, .hgetIndex _) => true
  | _ => false

def contenders (codec : Codec T V) (store : Store V) (uid : Nat) (recs : List T) : Processes T V :=
  Pool.ready (Activity.code codec) store (recs.map fun rec => .call (.add uid rec))

structure Leads (codec : Codec T V) (businessID : String) (rec : T) (l : Ledger V) : Prop where
  pending : codec.timerID rec ∈ l.zset .pending
  row : l.data (codec.timerID rec) = codec.marshal (codec.markPending rec)
  index : l.index.lookup businessID = some (codec.timerID rec)

def Sole (codec : Codec T V) (businessID : String) (before : Option Nat) (recs : List T) (l : Ledger V) : Prop :=
  ∃ rec ∈ recs, Leads codec businessID rec l ∧
    ∀ id, before = some id ∨ id ∈ recs.map codec.timerID → id ≠ codec.timerID rec → id ∉ l.zset .pending ∧ l.data id = none

def plan (w : Addition V) (old : Option Nat) : List (Command V) :=
  ((old.filter fun oldTimerID => oldTimerID ≠ w.timerID).map dropOld).getD [] ++
    writes w.timerID w.businessID w.dueTimeMs w.data

theorem plan_reads (w : Addition V) (old : Option Nat) (uid : Nat) : ∀ c ∈ plan w old, readsIndex (uid, c) = false := by
  intro c sent
  rcases List.mem_append.mp sent with drop | write
  · cases kept : old.filter fun oldTimerID => oldTimerID ≠ w.timerID with
    | none =>
      rw [kept] at drop
      cases drop
    | some oldTimerID =>
      simp only [kept, Option.map_some, Option.getD_some, dropOld, List.mem_cons, List.not_mem_nil, or_false] at drop
      rcases drop with rfl | rfl | rfl | rfl <;> rfl
  · unfold writes at write
    split at write <;> simp at write <;> rcases write with rfl | rfl | rfl | rfl <;> rfl

theorem code_add {codec : Codec T V} {uid : Nat} {rec : T} {data : V}
    (written : codec.marshal (codec.markPending rec) = some data) (named : codec.businessID rec ≠ "") :
    (Activity.call (.add uid rec)).code codec =
      .issue (uid, .hgetIndex (codec.businessID rec)) fun old =>
        sequence ((plan (addition codec uid rec data) old).map (Prod.mk uid)) := by
  show onUser uid (add codec rec) = _
  unfold add replaceOld writeRecord
  rw [written]
  simp only [named, if_false]
  show Program.issue _ _ = _
  congr 1
  funext old
  have sent : writes (codec.timerID rec) (codec.businessID rec) (codec.dueTimeMs (codec.markPending rec)) data =
      [.zadd .pending (codec.dueTimeMs (codec.markPending rec)) (codec.timerID rec), .zrem .processing (codec.timerID rec),
        .hsetData (codec.timerID rec) data, .hsetIndex (codec.businessID rec) (codec.timerID rec)] := by
    simp [writes, named]
  cases old with
  | none =>
    simp only [plan, addition, sent]
    rfl
  | some old =>
    simp only [plan, addition, sent, Option.filter_some, Program.bind]
    by_cases same : old = codec.timerID rec
    · simp only [same, ne_eq, not_true_eq_false, decide_false, Bool.false_eq_true, if_false, if_true]
      rfl
    · simp only [same, ne_eq, not_false_eq_true, decide_true, if_true, if_false]
      rfl

section Whole

variable {codec : Codec T V} {l l' : Ledger V} {rec : T} {data : V} {businessID : String} {uid : Nat}

structure Replaces (businessID : String) (timerID : Nat) (data : V) (l l' : Ledger V) : Prop where
  index : l'.index.lookup businessID = some timerID
  pending : timerID ∈ l'.zset .pending
  row : l'.data timerID = some data
  gone : ∀ id, id ≠ timerID → l.index.lookup businessID = some id → id ∉ l'.zset .pending ∧ l'.data id = none
  kept : ∀ id, id ≠ timerID → l.index.lookup businessID ≠ some id →
    (id ∈ l'.zset .pending ↔ id ∈ l.zset .pending) ∧ l'.data id = l.data id

theorem replaced_eq_some {timerID old : Nat} (named : businessID ≠ "") :
    replaced l timerID businessID = some old ↔ l.index.lookup businessID = some old ∧ old ≠ timerID := by
  rw [replaced, if_neg named, Option.filter_eq_some_iff]
  simp

theorem replaces_add (written : codec.marshal (codec.markPending rec) = some data) (named : codec.businessID rec ≠ "") :
    Replaces (codec.businessID rec) (codec.timerID rec) data l ((add codec rec).run (exec codec.fields) l).1 := by
  rw [run_add_pipelines written]
  have sheds : Sheds (replaced l (codec.timerID rec) (codec.businessID rec)) l
      (pipeline (exec codec.fields) l (drops l (codec.timerID rec) (codec.businessID rec))) := sheds_drops (.refl _) l
  have wrote := @writes_part T V codec data (codec.businessID rec) (codec.timerID rec)
    (codec.dueTimeMs (codec.markPending rec)) _ (.refl _)
    (pipeline (exec codec.fields) l (drops l (codec.timerID rec) (codec.businessID rec)))
  refine ⟨?_, ?_, ?_, fun id other indexed => ?_, fun id other apart => ?_⟩
  · simp [writes, named, pipeline, exec, Hash.lookup_hset]
  · simp [writes, named, pipeline, exec]
  · simp [writes, named, pipeline, exec]
  · have is : replaced l (codec.timerID rec) (codec.businessID rec) = some id := (replaced_eq_some named).mpr ⟨indexed, other⟩
    rw [wrote.kept _ id other, wrote.same id other]
    refine ⟨dropped_gone is _, ?_⟩
    simp [drops, is, dropOld, pipeline, exec]
  · have spared : replaced l (codec.timerID rec) (codec.businessID rec) ≠ some id := fun is =>
      apart ((replaced_eq_some named).mp is).1
    exact ⟨(wrote.kept _ id other).trans (sheds.kept _ id spared), (wrote.same id other).trans (sheds.same id spared)⟩

def Others (businessID : String) (timers : Nat → Prop) (l : Ledger V) : Prop :=
  ∀ id, timers id → l.index.lookup businessID ≠ some id → id ∉ l.zset .pending ∧ l.data id = none

theorem Others.replaces {timers : Nat → Prop} {timerID : Nat} (others : Others businessID timers l)
    (replaces : Replaces businessID timerID data l l') :
    Others businessID (fun id => timers id ∨ id = timerID) l' := by
  intro id known apart
  rw [replaces.index] at apart
  have other : id ≠ timerID := fun same => apart (congrArg some same.symm)
  have known := known.resolve_right other
  by_cases indexed : l.index.lookup businessID = some id
  · exact replaces.gone id other indexed
  · obtain ⟨pending, row⟩ := replaces.kept id other indexed
    rw [pending, row]
    exact others id known indexed

theorem run_code_add (codec : Codec T V) (s : Store V) (uid : Nat) (rec : T) :
    (((Activity.call (.add uid rec)).code codec).run (Store.exec codec) s).1 uid =
      ((add codec rec).run (exec codec.fields) (s uid)).1 := by
  show (((add codec rec).tag uid >>= fun _ => pure ()).run (execAt (exec codec.fields)) s).1 uid = _
  rw [run_bind, run_tag]
  exact Function.update_self ..

theorem sequential_adds {recs : List T} (written : ∀ rec ∈ recs, (codec.marshal (codec.markPending rec)).isSome = true)
    (named : businessID ≠ "") (same : ∀ rec ∈ recs, codec.businessID rec = businessID) {order : List (Activity T)}
    (each : ∀ op ∈ order, ∃ rec ∈ recs, op = .call (.add uid rec)) {s : Store V} {timers : Nat → Prop}
    (others : Others businessID timers (s uid)) (led : order = [] → ∃ rec ∈ recs, Leads codec businessID rec (s uid)) :
    (∃ rec ∈ recs, Leads codec businessID rec (Pool.sequential (Store.exec codec) (Activity.code codec) s order uid)) ∧
      Others businessID (fun id => timers id ∨ ∃ rec, .call (.add uid rec) ∈ order ∧ codec.timerID rec = id)
        (Pool.sequential (Store.exec codec) (Activity.code codec) s order uid) := by
  induction order generalizing s timers with
  | nil => exact ⟨led rfl, fun id known => others id (known.resolve_right fun ⟨_, member, _⟩ => by cases member)⟩
  | cons op rest ih =>
    obtain ⟨rec, member, rfl⟩ := each op List.mem_cons_self
    obtain ⟨data, marshals⟩ := Option.isSome_iff_exists.mp (written rec member)
    have business := same rec member
    have replaces := replaces_add (l := s uid) marshals (business ▸ named)
    rw [← run_code_add, business] at replaces
    have leads : Leads codec businessID rec (((Activity.code codec (.call (.add uid rec))).run (Store.exec codec) s).1 uid) :=
      ⟨replaces.pending, replaces.row.trans marshals.symm, replaces.index⟩
    obtain ⟨last, gone⟩ := ih (fun op later => each op (List.mem_cons_of_mem _ later)) (others.replaces replaces)
      fun _ => ⟨rec, member, leads⟩
    refine ⟨last, fun id known => gone id ?_⟩
    rcases known with known | ⟨other, added, rfl⟩
    · exact .inl (.inl known)
    · rcases List.mem_cons.mp added with first | later
      · cases first
        exact .inl (.inr rfl)
      · exact .inr ⟨other, later, rfl⟩

theorem opens_add (written : codec.marshal (codec.markPending rec) = some data) (named : codec.businessID rec ≠ "") :
    ((Activity.call (.add uid rec)).code codec).Opens readsIndex := by
  rw [code_add written named]
  refine ⟨rfl, fun old => only_sequence fun c member => ?_⟩
  obtain ⟨c, sent, rfl⟩ := List.mem_map.mp member
  exact plan_reads _ _ _ c sent

end Whole

/-- `Add`s of one business that run at once leave one timer of it if no `Add` reads the index between the read of another
and its end. -/
theorem adds_keep_one (codec : Codec T V) (store : Store V) (uid : Nat) (businessID : String) (recs : List T)
    (nonempty : recs ≠ []) (named : businessID ≠ "") (same : ∀ rec ∈ recs, codec.businessID rec = businessID)
    (written : ∀ rec ∈ recs, (codec.marshal (codec.markPending rec)).isSome = true) (schedule : List Nat)
    (p : Processes T V) (ran : (processes codec).run (contenders codec store uid recs) (schedule.map .step) = some p)
    (completed : ∀ call ∈ p.calls, call.finished = true)
    (serial : (processes codec).Meets (Pool.Serial readsIndex) (contenders codec store uid recs) (schedule.map .step)) :
    Sole codec businessID ((store uid).index.lookup businessID) recs (p.store uid) := by
  have openers : ∀ op ∈ recs.map fun rec => Activity.call (.add uid rec), (op.code codec).Opens readsIndex := by
    intro op member
    obtain ⟨rec, inside, rfl⟩ := List.mem_map.mp member
    obtain ⟨data, marshals⟩ := Option.isSome_iff_exists.mp (written rec inside)
    exact opens_add marshals (same rec inside ▸ named)
  obtain ⟨order, perm, whole⟩ := Pool.serial_sequential openers ran serial completed
  have each (op : Activity T) (member : op ∈ order) : ∃ rec ∈ recs, op = .call (.add uid rec) := by
    obtain ⟨rec, inside, rfl⟩ := List.mem_map.mp (perm.mem_iff.mp member)
    exact ⟨rec, inside, rfl⟩
  have start : Others businessID (fun id => (store uid).index.lookup businessID = some id) (store uid) :=
    fun id is apart => absurd is apart
  obtain ⟨⟨rec, member, leads⟩, others⟩ := sequential_adds written named same each start fun none => by
    subst none
    exact absurd (List.map_eq_nil_iff.mp perm.nil_eq.symm) nonempty
  rw [← whole] at leads others
  refine ⟨rec, member, leads, fun id known apart => others id ?_ ?_⟩
  · refine known.imp_right fun added => ?_
    obtain ⟨other, inside, is⟩ := List.mem_map.mp added
    exact ⟨other, perm.mem_iff.mpr (List.mem_map_of_mem inside), is⟩
  · rw [leads.index]
    exact fun is => apart (Option.some.inj is).symm

def twoTimers : List Row := [⟨7, "raid", 1000, false⟩, ⟨8, "raid", 2000, false⟩]

/-- One `Add` after the other. -/
theorem adds_keep_one_serial :
    Sole rows "raid" none twoTimers (((processes rows).after (contenders rows (fun _ => {}) 1 twoTimers)
      ((List.replicate 5 0 ++ List.replicate 9 1).map .step)).store 1) :=
  adds_keep_one rows (fun _ => {}) 1 "raid" twoTimers (by decide) (by decide) (by decide) (by decide)
    (List.replicate 5 0 ++ List.replicate 9 1) _ (Machine.run_after (by decide +kernel)) (by decide +kernel)
    (by decide +kernel)

/-- Both `Add`s find no timer in the index, and both timers stay. -/
theorem adds_keep_two :
    ∃ p, (processes rows).run (contenders rows (fun _ => {}) 1 twoTimers)
        (([0, 1] ++ List.replicate 4 0 ++ List.replicate 4 1).map .step) = some p ∧
      (∀ call ∈ p.calls, call.finished = true) ∧ 7 ∈ (p.store 1).zset .pending ∧ 8 ∈ (p.store 1).zset .pending ∧
      ((p.store 1).data 7).isSome = true ∧ (p.store 1).index.lookup "raid" = some 8 := by
  refine ⟨_, Machine.run_after (by decide +kernel), ?_⟩
  decide +kernel

end Skygo.Timer.Queue
