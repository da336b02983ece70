import Skygo.Timer.LedgerSound

/-! An `Add` that does not come to its end.

It sends two pipelines, and neither is a transaction: when the connection breaks or the process crashes a part of the
commands may have been executed, and a command that Redis refuses does not keep it from executing the others.
-/

set_option autoImplicit false

attribute [-instance] instBooleanRingBool

namespace Skygo.Timer

open Semantics Redis Ledger Program
open scoped List

variable {T V : Type}

namespace Queue

def dropOld (oldTimerID : Nat) : List (Command V) :=
  [.zrem .pending oldTimerID, .zrem .processing oldTimerID, .hdelData oldTimerID, .hdelClaim oldTimerID]

def replaced (l : Ledger V) (timerID : Nat) (businessID : String) : Option Nat :=
  if businessID = "" then none else (l.index.lookup businessID).filter fun oldTimerID => oldTimerID ≠ timerID

def drops (l : Ledger V) (timerID : Nat) (businessID : String) : List (Command V) :=
  ((replaced l timerID businessID).map dropOld).getD []

def writes (timerID : Nat) (businessID : String) (dueTimeMs : Int) (data : V) : List (Command V) :=
  [.zadd .pending dueTimeMs timerID, .zrem .processing timerID, .hsetData timerID data] ++
    if businessID = "" then [] else [.hsetIndex businessID timerID]

section Whole

variable {codec : Codec T V} {l : Ledger V} {rec : T} {data : V}

theorem run_replaceOld_drops (timerID : Nat) (businessID : String) :
    ((replaceOld timerID businessID).run (exec codec.fields) l).1 =
      pipeline (exec codec.fields) l (drops l timerID businessID) := by
  unfold replaceOld drops replaced
  split
  · rfl
  · rw [run_bind, run_redis]
    simp only [exec]
    cases l.index.lookup businessID with
    | none => rfl
    | some old =>
      by_cases same : old = timerID
      · simp [same, pipeline, Option.filter_some]
      · simp only [same, if_false, Option.filter_some, ne_eq, not_false_eq_true, decide_true, if_true]
        rfl

theorem run_writeRecord_writes (timerID : Nat) (businessID : String) (dueTimeMs : Int) :
    ((writeRecord timerID businessID dueTimeMs data).run (exec codec.fields) l).1 =
      pipeline (exec codec.fields) l (writes timerID businessID dueTimeMs data) := by
  unfold writeRecord writes
  split <;> rfl

theorem run_add_pipelines (written : codec.marshal (codec.markPending rec) = some data) :
    ((add codec rec).run (exec codec.fields) l).1 = pipeline (exec codec.fields)
      (pipeline (exec codec.fields) l (drops l (codec.timerID rec) (codec.businessID rec)))
      (writes (codec.timerID rec) (codec.businessID rec) (codec.dueTimeMs (codec.markPending rec)) data) := by
  rw [add, written]
  dsimp only
  rw [run_bind, run_bind, run_replaceOld_drops, run_writeRecord_writes]
  rfl

end Whole

/-- The ledgers that an `Add` may leave behind: before the second pipeline a part of the first was executed, or after
the first a part of the second. -/
inductive Interrupted (codec : Codec T V) (rec : T) (data : V) (l : Ledger V) : Ledger V → Prop where
  | dropping {part : List (Command V)} : part <+ drops l (codec.timerID rec) (codec.businessID rec) →
      Interrupted codec rec data l (pipeline (exec codec.fields) l part)
  | writing {part : List (Command V)} :
      part <+ writes (codec.timerID rec) (codec.businessID rec) (codec.dueTimeMs (codec.markPending rec)) data →
      Interrupted codec rec data l (pipeline (exec codec.fields)
        (pipeline (exec codec.fields) l (drops l (codec.timerID rec) (codec.businessID rec))) part)

/-- `LoadActiveByUID` returns a record of the business. -/
def Active (codec : Codec T V) (l : Ledger V) (businessID : String) : Prop :=
  ∃ records, ((loadActive codec).run (exec codec.fields) l).2 = some records ∧
    ∃ rec ∈ records, codec.businessID rec = businessID

section Failure

variable {codec : Codec T V} {l l' : Ledger V} {rec : T} {data : V} {id old : Nat} {businessID : String}

theorem interrupted_add (written : codec.marshal (codec.markPending rec) = some data) :
    Interrupted codec rec data l ((add codec rec).run (exec codec.fields) l).1 := by
  rw [run_add_pipelines written]
  exact .writing (.refl _)

/-- The record that a load returns for the timer. A codec that asks for the business is given the one in the index. -/
def loaded (codec : Codec T V) (l : Ledger V) (id : Nat) : Option T := (l.data id).bind (decode codec l.index id)

theorem decode_businessIDs :
    decode codec ((businessIDsByTimerID codec).run (exec codec.fields) l).2 = decode codec l.index := by
  funext id v
  unfold businessIDsByTimerID decode
  cases codec.keyed <;> rfl

theorem collect_eq_some {index : Hash String Nat} {rows : List (Nat × Option V)} {records : List T} :
    ((collect codec index rows).run (exec codec.fields) l).2 = some records ↔
      (∀ row ∈ rows, ∀ v, row.2 = some v → (decode codec index row.1 v).isSome = true) ∧
        records = rows.filterMap fun row => row.2.bind (decode codec index row.1) := by
  induction rows generalizing l records with
  | nil =>
    simp only [collect, run_pure, Option.some.injEq, List.filterMap_nil, List.not_mem_nil, false_implies, implies_true,
      true_and]
    exact eq_comm
  | cons row rest ih =>
    obtain ⟨id, row⟩ := row
    cases row with
    | none =>
      simp only [collect, run_bind]
      rw [ih]
      simp
    | some v =>
      cases read : decode codec index id v with
      | none => simp [collect, read]
      | some rec =>
        simp only [collect, read, run_bind, run_pure, Option.map_eq_some_iff, ih]
        simp only [List.mem_cons, forall_eq_or_imp, read, List.filterMap_cons, Option.bind_some]
        constructor
        · rintro ⟨_, ⟨readable, rfl⟩, rfl⟩
          exact ⟨⟨fun w is => by cases is; rw [read]; rfl, readable⟩, rfl⟩
        · rintro ⟨⟨_, readable⟩, rfl⟩
          exact ⟨_, ⟨readable, rfl⟩, rfl⟩

theorem loadActive_eq_some {records : List T} :
    ((loadActive codec).run (exec codec.fields) l).2 = some records ↔
      (∀ id ∈ active l, ∀ v, l.data id = some v → (decode codec l.index id v).isSome = true) ∧
        records = (active l).filterMap (loaded codec l) := by
  have loads : ((loadActive codec).run (exec codec.fields) l).2 =
      ((loadByTimerIDs codec (active l)).run (exec codec.fields) l).2 := rfl
  rw [loads, loadByTimerIDs]
  split
  · next empty =>
    simp only [empty, run_pure, Option.some.injEq, List.filterMap_nil, List.not_mem_nil, false_implies, implies_true,
      true_and]
    exact eq_comm
  · rw [run_bind, run_redis, run_bind]
    simp only [exec]
    rw [collect_eq_some, ← List.map_prod_left_eq_zip, decode_businessIDs]
    simp only [List.forall_mem_map, List.filterMap_map]
    rfl

def Lists (l : Ledger V) (id : Nat) : Prop := id ∈ l.zset .pending ∨ id ∈ l.zset .processing

/-- The business has a listed row, and every listed row can be read. -/
theorem active_iff : Active codec l businessID ↔
    (∀ id, Lists l id → ∀ v, l.data id = some v → (decode codec l.index id v).isSome = true) ∧
      ∃ id rec, Lists l id ∧ loaded codec l id = some rec ∧ codec.businessID rec = businessID := by
  have listed (id : Nat) : id ∈ active l ↔ Lists l id := by
    rw [active, List.mem_append, SortedSet.mem_zrange, SortedSet.mem_zrange, Lists]
  simp only [Active, loadActive_eq_some, listed]
  constructor
  · rintro ⟨_, ⟨readable, rfl⟩, rec, loads, named⟩
    obtain ⟨id, inside, read⟩ := List.mem_filterMap.mp loads
    exact ⟨readable, id, rec, (listed id).mp inside, read, named⟩
  · rintro ⟨readable, id, rec, inside, read, named⟩
    exact ⟨_, ⟨readable, rfl⟩, rec, List.mem_filterMap.mpr ⟨id, (listed id).mpr inside, read⟩, named⟩

structure Sheds (gone : Option Nat) (l l' : Ledger V) : Prop where
  kept : ∀ key id, gone ≠ some id → (id ∈ l'.zset key ↔ id ∈ l.zset key)
  fewer : ∀ key id, id ∈ l'.zset key → id ∈ l.zset key
  same : ∀ id, gone ≠ some id → l'.data id = l.data id
  rows : ∀ id v, l'.data id = some v → l.data id = some v
  index : l'.index = l.index

theorem sheds_drops {gone : Option Nat} {part : List (Command V)} (sub : part <+ (gone.map dropOld).getD []) (l : Ledger V) :
    Sheds gone l (pipeline (exec codec.fields) l part) := by
  refine pipeline_rel (fun l => ⟨fun _ _ _ => Iff.rfl, fun _ _ => id, fun _ _ => rfl, fun _ _ => id, rfl⟩) ?_ ?_ l
  · intro l m u first second
    exact ⟨fun key id other => (second.kept key id other).trans (first.kept key id other),
      fun key id member => first.fewer key id (second.fewer key id member),
      fun id other => (second.same id other).trans (first.same id other),
      fun id v found => first.rows id v (second.rows id v found), second.index.trans first.index⟩
  · intro c member l
    have sent := sub.subset member
    cases gone with
    | none => cases sent
    | some old =>
      simp only [Option.map_some, Option.getD_some, dropOld, List.mem_cons, List.not_mem_nil, or_false] at sent
      rcases sent with rfl | rfl | rfl | rfl <;>
        exact ⟨by simp only [exec]; grind, by simp only [exec]; grind, by simp only [exec]; grind,
          by simp only [exec]; grind, rfl⟩

theorem sheds_all (codec : Codec T V) (rec : T) (l : Ledger V) : Sheds (replaced l (codec.timerID rec) (codec.businessID rec)) l
    (pipeline (exec codec.fields) l (drops l (codec.timerID rec) (codec.businessID rec))) :=
  sheds_drops (.refl _) l

def Indexes (timerID : Nat) (businessID : String) (index index' : Hash String Nat) : Prop :=
  index' = index ∨ (businessID ≠ "" ∧ index' = index.hset businessID timerID)

structure Writes (timerID : Nat) (businessID : String) (data : V) (l l' : Ledger V) : Prop where
  kept : ∀ key id, id ≠ timerID → (id ∈ l'.zset key ↔ id ∈ l.zset key)
  pending : timerID ∈ l.zset .pending → timerID ∈ l'.zset .pending
  same : ∀ id, id ≠ timerID → l'.data id = l.data id
  row : l'.data timerID = l.data timerID ∨ l'.data timerID = some data
  index : Indexes timerID businessID l.index l'.index

variable {timerID : Nat}

theorem hset_hset {h : Hash String Nat} : (h.hset businessID timerID).hset businessID timerID = h.hset businessID timerID :=
  AList.insert_insert ..

theorem writes_part {dueTimeMs : Int} {part : List (Command V)}
    (sub : part <+ writes timerID businessID dueTimeMs data) (l : Ledger V) :
    Writes timerID businessID data l (pipeline (exec codec.fields) l part) := by
  refine pipeline_rel (fun l => ⟨fun _ _ _ => Iff.rfl, id, fun _ _ => rfl, .inl rfl, .inl rfl⟩) ?_ ?_ l
  · intro l m u first second
    refine ⟨fun key id other => (second.kept key id other).trans (first.kept key id other),
      fun there => second.pending (first.pending there), fun id other => (second.same id other).trans (first.same id other), ?_, ?_⟩
    · rcases second.row with same | fresh
      · rw [same]
        exact first.row
      · exact .inr fresh
    · rcases first.index with before | ⟨named, before⟩ <;> rcases second.index with after | ⟨named, after⟩ <;>
        rw [after, before]
      · exact .inl rfl
      · exact .inr ⟨named, rfl⟩
      · exact .inr ⟨named, rfl⟩
      · exact .inr ⟨named, hset_hset⟩
  · intro c member l
    have sent := sub.subset member
    simp only [writes, List.cons_append, List.nil_append, List.mem_cons] at sent
    rcases sent with rfl | rfl | rfl | sent
    · exact ⟨by simp only [exec]; grind, by simp only [exec]; grind, by simp only [exec]; grind, .inl rfl, .inl rfl⟩
    · exact ⟨by simp only [exec]; grind, by simp only [exec]; grind, by simp only [exec]; grind, .inl rfl, .inl rfl⟩
    · exact ⟨by simp only [exec]; grind, by simp only [exec]; grind, by simp only [exec]; grind, .inr (by simp [exec]),
        .inl rfl⟩
    · split at sent
      · cases sent
      · next named =>
        obtain rfl := List.mem_singleton.mp sent
        exact ⟨fun _ _ _ => Iff.rfl, id, fun _ _ => rfl, .inl rfl, .inr ⟨named, rfl⟩⟩

theorem find_kerase {p : (_ : String) × Nat → Bool} {entries : List ((_ : String) × Nat)}
    (apart : ∀ value, ⟨businessID, value⟩ ∈ entries → p ⟨businessID, value⟩ = false) :
    (entries.kerase businessID).find? p = entries.find? p := by
  induction entries with
  | nil => rfl
  | cons entry rest ih =>
    obtain ⟨field, value⟩ := entry
    by_cases here : field = businessID
    · subst here
      have erased : (⟨field, value⟩ :: rest).kerase field = rest := List.kerase_cons_eq rfl
      rw [erased, List.find?_cons_of_neg (by simp [apart value List.mem_cons_self])]
    · rw [List.kerase_cons_ne (Ne.symm here), List.find?_cons, List.find?_cons,
        ih fun value member => apart value (List.mem_cons_of_mem _ member)]

theorem businessIDOf_hset {h : Hash String Nat} (apart : id ≠ timerID) (unlisted : h.lookup businessID ≠ some id) :
    businessIDOf (h.hset businessID timerID) id = businessIDOf h id := by
  have entries : (h.hset businessID timerID).entries = ⟨businessID, timerID⟩ :: h.entries.kerase businessID :=
    AList.entries_insert ..
  unfold businessIDOf
  rw [entries, List.find?_cons_of_neg (by simpa using Ne.symm apart), find_kerase]
  intro value member
  have other : value ≠ id := by
    rintro rfl
    exact unlisted (AList.mem_lookup_iff.mpr member)
  simpa using other

theorem decode_other {index : Hash String Nat} (apart : id ≠ timerID) (kept : replaced l timerID businessID ≠ some id)
    (indexes : Indexes timerID businessID l.index index) : decode codec index id = decode codec l.index id := by
  rcases indexes with rfl | ⟨named, rfl⟩
  · rfl
  · have unlisted : l.index.lookup businessID ≠ some id := by
      intro lies
      apply kept
      simp [replaced, named, lies, Option.filter_some, apart]
    funext v
    unfold decode
    split
    · rw [businessIDOf_hset apart unlisted]
    · rfl

theorem replaced_ne : replaced l id businessID ≠ some id := by
  unfold replaced
  split
  · exact nofun
  · intro is
    simp [Option.filter_eq_some_iff] at is

theorem dropped_gone (is : replaced l timerID businessID = some old) (key : SetKey) :
    old ∉ (pipeline (exec codec.fields) l (drops l timerID businessID)).zset key := by
  rw [drops, is]
  cases key <;> simp [pipeline, dropOld, exec]

/-- What a load may find of the added timer before the `Add` has come to its end: the row that it had, with the business
in the index as it was or with the timer, or the new row with the index as it was. -/
def Finds (codec : Codec T V) (rec : T) (data : V) (l : Ledger V) (v : V) (index : Hash String Nat) : Prop :=
  (l.data (codec.timerID rec) = some v ∧ Indexes (codec.timerID rec) (codec.businessID rec) l.index index) ∨
    (v = data ∧ index = l.index)

theorem decode_written (written : codec.marshal (codec.markPending rec) = some data) (h : Hash String Nat) :
    decode codec (h.hset (codec.businessID rec) (codec.timerID rec)) (codec.timerID rec) data =
      some (codec.markPending rec) := by
  unfold decode
  split
  · next read keyed =>
    have named : businessIDOf (h.hset (codec.businessID rec) (codec.timerID rec)) (codec.timerID rec) = codec.businessID rec := by
      unfold businessIDOf
      rw [show (h.hset (codec.businessID rec) (codec.timerID rec)).entries = _ from AList.entries_insert ..]
      simp
    have law := codec.keyed_marshal read _ _ keyed written
    rw [codec.timerID_pending, codec.businessID_pending] at law
    rw [named, law]
  · exact codec.unmarshal_marshal _ _ written

/-- A record of the business that no command of the `Add` takes out of the sets. If it is under the added timer, every row
and index that a load may find has to give it this business. -/
structure Survives (codec : Codec T V) (l : Ledger V) (rec : T) (data : V) (id : Nat) : Prop where
  unreplaced : replaced l (codec.timerID rec) (codec.businessID rec) ≠ some id
  listed : id ∈ l.zset .pending ∨ (id ∈ l.zset .processing ∧ id ≠ codec.timerID rec)
  named : ∃ kept, loaded codec l id = some kept ∧ codec.businessID kept = codec.businessID rec
  throughout : id = codec.timerID rec → ∀ v index, Finds codec rec data l v index →
    ∃ read, decode codec index id v = some read ∧ codec.businessID read = codec.businessID rec

structure Partway (codec : Codec T V) (rec : T) (data : V) (l l' : Ledger V) : Prop where
  index : Indexes (codec.timerID rec) (codec.businessID rec) l.index l'.index
  row : ∀ v, l'.data (codec.timerID rec) = some v → l.data (codec.timerID rec) = some v ∨ v = data
  rowed : (l.data (codec.timerID rec)).isSome = true → (l'.data (codec.timerID rec)).isSome = true
  others : ∀ k v, k ≠ codec.timerID rec → Lists l' k → l'.data k = some v → Lists l k ∧ l.data k = some v ∧
    (replaced l (codec.timerID rec) (codec.businessID rec) = some k → l'.index = l.index)
  stays : ∀ k, replaced l (codec.timerID rec) (codec.businessID rec) ≠ some k →
    k ∈ l.zset .pending ∨ (k ∈ l.zset .processing ∧ k ≠ codec.timerID rec) → Lists l' k
  same : ∀ k, replaced l (codec.timerID rec) (codec.businessID rec) ≠ some k → k ≠ codec.timerID rec →
    l'.data k = l.data k

theorem Sheds.partway (sheds : Sheds (replaced l (codec.timerID rec) (codec.businessID rec)) l l') :
    Partway codec rec data l l' where
  index := .inl sheds.index
  row v found := .inl (sheds.rows _ v found)
  rowed there := by rwa [sheds.same _ replaced_ne]
  others k v _ inside found :=
    ⟨inside.imp (sheds.fewer _ k) (sheds.fewer _ k), sheds.rows k v found, fun _ => sheds.index⟩
  stays k kept inside := inside.imp (sheds.kept _ k kept).mpr fun there => (sheds.kept _ k kept).mpr there.1
  same k kept _ := sheds.same k kept

theorem Interrupted.partway (interrupted : Interrupted codec rec data l l') : Partway codec rec data l l' := by
  have shed := sheds_all codec rec l
  cases interrupted with
  | dropping sub => exact (sheds_drops sub l).partway
  | writing sub =>
    have writes := @writes_part T V codec _ _ _ _ _ sub
      (pipeline (exec codec.fields) l (drops l (codec.timerID rec) (codec.businessID rec)))
    refine ⟨shed.index ▸ writes.index, fun v found => ?_, fun there => ?_, fun k v apart inside found => ?_,
      fun k kept inside => ?_, fun k kept apart => (writes.same k apart).trans (shed.same k kept)⟩
    · rcases writes.row with same | fresh
      · exact .inl (shed.rows _ v (same ▸ found))
      · exact .inr (Option.some.inj (found.symm.trans fresh))
    · rcases writes.row with same | fresh
      · rwa [same, shed.same _ replaced_ne]
      · rw [fresh]
        rfl
    · have was := inside.imp (writes.kept _ k apart).mp (writes.kept _ k apart).mp
      refine ⟨was.imp (shed.fewer _ k) (shed.fewer _ k), shed.rows k v ((writes.same k apart).symm.trans found), fun is => ?_⟩
      exact (was.elim (dropped_gone is _) (dropped_gone is _)).elim
    · by_cases here : k = codec.timerID rec
      · subst here
        have pending := inside.resolve_right fun there => there.2 rfl
        exact .inl (writes.pending ((shed.kept _ _ kept).mpr pending))
      · exact inside.imp (fun there => (writes.kept _ k here).mpr ((shed.kept _ k kept).mpr there)) fun there =>
          (writes.kept _ k here).mpr ((shed.kept _ k kept).mpr there.1)

theorem Partway.decode_eq (partway : Partway codec rec data l l') (apart : id ≠ codec.timerID rec)
    (kept : replaced l (codec.timerID rec) (codec.businessID rec) = some id → l'.index = l.index) :
    decode codec l'.index id = decode codec l.index id := by
  by_cases dropped : replaced l (codec.timerID rec) (codec.businessID rec) = some id
  · rw [kept dropped]
  · exact decode_other apart dropped partway.index

/-- The row and the index of the added timer are those of a point of failure, or the new ones. -/
theorem Partway.finds (partway : Partway codec rec data l l') {v : V} (row : l'.data (codec.timerID rec) = some v) :
    Finds codec rec data l v l'.index ∨
      (v = data ∧ l'.index = l.index.hset (codec.businessID rec) (codec.timerID rec)) := by
  rcases partway.row v row with was | fresh
  · exact .inl (.inl ⟨was, partway.index⟩)
  · rcases partway.index with same | ⟨_, new⟩
    · exact .inl (.inr ⟨fresh, same⟩)
    · exact .inr ⟨fresh, new⟩

theorem Survives.active (survives : Survives codec l rec data id) (partway : Partway codec rec data l l')
    (written : codec.marshal (codec.markPending rec) = some data)
    (readable : ∀ id, Lists l id → ∀ v, l.data id = some v → (decode codec l.index id v).isSome = true)
    (own : ∀ v index, Finds codec rec data l v index → (decode codec index (codec.timerID rec) v).isSome = true) :
    Active codec l' (codec.businessID rec) := by
  have stays := partway.stays id survives.unreplaced survives.listed
  obtain ⟨kept, found, named⟩ := survives.named
  refine active_iff.mpr ⟨fun k inside v row => ?_, id, ?_⟩
  · by_cases here : k = codec.timerID rec
    · subst here
      rcases partway.finds row with finds | ⟨rfl, new⟩
      · exact own v _ finds
      · rw [new, decode_written written]
        rfl
    · obtain ⟨was, there, unchanged⟩ := partway.others k v here inside row
      rw [partway.decode_eq here unchanged]
      exact readable k was v there
  · by_cases here : id = codec.timerID rec
    · subst here
      obtain ⟨v, row⟩ : ∃ v, l'.data (codec.timerID rec) = some v := by
        rw [← Option.isSome_iff_exists]
        exact partway.rowed (Option.isSome_of_isSome_bind (by rw [← loaded, found]; rfl))
      rcases partway.finds row with finds | ⟨rfl, new⟩
      · obtain ⟨read, decoded, owned⟩ := survives.throughout rfl v l'.index finds
        exact ⟨read, stays, by rw [loaded, row]; exact decoded, owned⟩
      · refine ⟨codec.markPending rec, stays, ?_, codec.businessID_pending rec⟩
        rw [loaded, row, new]
        exact decode_written written _
    · refine ⟨kept, stays, ?_, named⟩
      rw [loaded, partway.same id survives.unreplaced here, partway.decode_eq here fun is => absurd is survives.unreplaced]
      exact found

theorem Partway.survives (partway : Partway codec rec data l l') {read : T} (apart : id ≠ codec.timerID rec)
    (kept : replaced l (codec.timerID rec) (codec.businessID rec) ≠ some id) (inside : Lists l' id)
    (found : loaded codec l' id = some read) (named : codec.businessID read = codec.businessID rec) :
    Survives codec l rec data id := by
  obtain ⟨v, row, _⟩ := Option.bind_eq_some_iff.mp found
  obtain ⟨listed, _⟩ := partway.others id v apart inside row
  rw [loaded, partway.same id kept apart, partway.decode_eq apart fun is => absurd is kept] at found
  exact ⟨kept, listed.imp_right fun there => ⟨there, apart⟩, ⟨read, found, named⟩, fun is => absurd is apart⟩

def excerpt (listing row index : Bool) (timerID : Nat) (businessID : String) (dueTimeMs : Int) (data : V) : List (Command V) :=
  (if listing then [.zadd .pending dueTimeMs timerID] else []) ++ [.zrem .processing timerID] ++
    (if row then [.hsetData timerID data] else []) ++ (if index then [.hsetIndex businessID timerID] else [])

theorem excerpt_sublist (listing row : Bool) {index : Bool} {dueTimeMs : Int} (named : index = true → businessID ≠ "") :
    excerpt listing row index timerID businessID dueTimeMs data <+ writes timerID businessID dueTimeMs data := by
  have parts : writes timerID businessID dueTimeMs data = [.zadd .pending dueTimeMs timerID] ++
      [.zrem .processing timerID] ++ [.hsetData timerID data] ++
        if businessID = "" then [] else [.hsetIndex businessID timerID] := rfl
  rw [parts]
  refine (((List.Sublist.append ?_ (.refl _)).append ?_).append ?_)
  · cases listing <;> simp
  · cases row <;> simp
  · cases index with
    | false => simp
    | true => simp [named rfl]

/-- For whatever a load may find of the added timer there is a point of failure, at which it is listed or listed only if
it was pending before. -/
theorem probe (listing : Bool) {v : V} {index : Hash String Nat} (finds : Finds codec rec data l v index) :
    ∃ l', Interrupted codec rec data l l' ∧ l'.index = index ∧ l'.data (codec.timerID rec) = some v ∧
      (listing = true → Lists l' (codec.timerID rec)) ∧
      (listing = false → ∀ k, Lists l' k → replaced l (codec.timerID rec) (codec.businessID rec) ≠ some k ∧
          (k ∈ l.zset .pending ∨ (k ∈ l.zset .processing ∧ k ≠ codec.timerID rec))) := by
  have shed := sheds_all codec rec l
  obtain ⟨row, write, named, isIndex, isRow⟩ : ∃ row write : Bool, (write = true → codec.businessID rec ≠ "") ∧
      index = (if write then l.index.hset (codec.businessID rec) (codec.timerID rec) else l.index) ∧
      some v = if row then some data else l.data (codec.timerID rec) := by
    rcases finds with ⟨was, same | ⟨named, new⟩⟩ | ⟨fresh, same⟩
    · exact ⟨false, false, by simp, by simp [same], by simp [was]⟩
    · exact ⟨false, true, fun _ => named, by simp [new], by simp [was]⟩
    · exact ⟨true, false, by simp, by simp [same], by simp [fresh]⟩
  refine ⟨_, .writing (excerpt_sublist listing row named), ?_, ?_, ?_, ?_⟩
  · rw [isIndex, ← shed.index]
    cases listing <;> cases row <;> cases write <;> rfl
  · rw [isRow, ← shed.same _ replaced_ne]
    cases listing <;> cases row <;> cases write <;> simp [excerpt, pipeline, exec]
  · rintro rfl
    refine .inl ?_
    cases row <;> cases write <;> simp [excerpt, pipeline, exec]
  · rintro rfl k inside
    have listed : k ∈ (pipeline (exec codec.fields) l (drops l (codec.timerID rec) (codec.businessID rec))).zset .pending ∨
        (k ∈ (pipeline (exec codec.fields) l (drops l (codec.timerID rec) (codec.businessID rec))).zset .processing ∧
          k ≠ codec.timerID rec) := by
      refine inside.imp (fun there => ?_) fun there => ?_
      · cases row <;> cases write <;> simpa [excerpt, pipeline, exec] using there
      · rw [and_comm]
        cases row <;> cases write <;> simpa [excerpt, pipeline, exec] using there
    refine ⟨fun is => ?_, listed.imp (shed.fewer _ k) fun there => ⟨shed.fewer _ k there.1, there.2⟩⟩
    exact listed.elim (dropped_gone is _) fun there => dropped_gone is _ there.1

end Failure

def keyedRows : Codec Row Row :=
  { rows with
    keyed := some fun rec timerID businessID => some { rec with timer := timerID, business := businessID }
    keyed_marshal := by
      rintro read rec v reader written
      cases reader
      cases written
      rfl }

def oneTimer (codec : Codec Row Row) : Ledger Row := ((add codec ⟨1, "b", 5, false⟩).run (exec codec.fields) {}).1

theorem active_oneTimer : Active rows (oneTimer rows) "b" ∧ Active keyedRows (oneTimer keyedRows) "b" := by
  have loads : ((loadActive rows).run (exec rows.fields) (oneTimer rows)).2 = some [⟨1, "b", 5, false⟩] ∧
    ((loadActive keyedRows).run (exec rows.fields) (oneTimer keyedRows)).2 = some [⟨1, "b", 5, false⟩] := by decide +kernel
  exact ⟨⟨_, loads.1, _, List.mem_singleton_self _, rfl⟩, ⟨_, loads.2, _, List.mem_singleton_self _, rfl⟩⟩

end Queue

end Skygo.Timer
