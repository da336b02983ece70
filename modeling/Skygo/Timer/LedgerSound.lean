import Skygo.Timer.Ledger

/-! The four keys of a ledger agree after every sequence of complete calls.

Each call of one user keeps the invariant; the calls of a store then keep it for every user.
-/

set_option autoImplicit false

attribute [-instance] instBooleanRingBool

namespace Skygo.Timer

open Semantics Redis

variable {T V : Type} {codec : Codec T V}

namespace Ledger

def Stores (codec : Codec T V) (l : Ledger V) (timerID : Nat) (rec : T) : Prop :=
  ∃ v, l.data timerID = some v ∧ codec.marshal rec = some v

structure Represents (codec : Codec T V) (l : Ledger V) : Prop where
  disjoint : ∀ id, id ∈ l.zset .pending → id ∉ l.zset .processing
  rows : ∀ id, (l.data id).isSome = true ↔ id ∈ l.zset .pending ∨ id ∈ l.zset .processing
  records : ∀ id, (l.data id).isSome = true → ∃ rec, l.Stores codec id rec
  scores : ∀ id score, (l.zset .pending).lookup id = some score →
    ∃ rec, l.Stores codec id rec ∧ score = codec.dueTimeMs rec
  indexed : ∀ b id, l.index.lookup b = some id ↔ ∃ rec, l.Stores codec id rec ∧ codec.businessID rec = b
  claimed : ∀ id, id ∈ l.zset .processing → (l.claims id).isSome = true

/-- The invariant in terms of the rows, with what a row can hold. -/
structure Sound (codec : Codec T V) (business : Nat → String) (l : Ledger V) : Prop where
  disjoint : ∀ id, id ∈ l.zset .pending → id ∉ l.zset .processing
  rows : ∀ id, (l.data id).isSome = true ↔ id ∈ l.zset .pending ∨ id ∈ l.zset .processing
  holds : ∀ id v, l.data id = some v → ∃ rec, codec.marshal rec = some v ∧ codec.timerID rec = id ∧
    codec.businessID rec = business id ∧ business id ≠ "" ∧ (codec.dueTimeMs rec).natAbs < 2 ^ 53
  scores : ∀ id score rec, (l.zset .pending).lookup id = some score → l.Stores codec id rec →
    score = codec.dueTimeMs rec
  indexed : ∀ b id, l.index.lookup b = some id ↔ (l.data id).isSome = true ∧ business id = b
  claimed : ∀ id, id ∈ l.zset .processing → (l.claims id).isSome = true

variable {business : Nat → String} {l : Ledger V} {id : Nat} {rec : T} {v : V}

theorem Stores.unique {other : T} (stores : l.Stores codec id rec) (again : l.Stores codec id other) : other = rec := by
  obtain ⟨v, found, written⟩ := stores
  obtain ⟨w, found', written'⟩ := again
  rw [found] at found'
  cases found'
  have same := (codec.unmarshal_marshal rec v written).symm.trans (codec.unmarshal_marshal other v written')
  exact (Option.some.inj same).symm

theorem Sound.stores (sound : l.Sound codec business) (found : (l.data id).isSome = true) :
    ∃ rec, l.Stores codec id rec ∧ codec.timerID rec = id ∧ codec.businessID rec = business id := by
  obtain ⟨v, found⟩ := Option.isSome_iff_exists.mp found
  obtain ⟨rec, written, timer, named, _⟩ := sound.holds id v found
  exact ⟨rec, ⟨v, found, written⟩, timer, named⟩

theorem Stores.isSome (stores : l.Stores codec id rec) : (l.data id).isSome = true := by
  obtain ⟨v, found, _⟩ := stores
  rw [found]
  rfl

section

variable (sound : l.Sound codec business)
include sound

theorem Sound.business_of (stores : l.Stores codec id rec) :
    codec.timerID rec = id ∧ codec.businessID rec = business id := by
  obtain ⟨other, there, timer, named⟩ := sound.stores stores.isSome
  rw [there.unique stores]
  exact ⟨timer, named⟩

theorem Sound.named (found : (l.data id).isSome = true) : business id ≠ "" := by
  obtain ⟨v, found⟩ := Option.isSome_iff_exists.mp found
  obtain ⟨_, _, _, _, nonempty, _⟩ := sound.holds id v found
  exact nonempty

theorem Sound.represents : l.Represents codec where
  disjoint := sound.disjoint
  rows := sound.rows
  records id found := by
    obtain ⟨rec, stores, _⟩ := sound.stores found
    exact ⟨rec, stores⟩
  scores id score scored := by
    have member : id ∈ l.zset .pending := AList.lookup_isSome.mp (by rw [scored]; rfl)
    obtain ⟨rec, stores, _⟩ := sound.stores ((sound.rows id).mpr (.inl member))
    exact ⟨rec, stores, sound.scores id score rec scored stores⟩
  indexed b id := by
    rw [sound.indexed]
    constructor
    · rintro ⟨found, named⟩
      obtain ⟨rec, stores, _, business⟩ := sound.stores found
      exact ⟨rec, stores, business.trans named⟩
    · rintro ⟨rec, stores, named⟩
      exact ⟨stores.isSome, (sound.business_of stores).2.symm.trans named⟩
  claimed := sound.claimed

theorem Sound.gone {l' : Ledger V} (id : Nat) (data : ∀ k, l'.data k = if k = id then none else l.data k)
    (zset : ∀ key k, (l'.zset key).lookup k = if k = id then none else (l.zset key).lookup k)
    (index : ∀ b, l'.index.lookup b = if l.index.lookup b = some id then none else l.index.lookup b)
    (claims : ∀ k, k ≠ id → l'.claims k = l.claims k) : l'.Sound codec business := by
  have member : ∀ key k, k ∈ l'.zset key ↔ k ≠ id ∧ k ∈ l.zset key := by
    intro key k
    rw [← AList.lookup_isSome, ← AList.lookup_isSome, zset]
    grind
  obtain ⟨disjoint, rows, holds, scores, indexed, claimed⟩ := sound
  constructor
  case scores =>
    intro k score rec
    have := scores k score rec
    simp only [Stores] at *
    grind
  all_goals grind

theorem Sound.written {l' : Ledger V} (written : codec.marshal rec = some v)
    (timer : codec.timerID rec = id) (named : codec.businessID rec = business id) (nonempty : business id ≠ "")
    (small : (codec.dueTimeMs rec).natAbs < 2 ^ 53)
    (alone : ∀ k, (l.data k).isSome = true → business k = business id → k = id)
    (data : ∀ k, l'.data k = if k = id then some v else l.data k) (pending : ∀ k, (l'.zset .pending).lookup k =
      if k = id then some (codec.dueTimeMs rec) else (l.zset .pending).lookup k)
    (processing : ∀ k, (l'.zset .processing).lookup k = if k = id then none else (l.zset .processing).lookup k)
    (index : ∀ b, l'.index.lookup b = if b = business id then some id else l.index.lookup b)
    (claims : ∀ k, k ≠ id → l'.claims k = l.claims k) : l'.Sound codec business := by
  have waits : ∀ k, k ∈ l'.zset .pending ↔ k = id ∨ k ∈ l.zset .pending := by
    intro k
    rw [← AList.lookup_isSome, ← AList.lookup_isSome, pending]
    grind
  have runs : ∀ k, k ∈ l'.zset .processing ↔ k ≠ id ∧ k ∈ l.zset .processing := by
    intro k
    rw [← AList.lookup_isSome, ← AList.lookup_isSome, processing]
    grind
  have read := codec.unmarshal_marshal rec v written
  obtain ⟨disjoint, rows, holds, scores, indexed, claimed⟩ := sound
  constructor
  case scores =>
    intro k score other
    have := scores k score other
    have := codec.unmarshal_marshal other v
    simp only [Stores] at *
    grind
  all_goals grind

theorem sound_claimScript {owner : String} {deadline : Int} : (l.claimScript id owner deadline).1.Sound codec business := by
  unfold claimScript
  split
  · exact sound
  · split
    · exact sound
    · next found pending =>
      obtain ⟨disjoint, rows, holds, scores, indexed, claimed⟩ := sound
      constructor
      case scores =>
        intro k score rec
        have := scores k score rec
        simp only [Stores] at *
        grind
      all_goals grind

theorem Sound.alone (found : (l.data id).isSome = true) (other : Nat)
    (there : (l.data other).isSome = true) (same : business other = business id) : other = id := by
  have here := (sound.indexed (business id) id).mpr ⟨found, rfl⟩
  have also := (sound.indexed (business id) other).mpr ⟨there, same⟩
  rw [here] at also
  exact (Option.some.inj also).symm

theorem Sound.absent (empty : l.data id = none) (key : SetKey) : id ∉ l.zset key := by
  have rows := sound.rows id
  simp only [empty, Option.isSome_none, Bool.false_eq_true, false_iff, not_or] at rows
  cases key with
  | pending => exact rows.1
  | processing => exact rows.2

theorem sound_requeueScript {now due : Int} (loaded : ∀ rec, l.Stores codec id rec → due = codec.dueTimeMs rec) :
    (l.requeueScript codec.fields id now due).1.Sound codec business := by
  unfold requeueScript
  split
  · next empty =>
    -- a timer without a row is in no set, so the script removes nothing
    rw [zrem_of_notMem (sound.absent empty .processing)]
    refine sound.gone id ?_ ?_ ?_ ?_
    · grind
    · intro key k
      have out := AList.lookup_eq_none.mpr (sound.absent empty key)
      grind
    · have unindexed := fun b => sound.indexed b id
      grind
    · grind
  · next val found =>
    split
    · exact sound
    · exact sound
    · split
      · exact sound
      · obtain ⟨rec, written, timer, named, nonempty, small⟩ := sound.holds id val found
        have same := loaded rec ⟨val, found, written⟩
        have whole : double due = codec.dueTimeMs rec := same ▸ double_exact (by omega)
        have here : (l.data id).isSome = true := by rw [found]; rfl
        have alone := sound.alone here
        have known := (sound.indexed (business id) id).mpr ⟨here, rfl⟩
        refine sound.written written timer named nonempty small alone ?_ ?_ ?_ ?_ ?_ <;> grind

theorem sound_erase (stores : l.Stores codec id rec) : (l.erase id (codec.businessID rec)).Sound codec business := by
  have named := (sound.business_of stores).2
  have known := (sound.indexed (business id) id).mpr ⟨stores.isSome, rfl⟩
  have indexed := sound.indexed
  have nonempty := sound.named stores.isSome
  rw [named, erase, if_pos ⟨nonempty, known⟩]
  refine sound.gone id ?_ (fun key k => ?_) ?_ ?_
  · grind
  · cases key <;> grind
  · grind
  · grind

theorem sound_completeScript {owner businessID : String}
    (loaded : ∀ rec, l.Stores codec id rec → businessID = codec.businessID rec) :
    (l.completeScript codec.fields id owner businessID).1.Sound codec business := by
  unfold completeScript
  split
  · exact sound
  · next val found =>
    split
    · exact sound
    · exact sound
    · obtain ⟨rec, stores, _⟩ := sound.stores (by rw [found]; rfl : (l.data id).isSome = true)
      rw [loaded rec stores]
      exact sound_erase sound stores

end

end Ledger

namespace Queue

open Ledger Program

variable {business : Nat → String} {l : Ledger V} {id : Nat} {rec : T} {v : V}

@[simp] theorem run_redis (c : Command V) : (redis c).run (exec codec.fields) l = exec codec.fields l c := rfl

def record (codec : Codec T V) (l : Ledger V) (id : Nat) : Option T := (l.data id).bind codec.unmarshal

theorem record_eq_some (sound : l.Sound codec business) : record codec l id = some rec ↔ l.Stores codec id rec := by
  constructor
  · intro read
    obtain ⟨v, found, read⟩ := Option.bind_eq_some_iff.mp read
    obtain ⟨other, written, _⟩ := sound.holds id v found
    rw [codec.unmarshal_marshal other v written] at read
    cases read
    exact ⟨v, found, written⟩
  · rintro ⟨v, found, written⟩
    exact Option.bind_eq_some_iff.mpr ⟨v, found, codec.unmarshal_marshal rec v written⟩

theorem businessIDOf_index (sound : l.Sound codec business) (found : (l.data id).isSome = true) :
    businessIDOf l.index id = business id := by
  have known := (sound.indexed (business id) id).mpr ⟨found, rfl⟩
  have member : (⟨business id, id⟩ : (_ : String) × Nat) ∈ l.index.entries := AList.mem_lookup_iff.mp known
  unfold businessIDOf
  cases search : l.index.entries.find? fun entry => entry.2 = id with
  | none =>
    have none_ := List.find?_eq_none.mp search _ member
    simp at none_
  | some entry =>
    have value : entry.2 = id := by simpa using List.find?_some search
    have listed : l.index.lookup entry.1 = some entry.2 := AList.mem_lookup_iff.mpr (List.mem_of_find?_eq_some search)
    rw [value] at listed
    exact ((sound.indexed entry.1 id).mp listed).2.symm

theorem decode_stored (sound : l.Sound codec business) (stores : l.Stores codec id rec) (found : l.data id = some v) :
    decode codec (((businessIDsByTimerID codec).run (exec codec.fields) l).2) id v = some rec := by
  have named := sound.business_of stores
  have here := businessIDOf_index sound stores.isSome
  obtain ⟨w, again, written⟩ := stores
  rw [found] at again
  cases again
  unfold decode businessIDsByTimerID
  cases reader : codec.keyed with
  | none => exact codec.unmarshal_marshal rec v written
  | some read =>
    have read_ := codec.keyed_marshal read rec v reader written
    simp only [Option.isSome_some, if_true]
    rw [run_redis]
    show read v id (businessIDOf l.index id) = some rec
    rw [here, ← named.2, ← named.1]
    exact read_

theorem run_businessIDs : ((businessIDsByTimerID codec).run (exec codec.fields) l).1 = l := by
  unfold businessIDsByTimerID
  split <;> rfl

section

variable (sound : l.Sound codec business)
include sound

theorem run_loadRecord : (loadRecordByTimerID codec id).run (exec codec.fields) l = (l, some (record codec l id)) := by
  unfold loadRecordByTimerID
  rw [run_bind, run_redis, show exec codec.fields l (.hgetData id) = (l, l.data id) from rfl]
  dsimp only
  cases found : l.data id with
  | none => simp [record, found]
  | some v =>
    obtain ⟨rec, stores, _⟩ := sound.stores (by rw [found]; rfl : (l.data id).isSome = true)
    have read := decode_stored sound stores found
    dsimp only
    rw [run_bind, run_businessIDs, read, (record_eq_some sound).mpr stores]
    rfl

theorem sound_requeueTimer (now : Int) :
    ((requeueProcessingTimer codec now id).run (exec codec.fields) l).1.Sound codec business := by
  unfold requeueProcessingTimer
  rw [run_bind, run_loadRecord sound]
  refine sound_requeueScript sound fun rec stores => ?_
  rw [(record_eq_some sound).mpr stores]
  rfl

theorem sound_requeueTimers (now : Int) (total : Nat) (timerIDs : List Nat) :
    ((requeueTimers codec now total timerIDs).run (exec codec.fields) l).1.Sound codec business := by
  induction timerIDs generalizing l total with
  | nil => exact sound
  | cons id rest ih =>
    have first : ((requeueProcessingTimer codec now id).run (exec codec.fields) l).1.Sound codec business :=
      sound_requeueTimer sound now
    unfold requeueTimers
    rw [run_bind]
    generalize (requeueProcessingTimer codec now id).run (exec codec.fields) l = ended at first
    obtain ⟨l', answer⟩ := ended
    cases answer with
    | none => exact first
    | some requeued => exact ih first _

theorem sound_requeueUser (now : Int) (total : Nat) :
    ((requeueUser codec now total).run (exec codec.fields) l).1.Sound codec business := by
  unfold requeueUser
  rw [run_bind, run_redis]
  exact sound_requeueTimers sound now total _

theorem sound_completeProcessing (owner : String) :
    ((completeProcessing codec id owner).run (exec codec.fields) l).1.Sound codec business := by
  unfold completeProcessing
  split
  · exact sound
  · rw [run_bind, run_loadRecord sound]
    refine sound_completeScript sound fun rec stores => ?_
    rw [(record_eq_some sound).mpr stores]
    rfl

theorem sound_claimForProcessing (owner : String) (now lease : Int) :
    ((claimForProcessing id owner now lease).run (exec codec.fields) l).1.Sound codec business := by
  unfold claimForProcessing
  split
  · exact sound
  · exact sound_claimScript sound

theorem record_eq_none (missing : record codec l id = none) : l.data id = none := by
  cases row : l.data id with
  | none => rfl
  | some v =>
    obtain ⟨rec, stores, _⟩ := sound.stores (by rw [row]; rfl : (l.data id).isSome = true)
    rw [(record_eq_some sound).mpr stores] at missing
    cases missing

theorem sound_removeByTimerID : ((removeByTimerID codec id).run (exec codec.fields) l).1.Sound codec business := by
  unfold removeByTimerID
  rw [run_bind, run_loadRecord sound]
  cases found : record codec l id with
  | none =>
    have empty := record_eq_none sound found
    have same : l.setData id none = l := by rw [setData, ← empty, Function.update_eq_self]
    show (((l.setData id none).zrem .pending id).zrem .processing id).Sound codec business
    rw [same, zrem_of_notMem (sound.absent empty .pending), zrem_of_notMem (sound.absent empty .processing)]
    exact sound
  | some rec =>
    have stores := (record_eq_some sound).mp found
    have named := (sound.business_of stores).2
    have known := (sound.indexed (business id) id).mpr ⟨stores.isSome, rfl⟩
    have indexed := sound.indexed
    have nonempty := sound.named stores.isSome
    show ((unindex (codec.businessID rec) >>= fun _ => pure (l.data id).isSome).run (exec codec.fields)
      (((l.setData id none).zrem .pending id).zrem .processing id)).1.Sound codec business
    rw [named, run_bind, unindex, if_neg nonempty]
    show { ((l.setData id none).zrem .pending id).zrem .processing id with
      index := l.index.hdel (business id) : Ledger V }.Sound codec business
    refine sound.gone id ?_ (fun key k => ?_) ?_ ?_
    · grind
    · cases key <;> grind
    · grind
    · grind

/-- Dropping the old timer leaves a sound ledger, up to the index of the business, in which no other timer
has the business. -/
theorem run_replaceOld (nonempty : business id ≠ "") : ∃ base : Ledger V, base.Sound codec business ∧
      (∀ k, (base.data k).isSome = true → business k = business id → k = id) ∧
      ((replaceOld id (business id)).run (exec codec.fields) l).1 = { base with index := l.index } ∧
      ∀ b, b ≠ business id → base.index.lookup b = l.index.lookup b := by
  have indexed := sound.indexed (business id)
  unfold replaceOld
  rw [if_neg nonempty, run_bind, run_redis,
    show exec codec.fields l (.hgetIndex (business id)) = (l, l.index.lookup (business id)) from rfl]
  dsimp only
  cases known : l.index.lookup (business id) with
  | none =>
    refine ⟨l, sound, fun k row same => ?_, rfl, fun _ _ => rfl⟩
    rw [(indexed k).mpr ⟨row, same⟩] at known
    cases known
  | some old =>
    have named := ((indexed old).mp known).2
    dsimp only
    split
    · next same =>
      refine ⟨l, sound, fun k row here => ?_, rfl, fun _ _ => rfl⟩
      rw [(indexed k).mpr ⟨row, here⟩] at known
      exact (Option.some.inj known).trans same
    · next differs =>
      let gone := (((l.zrem .pending old).zrem .processing old).setData old none).setClaim old none
      have unindexed := sound.indexed
      have sound' : { gone with index := l.index.hdel (business id) : Ledger V }.Sound codec business := by
        refine sound.gone old ?_ (fun key k => ?_) ?_ ?_
        · grind
        · cases key <;> grind
        · grind
        · grind
      refine ⟨_, sound', fun k row here => ?_, rfl, fun b other => ?_⟩
      · have still := ((sound'.indexed (business id) k).mpr ⟨row, here⟩)
        simp only [Hash.lookup_hdel, if_true] at still
        cases still
      · simp only [Hash.lookup_hdel, other, if_false]

theorem sound_add (named : codec.businessID rec = business (codec.timerID rec))
    (nonempty : codec.businessID rec ≠ "") (small : (codec.dueTimeMs (codec.markPending rec)).natAbs < 2 ^ 53) :
    ((add codec rec).run (exec codec.fields) l).1.Sound codec business := by
  unfold add
  split
  · exact sound
  · next data written =>
    rw [named] at nonempty
    obtain ⟨base, sound, alone, ended, others⟩ := run_replaceOld sound nonempty
    rw [named, run_bind, ended]
    have whole := double_exact (Nat.le_of_lt small)
    have timer := codec.timerID_pending rec
    have keeps := codec.businessID_pending rec
    unfold writeRecord
    rw [if_neg nonempty]
    show { (((base.zadd .pending (codec.dueTimeMs (codec.markPending rec)) (codec.timerID rec)).zrem .processing
      (codec.timerID rec)).setData (codec.timerID rec) (some data)) with
      index := l.index.hset (business (codec.timerID rec)) (codec.timerID rec) : Ledger V }.Sound codec business
    refine sound.written written timer (keeps.trans named) nonempty small alone ?_ ?_ ?_ ?_ ?_ <;> grind

theorem run_collect (timerIDs : List Nat) :
    (collect codec ((businessIDsByTimerID codec).run (exec codec.fields) l).2 (timerIDs.zip (timerIDs.map l.data))).run
      (exec codec.fields) l = (l, some (timerIDs.filterMap (record codec l))) := by
  induction timerIDs with
  | nil => rfl
  | cons id rest ih =>
    rw [List.map_cons, List.zip_cons_cons]
    cases found : l.data id with
    | none =>
      have missing : record codec l id = none := by simp [record, found]
      rw [List.filterMap_cons_none missing]
      show (collect codec _ _).run (exec codec.fields) ((l.zrem .pending id).zrem .processing id) = _
      rw [zrem_of_notMem (sound.absent found .pending), zrem_of_notMem (sound.absent found .processing)]
      exact ih
    | some v =>
      obtain ⟨rec, stores, _⟩ := sound.stores (by rw [found]; rfl : (l.data id).isSome = true)
      rw [List.filterMap_cons_some ((record_eq_some sound).mpr stores)]
      unfold collect
      rw [decode_stored sound stores found]
      dsimp only
      rw [run_bind, ih]
      rfl

theorem run_loadByTimerIDs (timerIDs : List Nat) : (loadByTimerIDs codec timerIDs).run (exec codec.fields) l =
      (l, some (timerIDs.filterMap (record codec l))) := by
  unfold loadByTimerIDs
  split
  · next empty =>
    rw [empty]
    rfl
  · rw [run_bind, run_redis]
    show ((businessIDsByTimerID codec) >>= _).run (exec codec.fields) l = _
    rw [run_bind, run_businessIDs]
    exact run_collect sound timerIDs

end

def active (l : Ledger V) : List Nat := (l.zset .pending).zrange ++ (l.zset .processing).zrange

section

variable (sound : l.Sound codec business)
include sound

theorem run_loadActive : (loadActive codec).run (exec codec.fields) l = (l, some ((active l).filterMap (record codec l))) :=
  run_loadByTimerIDs sound (active l)

theorem nodup_active : (active l).Nodup := by
  refine List.nodup_append.mpr ⟨SortedSet.nodup_zrange, SortedSet.nodup_zrange, ?_⟩
  rintro id pending other processing rfl
  exact sound.disjoint id (SortedSet.mem_zrange.mp pending) (SortedSet.mem_zrange.mp processing)

theorem mem_active : id ∈ active l ↔ ∃ rec, l.Stores codec id rec := by
  unfold active
  rw [List.mem_append, SortedSet.mem_zrange, SortedSet.mem_zrange, ← sound.rows id]
  constructor
  · intro found
    obtain ⟨rec, stores, _⟩ := sound.stores found
    exact ⟨rec, stores⟩
  · rintro ⟨rec, stores⟩
    exact stores.isSome

theorem map_loaded (timerIDs : List Nat) (rows : ∀ id ∈ timerIDs, id ∈ active l) :
    (timerIDs.filterMap (record codec l)).map codec.timerID = timerIDs := by
  induction timerIDs with
  | nil => rfl
  | cons id rest ih =>
    obtain ⟨rec, stores⟩ := (mem_active sound).mp (rows id (List.mem_cons_self ..))
    rw [List.filterMap_cons_some ((record_eq_some sound).mpr stores), List.map_cons, (sound.business_of stores).1,
      ih fun id member => rows id (List.mem_cons_of_mem _ member)]

theorem mem_loaded : rec ∈ (active l).filterMap (record codec l) ↔ ∃ id, l.Stores codec id rec := by
  rw [List.mem_filterMap]
  constructor
  · rintro ⟨id, _, read⟩
    exact ⟨id, (record_eq_some sound).mp read⟩
  · rintro ⟨id, stores⟩
    exact ⟨id, (mem_active sound).mpr ⟨rec, stores⟩, (record_eq_some sound).mpr stores⟩

end

theorem run_countActive : ((countActive : Call V Nat).run (exec codec.fields) l).2 = (active l).length := by
  rw [active, List.length_append, SortedSet.length_zrange, SortedSet.length_zrange]
  rfl

section Users

variable {owners : Nat → Nat → String} {s : Store V}

theorem sound_onUser {α : Type} {uid : Nat} {call : Call V α} (sound : ∀ u, (s u).Sound codec (owners u))
    (keeps : (call.run (exec codec.fields) (s uid)).1.Sound codec (owners uid)) (u : Nat) :
    (((onUser uid call).run (Store.exec codec) s).1 u).Sound codec (owners u) := by
  unfold onUser
  rw [run_bind, Store.exec, run_tag]
  show (Function.update s uid _ u).Sound codec (owners u)
  by_cases same : u = uid
  · subst same
    rw [Function.update_self]
    exact keeps
  · rw [Function.update_of_ne same]
    exact sound u

theorem sound_requeueUsers (now : Int) (total : Nat) (uids : List Nat) (sound : ∀ u, (s u).Sound codec (owners u))
    (u : Nat) :
    (((requeueExpiredProcessing codec now total uids).run (Store.exec codec) s).1 u).Sound codec (owners u) := by
  induction uids generalizing s total with
  | nil => exact sound u
  | cons uid uids ih =>
    have first := sound_requeueUser (sound uid) now total
    unfold requeueExpiredProcessing
    rw [run_bind, Store.exec, run_tag]
    generalize (requeueUser codec now total).run (exec codec.fields) (s uid) = ended at first
    obtain ⟨l, total, reached⟩ := ended
    have sound' : ∀ u, (Function.update s uid l u).Sound codec (owners u) := by
      intro u
      by_cases same : u = uid
      · subst same
        rw [Function.update_self]
        exact first
      · rw [Function.update_of_ne same]
        exact sound u
    cases reached with
    | false => exact sound' u
    | true => exact ih total sound'

theorem sound_next {op : Op T} (proper : op.Proper codec owners) (sound : ∀ u, (s u).Sound codec (owners u)) (u : Nat) :
    (((op.code codec).run (Store.exec codec) s).1 u).Sound codec (owners u) := by
  cases op with
  | add uid rec => exact sound_onUser sound (sound_add (sound uid) proper.1 proper.2.1 proper.2.2) u
  | claimForProcessing uid timerID owner now lease =>
    exact sound_onUser sound (sound_claimForProcessing (sound uid) owner now lease) u
  | completeProcessing uid timerID owner => exact sound_onUser sound (sound_completeProcessing (sound uid) owner) u
  | requeueExpiredProcessing uids now =>
    unfold Op.code
    rw [run_bind]
    exact sound_requeueUsers now 0 uids sound u
  | removeByTimerID uid timerID => exact sound_onUser sound (sound_removeByTimerID (sound uid)) u
  | loadActiveByUID uid => exact sound_onUser sound (by rw [run_loadActive (sound uid)]; exact sound uid) u
  | loadWindowByUID uid now window =>
    refine sound_onUser sound ?_ u
    rw [loadWindow, run_bind, run_redis]
    show ((loadByTimerIDs codec _).run (exec codec.fields) (s uid)).1.Sound codec (owners uid)
    rw [run_loadByTimerIDs (sound uid)]
    exact sound uid
  | loadByTimerIDs uid timerIDs =>
    exact sound_onUser sound (by rw [run_loadByTimerIDs (sound uid)]; exact sound uid) u

theorem sound_empty {business : Nat → String} : ({} : Ledger V).Sound codec business where
  disjoint _ _ := AList.notMem_empty _
  rows id := by
    simp only [Option.isSome_none, Bool.false_eq_true, false_iff, not_or]
    exact ⟨AList.notMem_empty id, AList.notMem_empty id⟩
  holds _ _ found := by cases found
  scores id _ _ scored := by
    rw [AList.lookup_empty] at scored
    cases scored
  indexed b id := by simp
  claimed _ member := absurd member (AList.notMem_empty _)

theorem sound_reachable (reach : (completeCalls codec owners).Reachable (fun _ => {}) s) (uid : Nat) :
    (s uid).Sound codec (owners uid) :=
  reach.invariant (I := fun s => ∀ u, (s u).Sound codec (owners u)) (fun _ => sound_empty)
    (fun _ _ sound proper => sound_next proper sound) uid

/-- After every sequence of complete calls the four keys of every user agree, no two records share a business,
and the active records are loaded once each and counted. -/
theorem ledger_represents (codec : Codec T V) (owners : Nat → Nat → String) (s : Store V)
    (reach : (completeCalls codec owners).Reachable (fun _ => {}) s) (uid : Nat) :
    (s uid).Represents codec ∧
    (∀ id other rec rec', (s uid).Stores codec id rec → (s uid).Stores codec other rec' →
      codec.businessID rec = codec.businessID rec' → id = other) ∧
    ∃ out, ((loadActive codec).run (exec codec.fields) (s uid)).2 = some out ∧
      (out.map codec.timerID).Nodup ∧ (∀ rec, rec ∈ out ↔ ∃ id, (s uid).Stores codec id rec) ∧
      ((countActive : Call V Nat).run (exec codec.fields) (s uid)).2 = out.length := by
  have sound := sound_reachable reach uid
  have loaded := map_loaded sound (active (s uid)) fun _ member => member
  refine ⟨sound.represents, ?_, _, by rw [run_loadActive sound], ?_, fun rec => mem_loaded sound, ?_⟩
  · intro id other rec rec' stores stores' same
    have first := (sound.business_of stores).2
    have second := (sound.business_of stores').2
    exact sound.alone stores'.isSome id stores.isSome (first.symm.trans (same.trans second))
  · rw [loaded]
    exact nodup_active sound
  · have length := congrArg List.length loaded
    rw [List.length_map] at length
    rw [run_countActive, length]

end Users

/-- A business gets a new timer while the old one is claimed. -/
theorem ledger_represents_replaced :
    ∃ s, (completeCalls rows fun _ _ => "raid").run (fun _ => {})
        [.add 1 ⟨9003, "raid", 7200000, true⟩, .claimForProcessing 1 9003 "node" 0 30000000000,
          .add 1 ⟨9004, "raid", 30000, true⟩, .completeProcessing 1 9003 "node"] = some s ∧
      ((loadActive rows).run (exec rows.fields) (s 1)).2 = some [⟨9004, "raid", 30000, false⟩] ∧
      (s 1).Represents rows :=
  have ran := Machine.run_after (by decide +kernel)
  ⟨_, ran, by decide +kernel, (ledger_represents rows _ _ ⟨_, ran⟩ 1).1⟩

end Queue

end Skygo.Timer
