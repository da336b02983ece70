import Mathlib.Algebra.Ring.Int.Defs
import Mathlib.Data.List.AList
import Mathlib.Data.List.Induction
import Mathlib.Data.Prod.Lex
import Mathlib.Data.String.Basic

/-! The call graph: call events added up by edge.

The recorder keeps an edge under one text for caller and protocol. Two edges share it as soon
as an arrow may stand in a name, and their events are then counted as those of the first.
-/

set_option autoImplicit false

namespace Skygo.Observe

/-- `actor.CallEvent`; of the error only whether there is one. Durations are nanoseconds. -/
structure CallEvent where
  caller : String
  callee : String
  protocol : String
  duration : Int
  failed : Bool
  deriving DecidableEq

structure Edge where
  from_ : String
  to_ : String
  count : Nat := 0
  errorCount : Nat := 0
  totalDuration : Int := 0
  deriving DecidableEq

namespace CallEvent

def recorded (e : CallEvent) : Bool := e.callee ≠ "" && e.protocol ≠ ""

def ends (e : CallEvent) : String × String :=
  (if e.caller = "" then "<external>" else e.caller, e.callee ++ "." ++ e.protocol)

def key (e : CallEvent) : String := e.ends.1 ++ "->" ++ e.ends.2

theorem key_of_ends {e e' : CallEvent} (same : e.ends = e'.ends) : e.key = e'.key := by rw [key, same, key]

end CallEvent

namespace Edge

def ends (edge : Edge) : String × String := (edge.from_, edge.to_)

/-- The counters are unsigned words of 64 bits, the duration is a signed one. -/
def add (edge : Edge) (e : CallEvent) : Edge :=
  { edge with
    count := (edge.count + 1) % 2 ^ 64
    totalDuration := (edge.totalDuration + e.duration).bmod (2 ^ 64)
    errorCount := if e.failed then (edge.errorCount + 1) % 2 ^ 64 else edge.errorCount }

def tally (ends : String × String) (events : List CallEvent) : Edge where
  from_ := ends.1
  to_ := ends.2
  count := events.length % 2 ^ 64
  errorCount := events.countP CallEvent.failed % 2 ^ 64
  totalDuration := (events.map CallEvent.duration).sum.bmod (2 ^ 64)

def less (edge other : Edge) : Bool :=
  if edge.from_ = other.from_ then edge.to_ < other.to_ else edge.from_ < other.from_

end Edge

/-- The edges by their keys. The optional output of single events to a file is left out. -/
abbrev Recorder := AList fun _ : String => Edge

namespace Recorder

def onCall (r : Recorder) (e : CallEvent) : Recorder :=
  if e.recorded then
    r.insert e.key (((r.lookup e.key).getD { from_ := e.ends.1, to_ := e.ends.2 }).add e)
  else r

def record (events : List CallEvent) : Recorder := events.foldl onCall ∅

def edges (r : Recorder) : List Edge := r.entries.map Sigma.snd

def snapshot (r : Recorder) : List Edge := r.edges.mergeSort fun edge other => !other.less edge

end Recorder

/-- The edges account for the events: one for each pair of ends, in order, with the sums over the events of the pair. -/
structure Accounts (events : List CallEvent) (edges : List Edge) : Prop where
  sorted : edges.Pairwise fun edge other => edge.less other = true
  ends : ∀ pair, (∃ edge ∈ edges, edge.ends = pair) ↔ ∃ e ∈ events, e.ends = pair
  sums : ∀ edge ∈ edges, edge = Edge.tally edge.ends (events.filter fun e => e.ends = edge.ends)

/-- No two pairs of ends have the same key. -/
def Apart (events : List CallEvent) : Prop := ∀ e ∈ events, ∀ e' ∈ events, e.key = e'.key → e.ends = e'.ends

namespace Recorder

variable {events : List CallEvent} {edge other : Edge} {key : String} {e e' : CallEvent}

theorem tally_append (ends : String × String) (events : List CallEvent) (e : CallEvent) :
    Edge.tally ends (events ++ [e]) = (Edge.tally ends events).add e := by
  cases failed : e.failed <;> simp [Edge.tally, Edge.add, failed, Int.bmod_add_bmod]

/-- Under a key there are the sums over the events with this key, and the ends of the first of them. -/
theorem lookup_record (events : List CallEvent) (key : String) :
    (record events).lookup key =
      ((events.filter CallEvent.recorded).find? (·.key = key)).map fun first =>
        Edge.tally first.ends ((events.filter CallEvent.recorded).filter (·.key = key)) := by
  induction events using List.reverseRecOn with
  | nil => rfl
  | append_singleton earlier e ih =>
    have step : record (earlier ++ [e]) = (record earlier).onCall e := by simp [record]
    rw [step, onCall]
    cases kept : e.recorded with
    | false => simpa [kept] using ih
    | true =>
      have calls : (earlier ++ [e]).filter CallEvent.recorded = earlier.filter CallEvent.recorded ++ [e] := by
        simp [kept]
      rw [if_pos rfl, calls, List.find?_append, List.filter_append]
      generalize earlier.filter CallEvent.recorded = calls at ih
      by_cases same : e.key = key
      · subst same
        rw [AList.lookup_insert, ih]
        cases found : calls.find? (·.key = e.key) with
        | some first => simp [tally_append]
        | none =>
          have none : calls.filter (·.key = e.key) = [] := List.filter_eq_nil_iff.mpr (List.find?_eq_none.mp found)
          simpa [none, Edge.tally] using (tally_append e.ends [] e).symm
      · rw [AList.lookup_insert_ne (Ne.symm same), ih]
        simp [same]

theorem mem_edges {r : Recorder} : edge ∈ r.edges ↔ ∃ key, r.lookup key = some edge := by
  simp only [edges, List.mem_map]
  constructor
  · rintro ⟨⟨key, edge⟩, member, rfl⟩
    exact ⟨key, AList.mem_lookup_iff.mpr member⟩
  · rintro ⟨key, found⟩
    exact ⟨⟨key, edge⟩, AList.mem_lookup_iff.mp found, rfl⟩

theorem first_of_lookup (found : (record events).lookup key = some edge) :
    ∃ first ∈ events.filter CallEvent.recorded, first.key = key ∧
      edge = Edge.tally first.ends ((events.filter CallEvent.recorded).filter (·.key = key)) := by
  rw [lookup_record, Option.map_eq_some_iff] at found
  obtain ⟨first, is, rfl⟩ := found
  exact ⟨first, List.mem_of_find?_eq_some is, by simpa using List.find?_some is, rfl⟩

theorem lookup_of_mem (member : e ∈ events.filter CallEvent.recorded) :
    ∃ edge, (record events).lookup e.key = some edge := by
  rw [← Option.isSome_iff_exists, lookup_record, Option.isSome_map, List.find?_isSome]
  exact ⟨e, member, decide_eq_true rfl⟩

theorem lookup_ends (member : edge ∈ (record events).edges) :
    (record events).lookup (edge.from_ ++ "->" ++ edge.to_) = some edge := by
  obtain ⟨key, found⟩ := mem_edges.mp member
  obtain ⟨first, -, rfl, rfl⟩ := first_of_lookup found
  exact found

theorem edges_ends_inj (member : edge ∈ (record events).edges) (also : other ∈ (record events).edges)
    (same : edge.from_ ++ "->" ++ edge.to_ = other.from_ ++ "->" ++ other.to_) : edge = other := by
  have found := lookup_ends member
  rw [same, lookup_ends also] at found
  exact (Option.some.inj found).symm

theorem ends_nodup (events : List CallEvent) : ((record events).edges.map Edge.ends).Nodup := by
  have keys : (record events).entries.map Sigma.fst =
      ((record events).edges.map Edge.ends).map fun ends => ends.1 ++ "->" ++ ends.2 := by
    rw [edges, List.map_map, List.map_map]
    refine List.map_congr_left fun ⟨key, edge⟩ member => ?_
    obtain ⟨first, -, rfl, rfl⟩ := first_of_lookup (AList.mem_lookup_iff.mpr member)
    rfl
  have distinct : ((record events).entries.map Sigma.fst).Nodup := (record events).nodupKeys
  rw [keys] at distinct
  exact distinct.of_map _

theorem less_iff : edge.less other = true ↔ toLex edge.ends < toLex other.ends := by
  rw [Prod.Lex.toLex_lt_toLex, Edge.less, Edge.ends, Edge.ends]
  split
  · next same => simp [same]
  · next apart => simp [apart]

theorem not_less_eq : (!other.less edge) = decide (toLex edge.ends ≤ toLex other.ends) := by
  rw [Bool.eq_iff_iff, Bool.not_eq_true', ← Bool.not_eq_true, less_iff, not_lt, decide_eq_true_eq]

theorem snapshot_perm (r : Recorder) : r.snapshot.Perm r.edges := List.mergeSort_perm ..

theorem snapshot_ordered (r : Recorder) : r.snapshot.Pairwise fun edge other => (!other.less edge) = true := by
  refine List.pairwise_mergeSort (fun a b c => ?_) (fun a b => ?_) r.edges
  · simpa only [not_less_eq, decide_eq_true_eq] using le_trans
  · simpa only [not_less_eq, Bool.or_eq_true, decide_eq_true_eq] using le_total (toLex a.ends) (toLex b.ends)

theorem snapshot_sorted (events : List CallEvent) :
    (record events).snapshot.Pairwise fun edge other => edge.less other = true := by
  have apart := ((snapshot_perm (record events)).map Edge.ends).nodup_iff.mpr (ends_nodup events)
  refine ((snapshot_ordered _).and (List.pairwise_map.mp apart)).imp fun ⟨before, differ⟩ => ?_
  rw [not_less_eq, decide_eq_true_eq] at before
  exact less_iff.mpr (lt_of_le_of_ne before fun same => differ same)

/-- However the map is walked and whatever is done about ties, the sorted edges are these: there are no ties. -/
theorem snapshot_unique {out : List Edge} (walked : out.Perm (record events).edges)
    (sorted : out.Pairwise fun edge other => (!other.less edge) = true) : out = (record events).snapshot := by
  refine List.Perm.eq_of_pairwise (fun edge other member also before after => ?_) sorted (snapshot_ordered _)
    (walked.trans (snapshot_perm _).symm)
  rw [not_less_eq, decide_eq_true_eq] at before after
  have same : edge.ends = other.ends := toLex.injective (le_antisymm before after)
  simp only [Edge.ends, Prod.mk.injEq] at same
  exact edges_ends_inj (walked.mem_iff.mp member) ((snapshot_perm _).mem_iff.mp also) (by rw [same.1, same.2])

/-- The snapshot accounts for the recorded events exactly if no two of them have the same key and different ends. -/
theorem snapshot_accounts (events : List CallEvent) :
    Accounts (events.filter CallEvent.recorded) (record events).snapshot ↔ Apart (events.filter CallEvent.recorded) := by
  have mem (edge : Edge) : edge ∈ (record events).snapshot ↔ edge ∈ (record events).edges := (snapshot_perm _).mem_iff
  constructor
  · intro accounts e member e' member' same
    obtain ⟨edge, listed, ends⟩ := (accounts.ends e.ends).mpr ⟨e, member, rfl⟩
    obtain ⟨edge', listed', ends'⟩ := (accounts.ends e'.ends).mpr ⟨e', member', rfl⟩
    have one : edge = edge' := by
      refine edges_ends_inj ((mem _).mp listed) ((mem _).mp listed') ?_
      rw [CallEvent.key, CallEvent.key, ← ends, ← ends'] at same
      exact same
    rw [← ends, ← ends', one]
  · intro apart
    refine ⟨snapshot_sorted events, fun pair => ⟨?_, ?_⟩, fun edge listed => ?_⟩
    · rintro ⟨edge, listed, rfl⟩
      obtain ⟨key, found⟩ := mem_edges.mp ((mem _).mp listed)
      obtain ⟨first, member, -, rfl⟩ := first_of_lookup found
      exact ⟨first, member, rfl⟩
    · rintro ⟨e, member, rfl⟩
      obtain ⟨edge, found⟩ := lookup_of_mem member
      refine ⟨edge, (mem _).mpr (mem_edges.mpr ⟨_, found⟩), ?_⟩
      obtain ⟨first, known, key, rfl⟩ := first_of_lookup found
      exact apart first known e member key
    · obtain ⟨key, found⟩ := mem_edges.mp ((mem _).mp listed)
      obtain ⟨first, member, rfl, rfl⟩ := first_of_lookup found
      have same : (events.filter CallEvent.recorded).filter (·.key = first.key) =
          (events.filter CallEvent.recorded).filter (·.ends = first.ends) := by
        refine List.filter_congr fun e known => decide_eq_decide.mpr ⟨apart e known first member, CallEvent.key_of_ends⟩
      rw [same]
      rfl

def arrows : List CallEvent := [⟨"a->b", "c", "d", 5, false⟩, ⟨"a", "b->c", "d", 7, true⟩]

theorem arrows_merged :
    (record arrows).snapshot = [⟨"a->b", "c.d", 2, 1, 12⟩] ∧ ¬ Accounts arrows (record arrows).snapshot := by
  have edges : (record arrows).edges = [⟨"a->b", "c.d", 2, 1, 12⟩] := by decide +kernel
  rw [snapshot, edges, List.mergeSort_singleton]
  refine ⟨rfl, fun accounts => ?_⟩
  obtain ⟨edge, member, ends⟩ := (accounts.ends ("a", "b->c.d")).mpr ⟨_, List.mem_cons_of_mem _ List.mem_cons_self, by decide⟩
  rw [List.mem_singleton] at member
  subst member
  exact absurd ends (by decide)

end Recorder

end Skygo.Observe
