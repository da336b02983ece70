import Mathlib.Tactic.NormNum
import Skygo.Semantics.Machine
import Skygo.Semantics.Table

/-! Timer identifiers: milliseconds since an epoch, a node and a sequence number in one word.

A call takes its clock readings from a list; they may repeat, jump and go backwards. A call that
is still waiting for the clock when its readings end has no outcome. The generator's last
millisecond and sequence number, read as one number, never go back, and every identifier is the
number of its moment.
-/

set_option autoImplicit false

namespace Skygo.Timer

open Semantics

def snowflakeEpochMs : Int := 1704067200000

def snowflakeMaxNodeID : UInt16 := (1 : UInt16) <<< 10 - 1

def snowflakeMaxSequence : UInt16 := (1 : UInt16) <<< 12 - 1

def maxClockBackoff : Int := 5 * 1000000

def int64 (n : Int) : Int := Int.bmod n (2 ^ 64)

inductive IDGeneratorError where
  | clockMovedBackwards (backoff : Int)
  | beforeEpoch
  deriving DecidableEq

structure IDGenerator where
  nodeID : UInt16
  lastMs : Int := 0
  sequence : UInt16 := 0
  nodeID_le : nodeID ≤ snowflakeMaxNodeID
  sequence_le : sequence ≤ snowflakeMaxSequence := by decide

theorem and_le_right (a b : UInt16) : a &&& b ≤ b := by
  rw [UInt16.le_iff_toNat_le, UInt16.toNat_and]
  exact Nat.and_le_right

def newIDGenerator (nodeID : UInt16) : IDGenerator where
  nodeID := if snowflakeMaxNodeID < nodeID then nodeID &&& snowflakeMaxNodeID else nodeID
  nodeID_le := by
    split
    · exact and_le_right _ _
    · next fits => exact UInt16.not_lt.mp fits

namespace IDGenerator

/-- The first reading, or a second one after a short step backwards. -/
def readClock (g : IDGenerator) : List Int → Option (Except IDGeneratorError Int × List Int)
  | [] => none
  | nowMs :: rest =>
      if nowMs < g.lastMs then
        let backoff := int64 (int64 (g.lastMs - nowMs) * 1000000)
        if maxClockBackoff < backoff then some (.error (.clockMovedBackwards backoff), rest)
        else
          match rest with
          | [] => none
          | again :: rest => some (.ok (if again < g.lastMs then g.lastMs else again), rest)
      else some (.ok nowMs, rest)

def waitPast (lastMs : Int) : List Int → Option (Int × List Int)
  | [] => none
  | nowMs :: rest => if nowMs ≤ lastMs then waitPast lastMs rest else some (nowMs, rest)

def advance (g : IDGenerator) (nowMs : Int) (rest : List Int) :
    Option ({ sequence : UInt16 // sequence ≤ snowflakeMaxSequence } × Int × List Int) :=
  if nowMs = g.lastMs then
    let sequence := (g.sequence + 1) &&& snowflakeMaxSequence
    if sequence = 0 then
      (waitPast g.lastMs rest).map fun waited => (⟨sequence, and_le_right _ _⟩, waited.1, waited.2)
    else some (⟨sequence, and_le_right _ _⟩, nowMs, rest)
  else some (⟨0, by decide⟩, nowMs, rest)

def pack (g : IDGenerator) (elapsed : Int) : UInt64 :=
  (UInt64.ofInt elapsed <<< 22) ||| (g.nodeID.toUInt64 <<< 12) ||| g.sequence.toUInt64

def next (g : IDGenerator) (readings : List Int) :
    Option (Except IDGeneratorError UInt64 × IDGenerator × List Int) :=
  match g.readClock readings with
  | none => none
  | some (.error failure, rest) => some (.error failure, g, rest)
  | some (.ok nowMs, rest) =>
      match g.advance nowMs rest with
      | none => none
      | some (sequence, nowMs, rest) =>
          let g := { g with sequence := sequence.1, lastMs := nowMs, sequence_le := sequence.2 }
          let elapsed := int64 (nowMs - snowflakeEpochMs)
          if elapsed < 0 then some (.error .beforeEpoch, g, rest) else some (.ok (g.pack elapsed), g, rest)

def position (g : IDGenerator) : Int :=
  (g.lastMs - snowflakeEpochMs) * 2 ^ 22 + g.nodeID.toNat * 2 ^ 12 + g.sequence.toNat

variable {g g' : IDGenerator} {nowMs : Int} {readings rest : List Int}

theorem nodeID_lt (g : IDGenerator) : g.nodeID.toNat < 2 ^ 10 := by
  have bound := UInt16.le_iff_toNat_le.mp g.nodeID_le
  have max : snowflakeMaxNodeID.toNat = 1023 := rfl
  omega

theorem sequence_lt (g : IDGenerator) : g.sequence.toNat < 2 ^ 12 := by
  have bound := UInt16.le_iff_toNat_le.mp g.sequence_le
  have max : snowflakeMaxSequence.toNat = 4095 := rfl
  omega

theorem nodeID_newIDGenerator (nodeID : UInt16) : (newIDGenerator nodeID).nodeID.toNat = nodeID.toNat % 2 ^ 10 := by
  have masked : (nodeID &&& snowflakeMaxNodeID).toNat = nodeID.toNat % 2 ^ 10 := by
    rw [UInt16.toNat_and]
    exact Nat.and_two_pow_sub_one_eq_mod nodeID.toNat 10
  unfold newIDGenerator
  dsimp only
  split
  · exact masked
  · next fits =>
    have bound := UInt16.le_iff_toNat_le.mp (UInt16.not_lt.mp fits)
    have max : snowflakeMaxNodeID.toNat = 1023 := rfl
    rw [Nat.mod_eq_of_lt (by omega)]

theorem toNat_pack (g : IDGenerator) {elapsed : Nat} (fits : elapsed < 2 ^ 42) :
    (g.pack elapsed).toNat = elapsed * 2 ^ 22 + g.nodeID.toNat * 2 ^ 12 + g.sequence.toNat := by
  have node := g.nodeID_lt
  have sequence := g.sequence_lt
  have low : g.nodeID.toNat * 2 ^ 12 ||| g.sequence.toNat = g.nodeID.toNat * 2 ^ 12 + g.sequence.toNat := by
    rw [Nat.mul_comm]
    exact (Nat.two_pow_add_eq_or_of_lt sequence _).symm
  have high : elapsed * 2 ^ 22 ||| (g.nodeID.toNat * 2 ^ 12 + g.sequence.toNat) =
      elapsed * 2 ^ 22 + (g.nodeID.toNat * 2 ^ 12 + g.sequence.toNat) := by
    rw [Nat.mul_comm elapsed]
    exact (Nat.two_pow_add_eq_or_of_lt (by omega) _).symm
  have time : (UInt64.ofInt (elapsed : Int) <<< 22).toNat = elapsed * 2 ^ 22 := by
    have whole : (UInt64.ofInt (elapsed : Int)).toNat = elapsed := by
      rw [UInt64.ofInt, UInt64.toNat_ofNat']
      omega
    rw [UInt64.toNat_shiftLeft, Nat.shiftLeft_eq, whole]
    exact Nat.mod_eq_of_lt (show elapsed * 2 ^ 22 < 2 ^ 64 by omega)
  have shifted : (g.nodeID.toUInt64 <<< 12).toNat = g.nodeID.toNat * 2 ^ 12 := by
    rw [UInt64.toNat_shiftLeft, Nat.shiftLeft_eq, UInt16.toNat_toUInt64]
    exact Nat.mod_eq_of_lt (show g.nodeID.toNat * 2 ^ 12 < 2 ^ 64 by omega)
  rw [pack, UInt64.toNat_or, UInt64.toNat_or, time, shifted, UInt16.toNat_toUInt64, Nat.or_assoc, low, high, Nat.add_assoc]

theorem waitPast_lt {lastMs : Int} (waited : waitPast lastMs readings = some (nowMs, rest)) :
    lastMs < nowMs ∧ nowMs ∈ readings := by
  induction readings with
  | nil => simp [waitPast] at waited
  | cons reading readings ih =>
    unfold waitPast at waited
    split at waited
    · exact ⟨(ih waited).1, List.mem_cons_of_mem _ (ih waited).2⟩
    · next past =>
      cases waited
      exact ⟨not_le.mp past, List.mem_cons_self⟩

theorem readClock_le (read : g.readClock readings = some (.ok nowMs, rest)) :
    g.lastMs ≤ nowMs ∧ (nowMs = g.lastMs ∨ nowMs ∈ readings) ∧ ∀ reading ∈ rest, reading ∈ readings := by
  unfold readClock at read
  split at read
  · simp at read
  · next first others =>
    split at read
    · dsimp only at read
      split at read
      · simp at read
      · split at read
        · simp at read
        · next again others =>
          simp only [Option.some.injEq, Prod.mk.injEq, Except.ok.injEq] at read
          obtain ⟨rfl, rfl⟩ := read
          refine ⟨?_, ?_, fun reading member => by simp [member]⟩
          · split <;> omega
          · split <;> simp
    · next forward =>
      simp only [Option.some.injEq, Prod.mk.injEq, Except.ok.injEq] at read
      obtain ⟨rfl, rfl⟩ := read
      exact ⟨by omega, .inr List.mem_cons_self, fun reading member => List.mem_cons_of_mem _ member⟩

theorem advance_position {sequence : { sequence : UInt16 // sequence ≤ snowflakeMaxSequence }} {used : Int} {left : List Int}
    (forward : g.lastMs ≤ nowMs) (advanced : g.advance nowMs rest = some (sequence, used, left)) :
    (used = nowMs ∨ used ∈ rest) ∧
      (g.lastMs < used ∨ used = g.lastMs ∧ sequence.1.toNat = g.sequence.toNat + 1) := by
  unfold advance at advanced
  split at advanced
  · next same =>
    dsimp only at advanced
    split at advanced
    · -- the numbers of this millisecond are used up, and the call waits for the next one
      obtain ⟨⟨waited, remaining⟩, past, made⟩ := Option.map_eq_some_iff.mp advanced
      simp only [Prod.mk.injEq] at made
      obtain ⟨-, rfl, -⟩ := made
      exact ⟨.inr (waitPast_lt past).2, .inl (waitPast_lt past).1⟩
    · next counts =>
      simp only [Option.some.injEq, Prod.mk.injEq] at advanced
      obtain ⟨rfl, rfl, -⟩ := advanced
      refine ⟨.inl rfl, .inr ⟨same, ?_⟩⟩
      have bound := g.sequence_lt
      have masked : ((g.sequence + 1) &&& snowflakeMaxSequence).toNat = (g.sequence.toNat + 1) % 2 ^ 12 := by
        rw [UInt16.toNat_and, UInt16.toNat_add]
        have sum : (g.sequence.toNat + (1 : UInt16).toNat) % 2 ^ 16 = g.sequence.toNat + 1 := by
          rw [UInt16.toNat_one]
          omega
        rw [sum]
        exact Nat.and_two_pow_sub_one_eq_mod _ 12
      have nonzero : ((g.sequence + 1) &&& snowflakeMaxSequence).toNat ≠ 0 := fun zero => counts (UInt16.toNat_inj.mp zero)
      rw [masked] at nonzero ⊢
      omega
  · next different =>
    simp only [Option.some.injEq, Prod.mk.injEq] at advanced
    obtain ⟨-, rfl, -⟩ := advanced
    exact ⟨.inl rfl, .inl (by omega)⟩

def Timely (g : IDGenerator) : Prop := 0 ≤ g.lastMs ∧ g.lastMs < snowflakeEpochMs + 2 ^ 42

theorem int64_elapsed {used : Int} (nonnegative : 0 ≤ used) (below : used < snowflakeEpochMs + 2 ^ 42) :
    int64 (used - snowflakeEpochMs) = used - snowflakeEpochMs := by
  have epoch : snowflakeEpochMs = 1704067200000 := rfl
  unfold int64
  rw [Int.bmod_eq_of_le (by omega) (by omega)]

theorem position_lt {sequence : UInt16} (fits : sequence ≤ snowflakeMaxSequence) {used : Int}
    (moves : g.lastMs < used ∨ used = g.lastMs ∧ sequence.toNat = g.sequence.toNat + 1) :
    g.position < IDGenerator.position { g with sequence := sequence, lastMs := used, sequence_le := fits } := by
  have node := g.nodeID_lt
  have old := g.sequence_lt
  unfold position
  dsimp only
  rcases moves with past | ⟨same, counted⟩ <;> omega

/-- A call that fails on the clock changes nothing. Any other call moves on, and an identifier is where it moved to. -/
theorem next_position {outcome : Except IDGeneratorError UInt64} (timely : g.Timely)
    (bounded : ∀ reading ∈ readings, reading < snowflakeEpochMs + 2 ^ 42)
    (called : g.next readings = some (outcome, g', rest)) :
    g'.nodeID = g.nodeID ∧ g'.Timely ∧ g.position ≤ g'.position ∧
      ∀ id, outcome = .ok id → g.position < g'.position ∧ (id.toNat : Int) = g'.position := by
  unfold next at called
  split at called
  · simp at called
  · simp only [Option.some.injEq, Prod.mk.injEq] at called
    obtain ⟨rfl, rfl, -⟩ := called
    exact ⟨rfl, timely, le_refl _, fun id same => by cases same⟩
  · next nowMs left read =>
    split at called
    · simp at called
    · next sequence used remaining advanced =>
      obtain ⟨forward, source, fewer⟩ := readClock_le read
      obtain ⟨used_source, moves⟩ := advance_position forward advanced
      obtain ⟨nonnegative, below⟩ := timely
      have used_below : used < snowflakeEpochMs + 2 ^ 42 := by
        rcases used_source with rfl | member
        · rcases source with rfl | member
          · exact below
          · exact bounded _ member
        · exact bounded _ (fewer _ member)
      have used_nonnegative : 0 ≤ used := by omega
      have whole := int64_elapsed used_nonnegative used_below
      have later := position_lt sequence.2 moves
      dsimp only at called
      rw [whole] at called
      split at called
      · simp only [Option.some.injEq, Prod.mk.injEq] at called
        obtain ⟨rfl, rfl, -⟩ := called
        exact ⟨rfl, ⟨used_nonnegative, used_below⟩, later.le, fun id same => by cases same⟩
      · next elapsed =>
        simp only [Option.some.injEq, Prod.mk.injEq] at called
        obtain ⟨rfl, rfl, -⟩ := called
        refine ⟨rfl, ⟨used_nonnegative, used_below⟩, later.le, fun id same => ⟨later, ?_⟩⟩
        cases same
        obtain ⟨elapsedMs, made⟩ := Int.eq_ofNat_of_zero_le (not_lt.mp elapsed)
        rw [made, toNat_pack _ (by omega), position]
        dsimp only
        rw [made]
        push_cast
        rfl

end IDGenerator

/-- An identifier, by whom it was issued, and the millisecond that was used. -/
structure Issued where
  generator : Nat
  id : UInt64
  nowMs : Int

structure Generators where
  generators : List IDGenerator
  issued : List Issued := []

namespace Generators

def start (nodeIDs : List UInt16) : Generators := { generators := nodeIDs.map newIDGenerator }

/-- A generator's lock makes a call atomic. It uses up the readings. -/
inductive Action where
  | next (generator : Nat) (readings : List Int)

def Action.readings : Action → List Int
  | .next _ readings => readings

def Enabled (s : Generators) : Action → Prop
  | .next generator readings =>
      At s.generators generator fun g => ((g.next readings).any fun called => called.2.2 = []) = true

def next (s : Generators) : Action → Generators
  | .next generator readings =>
      match s.generators[generator]?.bind fun g => g.next readings with
      | some (.ok id, g, _) =>
          { generators := s.generators.set generator g, issued := s.issued ++ [⟨generator, id, g.lastMs⟩] }
      | some (.error _, g, _) => { s with generators := s.generators.set generator g }
      | none => s

def machine : Machine Generators Action where
  Enabled := Enabled
  next := next
  decideEnabled s a := by
    cases a
    unfold Enabled
    infer_instance

structure Sound (nodeIDs : List UInt16) (s : Generators) : Prop where
  generators : ∀ (i : Nat) (g : IDGenerator), s.generators[i]? = some g → g.Timely ∧
    ∃ nodeID, nodeIDs[i]? = some nodeID ∧ g.nodeID.toNat = nodeID.toNat % 2 ^ 10
  issued : ∀ entry ∈ s.issued, At s.generators entry.generator fun g => (entry.id.toNat : Int) ≤ g.position
  fields : ∀ entry ∈ s.issued, ∃ nodeID, nodeIDs[entry.generator]? = some nodeID ∧
    entry.id.toNat / 2 ^ 12 % 2 ^ 10 = nodeID.toNat % 2 ^ 10 ∧ (entry.id.toNat : Int) / 2 ^ 22 = entry.nowMs - snowflakeEpochMs
  increasing : s.issued.Pairwise fun earlier later => earlier.generator = later.generator → earlier.id < later.id

variable {nodeIDs : List UInt16} {s : Generators} {a : Action}

theorem sound_start (nodeIDs : List UInt16) : Sound nodeIDs (start nodeIDs) where
  generators i g found := by
    simp only [start, List.getElem?_map, Option.map_eq_some_iff] at found
    obtain ⟨nodeID, here, rfl⟩ := found
    have early : (0 : Int) < snowflakeEpochMs + 2 ^ 42 := by decide
    exact ⟨⟨le_refl _, early⟩, nodeID, here, IDGenerator.nodeID_newIDGenerator nodeID⟩
  issued entry member := by simp [start] at member
  fields entry member := by simp [start] at member
  increasing := .nil

theorem Sound.moves (sound : Sound nodeIDs s) {i : Nat} {g g' : IDGenerator} (found : s.generators[i]? = some g)
    (node : g'.nodeID = g.nodeID) (timely : g'.Timely) (ahead : g.position ≤ g'.position) :
    Sound nodeIDs { s with generators := s.generators.set i g' } where
  generators j h there := by
    rw [List.getElem?_set] at there
    split at there
    · next same =>
      subst same
      rw [if_pos (lookup_lt found), Option.some.injEq] at there
      obtain ⟨-, nodeID, known, masked⟩ := sound.generators i g found
      rw [← there, node]
      exact ⟨timely, nodeID, known, masked⟩
    · exact sound.generators j h there
  issued entry member := by
    obtain ⟨h, there, behind⟩ := at_iff.mp (sound.issued entry member)
    rw [at_iff, List.getElem?_set]
    by_cases same : i = entry.generator
    · subst same
      rw [found, Option.some.injEq] at there
      subst there
      exact ⟨g', by rw [if_pos rfl, if_pos (lookup_lt found)], behind.trans ahead⟩
    · exact ⟨h, by rw [if_neg same, there], behind⟩
  fields := sound.fields
  increasing := sound.increasing

theorem Sound.issues (sound : Sound nodeIDs s) {i : Nat} {g g' : IDGenerator} {id : UInt64} (found : s.generators[i]? = some g)
    (node : g'.nodeID = g.nodeID) (timely : g'.Timely) (ahead : g.position < g'.position)
    (made : (id.toNat : Int) = g'.position) :
    Sound nodeIDs { generators := s.generators.set i g', issued := s.issued ++ [⟨i, id, g'.lastMs⟩] } := by
  have moved := sound.moves found node timely ahead.le
  refine ⟨moved.generators, fun entry member => ?_, fun entry member => ?_, ?_⟩
  · rcases List.mem_append.mp member with old | new
    · exact moved.issued entry old
    · rw [List.mem_singleton.mp new, at_iff]
      exact ⟨g', by rw [List.getElem?_set, if_pos rfl, if_pos (lookup_lt found)], made.le⟩
  · rcases List.mem_append.mp member with old | new
    · exact sound.fields entry old
    · rw [List.mem_singleton.mp new]
      obtain ⟨-, nodeID, known, masked⟩ := sound.generators i g found
      refine ⟨nodeID, known, ?_⟩
      have lower := g'.nodeID_lt
      have lowest := g'.sequence_lt
      rw [← masked, ← node]
      unfold IDGenerator.position at made
      dsimp only
      constructor <;> omega
  · refine List.pairwise_append.mpr ⟨sound.increasing, List.pairwise_singleton _ _, ?_⟩
    intro earlier member later new
    rw [List.mem_singleton.mp new]
    rintro rfl
    have behind := (sound.issued earlier member).here found
    rw [UInt64.lt_iff_toNat_lt]
    dsimp only
    omega

theorem sound_next (sound : Sound nodeIDs s) (bounded : ∀ reading ∈ a.readings, reading < snowflakeEpochMs + 2 ^ 42) :
    Sound nodeIDs (next s a) := by
  obtain ⟨i, readings⟩ := a
  unfold next
  dsimp only
  split
  · next id g' rest called =>
    obtain ⟨g, found, called⟩ := Option.bind_eq_some_iff.mp called
    obtain ⟨node, timely, -, made⟩ := IDGenerator.next_position (sound.generators i g found).1 bounded called
    exact sound.issues found node timely (made id rfl).1 (made id rfl).2
  · next failure g' rest called =>
    obtain ⟨g, found, called⟩ := Option.bind_eq_some_iff.mp called
    obtain ⟨node, timely, ahead, -⟩ := IDGenerator.next_position (sound.generators i g found).1 bounded called
    exact sound.moves found node timely ahead
  · exact sound

/-- Whatever the clocks do before the last moment that fits: the identifiers of one generator increase, each tells its
node and its millisecond, and generators of different nodes never issue the same one. -/
theorem ids_unique (nodeIDs : List UInt16) (actions : List Action) (s : Generators)
    (ran : machine.run (start nodeIDs) actions = some s)
    (bounded : machine.Meets (fun _ a => ∀ reading ∈ a.readings, reading < snowflakeEpochMs + 2 ^ 42) (start nodeIDs) actions) :
    s.issued.Pairwise (fun earlier later => earlier.generator = later.generator → earlier.id < later.id) ∧
      (∀ entry ∈ s.issued, ∃ nodeID, nodeIDs[entry.generator]? = some nodeID ∧
        entry.id.toNat / 2 ^ 12 % 2 ^ 10 = nodeID.toNat % 1024 ∧
        (entry.id.toNat : Int) / 2 ^ 22 = entry.nowMs - snowflakeEpochMs) ∧
      ∀ first ∈ s.issued, ∀ second ∈ s.issued, ∀ nodeID nodeID', nodeIDs[first.generator]? = some nodeID →
        nodeIDs[second.generator]? = some nodeID' → nodeID.toNat % 1024 ≠ nodeID'.toNat % 1024 → first.id ≠ second.id := by
  have sound : Sound nodeIDs s :=
    Machine.run_keeps_where (I := Sound nodeIDs) (fun _ _ known allowed _ => sound_next known allowed) ran bounded (sound_start nodeIDs)
  refine ⟨sound.increasing, sound.fields, fun first member second member' nodeID nodeID' known known' different same => ?_⟩
  obtain ⟨_, here, masked, -⟩ := sound.fields first member
  obtain ⟨_, there, masked', -⟩ := sound.fields second member'
  rw [known, Option.some.injEq] at here
  rw [known', Option.some.injEq] at there
  subst here there
  rw [same, masked'] at masked
  exact different masked.symm

/-- Two nodes, a clock that stops and then steps back. -/
theorem ids_unique_two_nodes :
    ((machine.after (start [1, 1026]) [.next 0 [1704067200005], .next 1 [1704067200005], .next 0 [1704067200005],
      .next 0 [1704067200003, 1704067200004], .next 0 [1704067100000]]).issued.Pairwise
        fun earlier later => earlier.generator = later.generator → earlier.id < later.id) :=
  (ids_unique [1, 1026] [.next 0 [1704067200005], .next 1 [1704067200005], .next 0 [1704067200005],
    .next 0 [1704067200003, 1704067200004], .next 0 [1704067100000]] _ (Machine.run_after (by decide +kernel))
    (by decide +kernel)).1

end Generators

end Skygo.Timer
