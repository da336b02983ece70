import Skygo.Transport.InboundStages

/-! The limits of the inbound side of a node: `InboundQueue` requests in all queues together, and
`MaxInboundCalls` calls at a time.

The tokens in `d.slots` and in `d.calls` are those of the requests at certain stages, so a request that
leaves these stages has given its token back, once, whichever way it leaves.
-/

set_option autoImplicit false

attribute [-instance] instBooleanRingBool

namespace Skygo.Transport

open Semantics

namespace Inbound

variable {s t : Inbound} {W V : Stage → Nat → Nat} {c j w : Nat} {before after : Option (Stage × Nat)}
  {told : List Notice} {nodeID incarnation : String} {inboundShards inboundQueue maxInboundCalls : Nat}

section Weights

theorem weigh_add (place : Option (Stage × Nat)) :
    weigh (fun stage j => W stage j + V stage j) place = weigh W place + weigh V place := by
  rcases place with _ | ⟨stage, j⟩ <;> rfl

theorem census_add (s : Inbound) : s.census (fun stage j => W stage j + V stage j) = s.census W + s.census V := by
  have shards : Shard.weigh (fun stage j => W stage j + V stage j) = fun shard => shard.weigh W + shard.weigh V := by
    funext shard
    simp only [Shard.weigh, weigh_add, List.sum_map_add]
    omega
  simp only [census, weigh_add, shards, List.sum_map_add]
  omega

theorem census_zero (s : Inbound) : s.census (fun _ _ => 0) = 0 := by
  have nothing (place : Option (Stage × Nat)) : weigh (fun _ _ => 0) place = 0 := by
    rcases place with _ | ⟨stage, j⟩ <;> rfl
  have shards : Shard.weigh (fun _ _ => 0) = fun _ => 0 := by
    funext shard
    simp [Shard.weigh, nothing]
  simp [census, nothing, shards]

def at_ (s : Inbound) (stage : Stage) : Nat := s.census fun other _ => if other = stage then 1 else 0

end Weights

section Known

def Known (s : Inbound) : Prop :=
  ∀ W V, (∀ stage j, j < s.jobs.length → W stage j = V stage j) → s.census W = s.census V

theorem Passage.ne (passage : s.Passage before after told) (some_ : before ≠ none) : before ≠ after := by
  cases passage <;> simp_all

variable {place : Stage × Nat}

theorem Passage.of_fresh (passage : s.Passage none (some place) told) :
    place.2 = s.jobs.length ∧ (place.1 = .storing ∨ place.1 = .submitting) := by
  cases passage
  · exact ⟨rfl, .inl rfl⟩
  · exact ⟨rfl, .inr rfl⟩

theorem Passage.same {place later : Stage × Nat} (passage : s.Passage (some place) (some later) told) :
    place.2 = later.2 := by
  cases passage <;> rfl

theorem Passes.at_envelope (passes : Passes s t before after told) {p : Envelope → Prop} (known : j < s.jobs.length) :
    At t.jobs j (fun job => p job.envelope) ↔ At s.jobs j fun job => p job.envelope := by
  have recorded := passes.jobs
  generalize t.jobs = later at recorded ⊢
  cases recorded <;> grind

theorem Passes.length_le (passes : Passes s t before after told) : s.jobs.length ≤ t.jobs.length := by
  have recorded := passes.jobs
  generalize t.jobs = later at recorded ⊢
  cases recorded <;> simp

theorem Known.lt (known : s.Known) (passes : Passes s t (some place) after told) :
    place.2 < s.jobs.length := by
  by_contra unread
  -- the weight of this request at this stage alone
  have moved := passes.census fun stage i => if (stage, i) = place then 1 else 0
  have left : weigh (fun stage i => if (stage, i) = place then 1 else 0) after = 0 := by
    have other := passes.passage.ne (by simp)
    rcases after with _ | later
    · rfl
    · exact if_neg fun same => other (congrArg some same.symm)
  have none : s.census (fun stage i => if (stage, i) = place then 1 else 0) = s.census fun _ _ => 0 :=
    known _ _ (by grind)
  rw [none, census_zero, left] at moved
  simp [weigh] at moved

theorem Passes.length_of_fresh (passes : Passes s t none (some place) told) :
    t.jobs.length = s.jobs.length + 1 := by
  have recorded := passes.jobs
  generalize t.jobs = later at recorded ⊢
  cases recorded <;> simp_all

theorem known_next (known : s.Known) (passes : Passes s t before after told) : t.Known := by
  intro W V agree
  have first := passes.census W
  have second := passes.census V
  have same := known W V fun stage j read => agree stage j (Nat.lt_of_lt_of_le read passes.length_le)
  have grows := passes.length_le
  have left : weigh W before = weigh V before := by
    rcases before with _ | place
    · rfl
    · exact agree _ _ (Nat.lt_of_lt_of_le (known.lt passes) grows)
  have enters : weigh W after = weigh V after := by
    rcases after with _ | place
    · rfl
    · refine agree _ _ ?_
      rcases before with _ | place
      · have fresh := passes.passage.of_fresh
        have longer := passes.length_of_fresh
        omega
      · have read := known.lt passes
        have same := passes.passage.same
        omega
  omega

/-- A weight that knows of the requests read what their envelopes say goes with the step. -/
theorem census_moves (weight : Inbound → Stage → Nat → Nat) (known : s.Known) (passes : Passes s t before after told)
    (agree : ∀ stage j, j < s.jobs.length → weight t stage j = weight s stage j)
    (fresh : ∀ j, weight t .storing j = weight s .storing j ∧ weight t .submitting j = weight s .submitting j) :
    t.census (weight t) + weigh (weight s) before = s.census (weight s) + weigh (weight s) after := by
  have moved := passes.census (weight t)
  have same := known (weight t) (weight s) agree
  have left : weigh (weight t) before = weigh (weight s) before := by
    rcases before with _ | place
    · rfl
    · exact agree _ _ (known.lt passes)
  have enters : weigh (weight t) after = weigh (weight s) after := by
    rcases after with _ | ⟨stage, j⟩
    · rfl
    · rcases before with _ | place
      · rcases passes.passage.of_fresh.2 with rfl | rfl
        · exact (fresh j).1
        · exact (fresh j).2
      · have read := known.lt passes
        rw [passes.passage.same] at read
        exact agree stage j read
  omega

end Known

section Balance

def astray (s : Inbound) (stage : Stage) (j : Nat) : Nat :=
  if stage = .pushing ∧ ¬ At s.jobs j (fun job => (s.shardOf job.envelope).isSome = true) then 1 else 0

def slotsHeld (stage : Stage) (j : Nat) : Nat := slotAt (some (stage, j))

def callsHeld (s : Inbound) (stage : Stage) (j : Nat) : Nat := s.callAt (some (stage, j))

structure Balanced (s : Inbound) : Prop where
  told : s.Told
  kinds : ∀ job ∈ s.jobs, job.envelope.kind = .call ∨ job.envelope.kind = .send
  known : s.Known
  slots : s.slots = s.census slotsHeld
  calls : s.calls = s.census s.callsHeld
  aimed : s.census s.astray = 0
  unfilled : s.at_ .full = 0
  slots_le : s.slots ≤ s.inboundQueue
  calls_le : s.calls ≤ s.maxInboundCalls

theorem weigh_slotsHeld (place : Option (Stage × Nat)) : weigh slotsHeld place = slotAt place := by
  rcases place with _ | ⟨stage, j⟩ <;> rfl

theorem weigh_callsHeld (place : Option (Stage × Nat)) : weigh s.callsHeld place = s.callAt place := by
  rcases place with _ | ⟨stage, j⟩ <;> rfl

theorem callsHeld_agree (passes : Passes s t before after told) (stage : Stage) (read : j < s.jobs.length) :
    t.callsHeld stage j = s.callsHeld stage j := by
  cases stage with
  | dispatching => exact if_congr (passes.at_envelope (p := fun e => e.kind = .call) read) rfl rfl
  | _ => rfl

theorem shardOf_of (shards : t.shards.length = s.shards.length) (e : Envelope) : t.shardOf e = s.shardOf e := by
  unfold shardOf
  rw [shards]

theorem length_le_queued {shard : Shard} (found : s.shards[w]? = some shard) : shard.queue.length ≤ s.at_ .queued := by
  have inside := le_sum (g := Shard.weigh fun other _ => if other = .queued then 1 else 0) found
  have length : shard.queue.length ≤ shard.weigh fun other _ => if other = .queued then 1 else 0 := by
    simp [Shard.weigh]
  unfold at_ census
  omega

theorem slotsHeld_split (s : Inbound) :
    s.census slotsHeld = s.at_ .pushing + s.at_ .full + s.at_ .queued + s.at_ .releasing := by
  unfold at_
  rw [← census_add, ← census_add, ← census_add]
  congr 1
  funext stage j
  cases stage <;> rfl

namespace Balanced

theorem room (balanced : s.Balanced) (pushes : ∀ W, W .full j = 0 → W .pushing j ≤ s.census W) :
    ∃ w, At s.jobs j (fun job => s.shardOf job.envelope = some w) ∧
      At s.shards w fun shard => shard.queue.length < s.inboundQueue := by
  have sharded : At s.jobs j fun job => (s.shardOf job.envelope).isSome = true := by
    by_contra lost
    have inside := pushes s.astray rfl
    rw [balanced.aimed, astray, if_pos ⟨rfl, lost⟩] at inside
    omega
  obtain ⟨job, found, sharded⟩ := at_iff.mp sharded
  obtain ⟨w, sharded⟩ := Option.isSome_iff_exists.mp sharded
  have there := List.getElem?_eq_getElem (shardOf_lane sharded).2
  -- the reader's own slot is not one of the queued requests'
  have inside := length_le_queued there
  have one : 1 ≤ s.at_ .pushing := pushes (fun other _ => if other = .pushing then 1 else 0) rfl
  have split := slotsHeld_split s
  have slots := balanced.slots
  have limit := balanced.slots_le
  exact ⟨w, at_iff.mpr ⟨job, found, sharded⟩, at_iff.mpr ⟨_, there, by omega⟩⟩

theorem next (balanced : s.Balanced) (passes : Passes s t before after told) (later : t.Told) : t.Balanced := by
  have slots : t.slots = t.census slotsHeld := by
    have moved := passes.census slotsHeld
    rw [weigh_slotsHeld, weigh_slotsHeld] at moved
    have changed := passes.slots
    have was := balanced.slots
    omega
  have calls : t.calls = t.census t.callsHeld := by
    have moved := census_moves callsHeld balanced.known passes
      (fun stage _ read => callsHeld_agree passes stage read) fun _ => ⟨rfl, rfl⟩
    rw [weigh_callsHeld, weigh_callsHeld] at moved
    have changed := passes.calls
    have was := balanced.calls
    omega
  refine ⟨later, ?_, known_next balanced.known passes, slots, calls, ?_, ?_, ?_, ?_⟩
  · generalize jobs : t.jobs = later
    have recorded := passes.jobs
    rw [jobs] at recorded
    intro job member
    have canceled {i : Nat} (inside : job ∈ s.jobs.modify i fun job => { job with canceled := true }) :
        job.envelope.kind = .call ∨ job.envelope.kind = .send := by
      obtain ⟨k, found⟩ := List.mem_iff_getElem?.mp inside
      rcases lookup_modify found with ⟨_, old, was, rfl⟩ | ⟨_, was⟩
      · exact balanced.kinds old (List.mem_of_getElem? was)
      · exact balanced.kinds job (List.mem_of_getElem? was)
    cases recorded with
    | same | moved => exact balanced.kinds job member
    | cancel i => exact canceled member
    | cutOff j => exact canceled member
    | read fresh _ kind =>
      rcases List.mem_append.mp member with old | new
      · exact balanced.kinds job old
      · cases List.mem_singleton.mp new
        exact kind.imp And.left And.left
  · have moved := census_moves astray balanced.known passes (fun stage j read => ?_) fun j => ⟨rfl, rfl⟩
    · have none : weigh s.astray after = 0 := by
        cases passes.passage with
        | slot j w sharded => exact if_neg fun lost => lost.2 (sharded.mono fun job is => by rw [is]; rfl)
        | _ => rfl
      rw [balanced.aimed, none] at moved
      omega
    · have same := passes.at_envelope (p := fun e => (s.shardOf e).isSome = true) read
      simp only [astray, shardOf_of passes.shards, same]
  · have moved := passes.census fun other _ => if other = .full then 1 else 0
    have none : weigh (fun other _ => if other = Stage.full then 1 else 0) after = 0 := by
      cases passage : passes.passage with
      | noRoom j crowded =>
        obtain ⟨w, aimed, room⟩ := balanced.room (j := j) fun W none => by
          have moved := passes.census W
          simp only [weigh, none] at moved
          omega
        obtain ⟨job, found, sharded⟩ := at_iff.mp aimed
        exact absurd room (crowded.here found w sharded)
      | _ => rfl
    have was := balanced.unfilled
    unfold at_ at *
    omega
  · have changed := passes.slots
    have limit := balanced.slots_le
    rw [passes.inboundQueue]
    cases passes.passage with
    | slot j w sharded room => simp only [slotAt] at changed; omega
    | _ => simp only [slotAt] at changed; omega
  · have changed := passes.calls
    have limit := balanced.calls_le
    rw [passes.maxInboundCalls]
    cases passes.passage with
    | acquire j room =>
      simp only [callAt] at changed
      split at changed
      · next call => have := room call; omega
      · omega
    | deliverCall j call =>
      simp only [callAt, if_pos call] at changed
      omega
    | _ => simp only [callAt] at changed; omega

end Balanced

theorem balanced_next {a : Action} (balanced : s.Balanced) (enabled : s.Enabled a) : (s.next a).Balanced := by
  obtain ⟨_, _, _, passes, _⟩ := acts_next balanced.kinds balanced.told enabled
  exact balanced.next passes (told_next balanced.told enabled)

theorem census_initial (W : Stage → Nat → Nat) :
    (initial nodeID incarnation inboundShards inboundQueue maxInboundCalls).census W = 0 := by
  simp [census, initial, Shard.weigh, Worker.stage, weigh]

theorem balanced_initial : (initial nodeID incarnation inboundShards inboundQueue maxInboundCalls).Balanced :=
  ⟨told_reachable (.refl _), fun _ member => absurd member List.not_mem_nil, fun W V _ => (census_initial W).trans (census_initial V).symm,
    (census_initial _).symm, (census_initial _).symm, census_initial _, census_initial _, Nat.zero_le _, Nat.zero_le _⟩

end Balance

section Tokens

/-- The tokens of `d.slots` that a step takes and gives back for a request. -/
def slotsTaken (j : Nat) (s : Inbound) (a : Action) : Nat :=
  if s.subject a = some j then (s.next a).slots - s.slots else 0

def slotsGiven (j : Nat) (s : Inbound) (a : Action) : Nat :=
  if s.subject a = some j then s.slots - (s.next a).slots else 0

def callsTaken (j : Nat) (s : Inbound) (a : Action) : Nat :=
  if s.subject a = some j then (s.next a).calls - s.calls else 0

def callsGiven (j : Nat) (s : Inbound) (a : Action) : Nat :=
  if s.subject a = some j then s.calls - (s.next a).calls else 0

def queuedFor (s : Inbound) (j : Nat) : Nat := (s.shards.map fun shard => shard.queue.count j).sum

def dequeued (j : Nat) (s : Inbound) (a : Action) : Nat := s.queuedFor j - (s.next a).queuedFor j

def only (j : Nat) (W : Stage → Nat → Nat) (stage : Stage) (i : Nat) : Nat := if i = j then W stage i else 0

variable {stage : Stage}

theorem weigh_only_self : weigh (only j W) (some (stage, j)) = weigh W (some (stage, j)) := if_pos rfl

theorem weigh_only_ne {i : Nat} (other : i ≠ j) : weigh (only j W) (some (stage, i)) = 0 := if_neg other

theorem Passage.weigh_self {k : Nat} (passage : s.Passage (some (stage, k)) after told) :
    weigh (only k W) after = weigh W after := by
  rcases after with _ | ⟨later, i⟩
  · rfl
  · obtain rfl : k = i := passage.same
    exact weigh_only_self

theorem Passage.weigh_ne {k : Nat} (passage : s.Passage (some (stage, k)) after told) (other : k ≠ j) :
    weigh (only j W) after = 0 := by
  rcases after with _ | ⟨later, i⟩
  · rfl
  · obtain rfl : k = i := passage.same
    exact weigh_only_ne other

theorem balances_of (weight : Inbound → Stage → Nat → Nat) (count : Inbound → Nat) {i : Option Nat} (known : s.Known)
    (passes : Passes s t before after told) (about : ∀ place, before = some place → i = some place.2)
    (agree : ∀ stage j, j < s.jobs.length → weight t stage j = weight s stage j)
    (fresh : ∀ u j, weight u .storing j = 0 ∧ weight u .submitting j = 0)
    (changed : count t = count s + weigh (weight s) after - weigh (weight s) before)
    (enough : weigh (weight s) before ≤ count s + weigh (weight s) after) :
    t.census (only j (weight t)) + (if i = some j then count s - count t else 0) =
      s.census (only j (weight s)) + if i = some j then count t - count s else 0 := by
  have moved := census_moves (fun u => only j (weight u)) known passes
    (fun stage i read => by simp only [only, agree stage i read]) fun i => by simp [only, fresh]
  rcases before with _ | ⟨stage, k⟩
  · have none : weigh (weight s) after = 0 ∧ weigh (only j (weight s)) after = 0 := by
      rcases after with _ | ⟨stage, k⟩
      · exact ⟨rfl, rfl⟩
      · rcases passes.passage.of_fresh.2 with rfl | rfl <;> simp [weigh, only, fresh]
    rw [none.1] at changed
    rw [none.2] at moved
    have same : count t = count s := changed
    rw [same, Nat.sub_self]
    simpa [weigh] using moved
  · obtain rfl := about _ rfl
    by_cases here : k = j
    · subst here
      rw [if_pos rfl, if_pos rfl]
      rw [weigh_only_self, passes.passage.weigh_self] at moved
      omega
    · have other : ¬ some k = some j := fun same => here (Option.some.inj same)
      rw [weigh_only_ne here, passes.passage.weigh_ne here] at moved
      simpa [other] using moved

def unread (s : Inbound) (j : Nat) : Nat := if j < s.jobs.length then 0 else 1

theorem spends_of {may : Stage → Nat} (count : Inbound → Nat) {i : Option Nat}
    (passes : Passes s t before after told) (about : ∀ place, before = some place → i = some place.2)
    (starts : may .storing ≤ 1 ∧ may .submitting ≤ 1) (level : before = none → count t = count s)
    (falls : before ≠ none → weigh (fun stage _ => may stage) after + (count t - count s) ≤
      weigh (fun stage _ => may stage) before) :
    t.census (only j fun stage _ => may stage) + t.unread j + (if i = some j then count t - count s else 0) ≤
      s.census (only j fun stage _ => may stage) + s.unread j := by
  have moved := passes.census (only j fun stage _ => may stage)
  have grows := passes.length_le
  have read : t.unread j ≤ s.unread j := by
    unfold unread
    split <;> split <;> omega
  rcases before with _ | ⟨stage, k⟩
  · rw [level rfl, Nat.sub_self]
    rcases after with _ | ⟨later, k⟩
    · simp only [weigh] at moved
      split <;> omega
    · obtain ⟨rfl, at_⟩ := passes.passage.of_fresh
      have longer := passes.length_of_fresh
      have weight : may later ≤ 1 := by
        rcases at_ with rfl | rfl
        · exact starts.1
        · exact starts.2
      by_cases here : s.jobs.length = j
      · subst here
        have gone : t.unread s.jobs.length = 0 := if_pos (by omega)
        have was : s.unread s.jobs.length = 1 := if_neg (by omega)
        rw [weigh_only_self] at moved
        simp only [weigh] at moved
        split <;> omega
      · rw [weigh_only_ne here] at moved
        simp only [weigh] at moved
        split <;> omega
  · obtain rfl := about _ rfl
    have falls := falls (by simp)
    by_cases here : k = j
    · subst here
      rw [weigh_only_self, passes.passage.weigh_self] at moved
      rw [if_pos rfl]
      omega
    · have other : ¬ some k = some j := fun same => here (Option.some.inj same)
      rw [weigh_only_ne here, passes.passage.weigh_ne here] at moved
      rw [if_neg other]
      omega

variable {a : Action}

theorem slots_balance (balanced : s.Balanced) (enabled : s.Enabled a) (j : Nat) :
    (s.next a).census (only j slotsHeld) + slotsGiven j s a = s.census (only j slotsHeld) + slotsTaken j s a := by
  obtain ⟨before, after, _, passes, about⟩ := acts_next balanced.kinds balanced.told enabled
  have moved := passes.census slotsHeld
  have was := balanced.slots
  have changed := passes.slots
  rw [← weigh_slotsHeld, ← weigh_slotsHeld] at changed
  exact balances_of (fun _ => slotsHeld) slots balanced.known passes about (fun _ _ _ => rfl)
    (fun _ _ => ⟨rfl, rfl⟩) changed (by omega)

theorem calls_balance (balanced : s.Balanced) (enabled : s.Enabled a) (j : Nat) :
    (s.next a).census (only j (s.next a).callsHeld) + callsGiven j s a =
      s.census (only j s.callsHeld) + callsTaken j s a := by
  obtain ⟨before, after, _, passes, about⟩ := acts_next balanced.kinds balanced.told enabled
  have moved := passes.census s.callsHeld
  have was := balanced.calls
  have changed := passes.calls
  rw [← weigh_callsHeld, ← weigh_callsHeld] at changed
  exact balances_of callsHeld calls balanced.known passes about
    (fun stage _ read => callsHeld_agree passes stage read) (fun _ _ => ⟨rfl, rfl⟩) changed (by omega)

def wantsSlot : Stage → Nat
  | .storing | .submitting => 1
  | _ => 0

def wantsCall : Stage → Nat
  | .dispatching | .waiting | .responding | .returning => 0
  | _ => 1

theorem slots_spend (balanced : s.Balanced) (enabled : s.Enabled a) (j : Nat) :
    (s.next a).census (only j fun stage _ => wantsSlot stage) + (s.next a).unread j + slotsTaken j s a ≤
      s.census (only j fun stage _ => wantsSlot stage) + s.unread j := by
  obtain ⟨before, after, told, passes, about⟩ := acts_next balanced.kinds balanced.told enabled
  have changed := passes.slots
  have passage := passes.passage
  refine spends_of slots passes about ⟨Nat.le_refl _, Nat.le_refl _⟩ (fun none => ?_) fun some_ => ?_
  · subst none
    cases passage <;> exact changed
  · cases passage with
    | stays | readCall | readSend => exact absurd rfl some_
    | _ => simp only [slotAt, weigh, wantsSlot] at changed ⊢; omega

theorem calls_spend (balanced : s.Balanced) (enabled : s.Enabled a) (j : Nat) :
    (s.next a).census (only j fun stage _ => wantsCall stage) + (s.next a).unread j + callsTaken j s a ≤
      s.census (only j fun stage _ => wantsCall stage) + s.unread j := by
  obtain ⟨before, after, told, passes, about⟩ := acts_next balanced.kinds balanced.told enabled
  have changed := passes.calls
  have passage := passes.passage
  refine spends_of calls passes about ⟨Nat.le_refl _, Nat.le_refl _⟩ (fun none => ?_) fun some_ => ?_
  · subst none
    cases passage <;> exact changed
  · have token (i : Nat) : s.callAt (some (.dispatching, i)) ≤ 1 := by
      show (if _ then 1 else 0) ≤ 1
      split <;> omega
    cases passage with
    | stays | readCall | readSend => exact absurd rfl some_
    | acquire i =>
      have token := token i
      simp only [weigh, wantsCall]
      have none : s.callAt (some (.accepting, i)) = 0 := rfl
      omega
    | deliverCall i call =>
      simp only [callAt, if_pos call] at changed
      simp only [weigh, wantsCall]
      omega
    | _ => simp only [callAt, weigh, wantsCall] at changed ⊢; omega

theorem queuedFor_eq (s : Inbound) (j : Nat) :
    s.queuedFor j = s.census (only j fun stage _ => if stage = .queued then 1 else 0) := by
  have reader (r : Reader) : weigh (only j fun stage _ => if stage = .queued then 1 else 0) r.stage = 0 := by
    cases r <;> simp [Reader.stage, weigh, only]
  have worker (r : Worker) : weigh (only j fun stage _ => if stage = .queued then 1 else 0) r.stage = 0 := by
    cases r <;> simp [Worker.stage, weigh, only]
  have reply (r : Reply) : weigh (only j fun stage _ => if stage = .queued then 1 else 0) r.stage = 0 := by
    unfold Reply.stage
    split <;> simp [weigh, only]
  have shards : (Shard.weigh (only j fun stage _ => if stage = .queued then 1 else 0)) =
      fun shard => shard.queue.count j := by
    have weight : only j (fun stage _ => if stage = .queued then 1 else 0) .queued = fun i => if i = j then 1 else 0 := by
      funext i
      simp [only]
    funext shard
    rw [Shard.weigh, worker, weight]
    induction shard.queue with
    | nil => rfl
    | cons i rest ih =>
      simp only [List.map_cons, List.sum_cons, List.count_cons, beq_iff_eq]
      omega
  simp [queuedFor, census, reader, reply, shards]

theorem Passage.dequeues {k : Nat} (passage : s.Passage (some (stage, k)) after told)
    (unfilled : stage ≠ .full) :
    weigh (fun stage _ => if stage = .releasing then 1 else 0) after + (slotAt (some (stage, k)) - slotAt after) =
      weigh (fun stage _ => if stage = .releasing then 1 else 0) (some (stage, k)) +
        (weigh (fun stage _ => if stage = .queued then 1 else 0) (some (stage, k)) -
          weigh (fun stage _ => if stage = .queued then 1 else 0) after) := by
  cases passage with
  | restore => exact absurd rfl unfilled
  | _ => rfl

/-- A request that is taken from a queue is with the worker until its slot is given back. -/
theorem dequeued_balance (balanced : s.Balanced) (enabled : s.Enabled a) (j : Nat) :
    (s.next a).census (only j fun stage _ => if stage = .releasing then 1 else 0) + slotsGiven j s a =
      s.census (only j fun stage _ => if stage = .releasing then 1 else 0) + dequeued j s a := by
  obtain ⟨before, after, told, passes, about⟩ := acts_next balanced.kinds balanced.told enabled
  have moved := passes.census (only j fun stage _ => if stage = .releasing then 1 else 0)
  have queued := passes.census (only j fun stage _ => if stage = .queued then 1 else 0)
  have changed := passes.slots
  have passage := passes.passage
  unfold dequeued slotsGiven
  rw [queuedFor_eq, queuedFor_eq]
  rcases before with _ | ⟨stage, i⟩
  · have same : (s.next a).slots = s.slots := by cases passage <;> exact changed
    rw [same, Nat.sub_self, ite_self]
    cases passage <;> simp [weigh, only] at moved queued ⊢ <;> omega
  · rw [about _ rfl]
    by_cases here : i = j
    · subst here
      rw [if_pos rfl]
      have unfilled : stage ≠ .full := by
        rintro rfl
        cases passage
        have full := passes.census fun stage _ => if stage = .full then 1 else 0
        have none := balanced.unfilled
        simp only [weigh, at_, reduceCtorEq, if_true, if_false] at full none
        omega
      have step := passage.dequeues unfilled
      -- the slot it gives back was counted
      have was := balanced.slots
      have held := passes.census slotsHeld
      rw [weigh_slotsHeld, weigh_slotsHeld] at held
      rw [weigh_only_self, passage.weigh_self] at moved queued
      omega
    · have other : ¬ some i = some j := fun same => here (Option.some.inj same)
      rw [weigh_only_ne here, passage.weigh_ne here] at moved queued
      rw [if_neg other]
      omega

end Tokens

section Bounds

theorem census_mono (less : ∀ stage j, W stage j ≤ V stage j) : s.census W ≤ s.census V := by
  have split : V = fun stage j => W stage j + (V stage j - W stage j) := by
    funext stage j
    have := less stage j
    omega
  rw [split, census_add]
  omega

theorem weigh_reader_le {conn : InboundConn} (found : s.conns[c]? = some conn) : weigh W conn.reader.stage ≤ s.census W := by
  have inside := le_sum (g := fun conn : InboundConn => weigh W conn.reader.stage) found
  unfold census
  omega

theorem weigh_worker_le {shard : Shard} (found : s.shards[w]? = some shard) : weigh W shard.worker.stage ≤ s.census W := by
  have inside := le_sum (g := Shard.weigh W) found
  unfold census
  simp only [Shard.weigh] at inside
  omega

theorem weigh_reply_le {r : Nat} {reply : Reply} (found : s.replies[r]? = some reply) : weigh W reply.stage ≤ s.census W := by
  have inside := le_sum (g := fun reply : Reply => weigh W reply.stage) found
  unfold census
  omega

def queued (s : Inbound) : Nat := (s.shards.map fun shard => shard.queue.length).sum

theorem queued_le (s : Inbound) : s.queued ≤ s.at_ .queued := by
  have shards : (s.shards.map fun shard => shard.queue.length).sum ≤
      (s.shards.map (Shard.weigh fun other _ => if other = .queued then 1 else 0)).sum := by
    refine List.sum_le_sum fun shard _ => ?_
    simp [Shard.weigh]
  unfold queued at_ census
  omega

/-- What a run did with the tokens of a request: it took each of them at most once, and each token taken was given back
once or is still held. -/
structure Released (start : Inbound) (actions : List Action) (s : Inbound) (j : Nat) : Prop where
  slot : machine.tally (slotsTaken j) start actions ≤ 1
  slotBack : machine.tally (slotsTaken j) start actions =
    machine.tally (slotsGiven j) start actions + s.census (only j slotsHeld)
  dequeuedBack : machine.tally (dequeued j) start actions =
    machine.tally (slotsGiven j) start actions + s.census (only j fun stage _ => if stage = .releasing then 1 else 0)
  call : machine.tally (callsTaken j) start actions ≤ 1
  callBack : machine.tally (callsTaken j) start actions =
    machine.tally (callsGiven j) start actions + s.census (only j s.callsHeld)
  allBack : s.census (only j fun _ _ => 1) = 0 →
    machine.tally (slotsGiven j) start actions = machine.tally (slotsTaken j) start actions ∧
      machine.tally (callsGiven j) start actions = machine.tally (callsTaken j) start actions

theorem released_run {start : Inbound} {actions : List Action} (balanced : start.Balanced) (empty : ∀ W, start.census W = 0)
    (ran : machine.run start actions = some s) (j : Nat) : Released start actions s j := by
  have keeps (s : Inbound) (a : Action) (balanced : s.Balanced) (enabled : machine.Enabled s a) :
      (machine.next s a).Balanced := balanced_next balanced enabled
  have slots := Machine.run_balances (I := Balanced) (fun s => s.census (only j slotsHeld)) keeps
    (fun _ _ balanced enabled => slots_balance balanced enabled j) ran balanced
  have calls := Machine.run_balances (I := Balanced) (fun s => s.census (only j s.callsHeld)) keeps
    (fun _ _ balanced enabled => calls_balance balanced enabled j) ran balanced
  have queue := Machine.run_balances (I := Balanced)
    (fun s => s.census (only j fun stage _ => if stage = .releasing then 1 else 0)) keeps
    (fun _ _ balanced enabled => dequeued_balance balanced enabled j) ran balanced
  have slot := Machine.run_spends (I := Balanced)
    (fun s => s.census (only j fun stage _ => wantsSlot stage) + s.unread j) keeps
    (fun _ _ balanced enabled => slots_spend balanced enabled j) ran balanced
  have call := Machine.run_spends (I := Balanced)
    (fun s => s.census (only j fun stage _ => wantsCall stage) + s.unread j) keeps
    (fun _ _ balanced enabled => calls_spend balanced enabled j) ran balanced
  have first : start.unread j ≤ 1 := by
    unfold unread
    split <;> omega
  simp only [empty] at slots calls queue slot call
  refine ⟨by omega, by omega, by omega, by omega, by omega, fun gone => ?_⟩
  have none {W : Stage → Nat → Nat} (light : ∀ stage i, W stage i ≤ 1) : s.census (only j W) = 0 := by
    have less : s.census (only j W) ≤ s.census (only j fun _ _ => 1) := by
      refine census_mono fun stage i => ?_
      unfold only
      split
      · exact light stage i
      · exact Nat.le_refl _
    omega
  have noSlot := none (W := slotsHeld) fun stage i => by cases stage <;> simp [slotsHeld, slotAt]
  have noCall := none (W := s.callsHeld) fun stage i => by
    cases stage <;> simp only [callsHeld, callAt] <;> first | omega | (split <;> omega)
  omega

def aimedAt (s : Inbound) (w : Nat) : Envelope where
  kind := .send
  sourceNode := ""
  target := some ⟨s.nodeID, s.incarnation, "", w, 0⟩

structure Hot (s : Inbound) (w k : Nat) : Prop where
  reader : At s.conns 0 fun conn => conn.reader = .reading ∧ conn.closed = false ∧ conn.remoteNode = ""
  queue : At s.shards w fun shard => shard.queue.length = k
  slots : s.slots = k

theorem Hot.fill {k : Nat} (hot : s.Hot w k) (room : k < s.inboundQueue) :
    ∃ t, machine.Reachable s t ∧ t.Hot w (k + 1) ∧ t.inboundQueue = s.inboundQueue := by
  obtain ⟨conn, found, reading, closed, remote⟩ := at_iff.mp hot.reader
  obtain ⟨shard, there, length⟩ := at_iff.mp hot.queue
  have bound := lookup_lt there
  have sharded : ∀ u : Inbound, u.shards.length = s.shards.length → u.shardOf (s.aimedAt w) = some w := by
    intro u same
    simp [shardOf, aimedAt, same, Nat.mod_eq_of_lt bound, Nat.ne_zero_of_lt bound]
  -- the reader reads the request
  let read := s.beginAdmission 0 conn (s.aimedAt w) .submitting
  have reads : s.next (.read 0 (s.aimedAt w)) = read := by
    simp [next, Inbound.read, found, aimedAt, remote, read]
  have job : read.jobs[s.jobs.length]? = some ⟨0, conn.admission.next + 1, s.aimedAt w, false⟩ :=
    List.getElem?_concat_length ..
  have submitting : read.conns[0]? = some { conn with
      admission := conn.admission.begin
      reader := .submitting s.jobs.length
      log := conn.log ++ [.request s.jobs.length] } := lookup_modify_self found
  -- it takes a slot
  let pushing : Inbound := { read.setReader 0 (.pushing s.jobs.length) with slots := s.slots + 1 }
  have submits : read.next (.submit 0 s.jobs.length) = pushing := by
    have short : read.slots < read.inboundQueue := hot.slots ▸ room
    simp only [next, withJob_of job, submit, sharded read rfl, if_pos short]
    rfl
  -- and the queue has room
  have pushes : (pushing.next (.push 0 s.jobs.length)) =
      (pushing.setReader 0 .reading).setShard w fun shard => { shard with queue := shard.queue ++ [s.jobs.length] } := by
    have short : At pushing.shards w fun shard => shard.queue.length < pushing.inboundQueue :=
      at_iff.mpr ⟨shard, there, length ▸ room⟩
    have known : pushing.jobs[s.jobs.length]? = some ⟨0, conn.admission.next + 1, s.aimedAt w, false⟩ := job
    simp only [next, withJob_of known, push, sharded pushing rfl, if_pos short]
  refine ⟨pushing.next (.push 0 s.jobs.length), ?_, ?_⟩
  · have first : machine.Reachable s read := reads ▸ reachable_next (at_iff.mpr ⟨conn, found, reading, closed⟩)
    have second : machine.Reachable read pushing := submits ▸ reachable_next (at_iff.mpr ⟨_, submitting, rfl⟩)
    refine (first.trans second).trans (reachable_next ?_)
    exact at_iff.mpr ⟨_, lookup_modify_self submitting, rfl⟩
  · rw [pushes]
    refine ⟨⟨?_, ?_, ?_⟩, rfl⟩
    · exact at_iff.mpr ⟨_, lookup_modify_self (lookup_modify_self submitting), rfl, closed, remote⟩
    · exact at_iff.mpr ⟨_, lookup_modify_self there, by simp [length]⟩
    · show s.slots + 1 = k + 1
      rw [hot.slots]

theorem Hot.fills {k : Nat} (hot : s.Hot w k) (n : Nat) (room : k + n ≤ s.inboundQueue) :
    ∃ t, machine.Reachable s t ∧ t.Hot w (k + n) := by
  induction n generalizing s k with
  | zero => exact ⟨s, .refl s, hot⟩
  | succ n ih =>
    obtain ⟨u, first, later, same⟩ := hot.fill (by omega)
    obtain ⟨t, rest, last⟩ := ih later (by omega)
    refine ⟨t, first.trans rest, ?_⟩
    rwa [Nat.add_right_comm] at last

theorem hot_shard (bound : w < inboundShards) :
    ∃ t, machine.Reachable (initial nodeID incarnation inboundShards inboundQueue maxInboundCalls) t ∧
      At t.shards w fun shard => shard.queue.length = inboundQueue := by
  let start := initial nodeID incarnation inboundShards inboundQueue maxInboundCalls
  have first : machine.Reachable start (start.next (.accept "")) := reachable_next trivial
  have hot : (start.next (.accept "")).Hot w 0 :=
    ⟨⟨rfl, rfl, rfl⟩, at_iff.mpr ⟨{}, by simp [next, start, initial, bound], rfl⟩, rfl⟩
  obtain ⟨t, rest, full⟩ := hot.fills inboundQueue (Nat.le_of_eq (Nat.zero_add _))
  refine ⟨t, first.trans rest, full.queue.mono fun shard length => ?_⟩
  rw [length, Nat.zero_add]

/-- In every state of every run: what is queued over all shards is within the slots taken, and these within
`InboundQueue`, which one shard alone can fill; a reader with a slot finds room; every token belongs to a request at a
stage that holds one, so a receive from `d.slots` or `d.calls` never waits; at most `MaxInboundCalls` calls hold one;
and each token taken is given back once. -/
theorem inbound_bounds {actions : List Action}
    (ran : machine.run (initial nodeID incarnation inboundShards inboundQueue maxInboundCalls) actions = some s) :
    (s.queued ≤ s.slots ∧ s.slots ≤ inboundQueue ∧ s.calls ≤ maxInboundCalls) ∧
    (∀ c j, At s.conns c (fun conn => conn.reader = .pushing j) →
      ∃ w, At s.jobs j (fun job => s.shardOf job.envelope = some w) ∧
        At s.shards w fun shard => shard.queue.length < inboundQueue) ∧
    (∀ c j, ¬ At s.conns c fun conn => conn.reader = .full j) ∧
    (∀ w < inboundShards, ∃ t, machine.Reachable (initial nodeID incarnation inboundShards inboundQueue maxInboundCalls) t ∧
      At t.shards w fun shard => shard.queue.length = inboundQueue) ∧
    (s.slots = s.census slotsHeld ∧ s.calls = s.census s.callsHeld) ∧
    (∀ w j, s.Enabled (.release w j) → 0 < s.slots) ∧
    (∀ w j err, s.Enabled (.fail w j err) → At s.jobs j (fun job => job.envelope.kind = .call) → 0 < s.calls) ∧
    (∀ r, s.Enabled (.free r) → 0 < s.calls) ∧
    ∀ j, Released (initial nodeID incarnation inboundShards inboundQueue maxInboundCalls) actions s j := by
  obtain ⟨balanced, queue, limit⟩ : s.Balanced ∧ s.inboundQueue = inboundQueue ∧ s.maxInboundCalls = maxInboundCalls := by
    refine Machine.run_keeps (I := fun s => s.Balanced ∧ s.inboundQueue = inboundQueue ∧ s.maxInboundCalls = maxInboundCalls)
      (fun s a known enabled => ?_) ran ⟨balanced_initial, rfl, rfl⟩
    obtain ⟨balanced, queue, limit⟩ := known
    obtain ⟨_, _, _, passes, _⟩ := acts_next balanced.kinds balanced.told enabled
    exact ⟨balanced.next passes (told_next balanced.told enabled), passes.inboundQueue.trans queue, passes.maxInboundCalls.trans limit⟩
  refine ⟨⟨?_, queue ▸ balanced.slots_le, limit ▸ balanced.calls_le⟩, fun c j pushes => ?_, fun c j full => ?_,
    fun w bound => hot_shard bound, ⟨balanced.slots, balanced.calls⟩, fun w j enabled => ?_, fun w j err enabled call => ?_,
    fun r enabled => ?_, fun j => ?_⟩
  · have inside := queued_le s
    have split := slotsHeld_split s
    have slots := balanced.slots
    omega
  · obtain ⟨conn, found, at_⟩ := at_iff.mp pushes
    rw [← queue]
    refine balanced.room fun W _ => ?_
    have inside := weigh_reader_le (W := W) found
    rw [at_] at inside
    exact inside
  · obtain ⟨conn, found, is⟩ := at_iff.mp full
    have inside := weigh_reader_le (W := fun other _ => if other = .full then 1 else 0) found
    have none := balanced.unfilled
    rw [is] at inside
    simp only [Reader.stage, weigh, if_true] at inside
    unfold at_ at none
    omega
  · obtain ⟨shard, found, is⟩ := at_iff.mp enabled
    have inside := weigh_worker_le (W := slotsHeld) found
    rw [is, ← balanced.slots] at inside
    exact inside
  · obtain ⟨shard, found, is⟩ := at_iff.mp enabled
    have inside := weigh_worker_le (W := s.callsHeld) found
    rw [is, ← balanced.calls] at inside
    have token : s.callsHeld .dispatching j = 1 := if_pos call
    simp only [Worker.stage, weigh, token] at inside
    exact inside
  · obtain ⟨reply, found, is⟩ := at_iff.mp enabled
    have inside := weigh_reply_le (W := s.callsHeld) found
    rw [Reply.stage, is, ← balanced.calls] at inside
    exact inside
  · refine released_run balanced_initial (fun W => ?_) ran j
    exact census_initial W

def callTo (requestID address : Nat) : Envelope where
  kind := .call
  requestID := requestID
  sourceNode := "a"
  target := some ⟨"b", "1", "echo", address, 1⟩

def oneAtATime : List Action :=
  [.accept "a", .read 0 (callTo 1 0), .store 0 0, .submit 0 0, .push 0 0, .read 0 (callTo 2 0), .store 0 1, .submit 0 1,
    .push 0 1, .take 0 0, .release 0 0, .check 0 0, .acquire 0 0, .deliver 0 0, .finish 0 0, .take 0 1, .release 0 1,
    .check 0 1, .acquire 0 1, .finish 0 1, .complete 0 0 none, .respond 0 0 none, .free 0]

theorem inbound_bounds_oneAtATime :
    ∃ s, machine.run (initial "b" "1" 2 2 1) oneAtATime = some s ∧ s.slots = 0 ∧ s.calls = 0 ∧
      s.notices = [.response 1 2 (some (.bare .transportBackpressure)), .response 0 1 none] ∧
      machine.tally (callsTaken 0) (initial "b" "1" 2 2 1) oneAtATime = 1 ∧
      machine.tally (callsGiven 0) (initial "b" "1" 2 2 1) oneAtATime = 1 ∧
      machine.tally (slotsGiven 1) (initial "b" "1" 2 2 1) oneAtATime = 1 := by
  have ran : machine.run (initial "b" "1" 2 2 1) oneAtATime = some (machine.after (initial "b" "1" 2 2 1) oneAtATime) :=
    Machine.run_after (by decide +kernel)
  obtain ⟨_, _, _, _, _, _, _, _, released⟩ := inbound_bounds ran
  have first : machine.tally (callsTaken 0) (initial "b" "1" 2 2 1) oneAtATime = 1 := by decide +kernel
  have second : machine.tally (slotsTaken 1) (initial "b" "1" 2 2 1) oneAtATime = 1 := by decide +kernel
  have back := ((released 0).allBack (by decide +kernel)).2
  have slot := ((released 1).allBack (by decide +kernel)).1
  exact ⟨_, ran, by decide +kernel, by decide +kernel, by decide +kernel, first, back.trans first, slot.trans second⟩

end Bounds

end Inbound

end Skygo.Transport
