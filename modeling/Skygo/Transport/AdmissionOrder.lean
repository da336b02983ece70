import Skygo.Transport.AdmissionSound

/-! The order of requests: what a line's log says about its requests and barriers, and that a lane
delivers the requests of one line in the order in which they were read.
-/

set_option autoImplicit false

attribute [-instance] instBooleanRingBool

namespace Skygo.Transport

open Semantics
open scoped List

def Line.sequences (line : Line) : List Nat := line.barriers.map Barrier.sequence

structure Line.Logged (line : Line) (c : Nat) (tickets : List Ticket) : Prop where
  requests : ∀ j, .request j ∈ line.log ↔ At tickets j fun ticket => ticket.line = c
  barriers : ∀ b, .barrier b ∈ line.log → b < line.sequences.length
  behind : ∀ j b, Precedes line.log (.request j) (.barrier b) →
    At tickets j fun ticket => At line.sequences b fun sequence => ticket.sequence ≤ sequence
  increasing : (line.log.filterMap Read.request?).Pairwise (· < ·)

namespace Admission

variable {s : Admission} {a : Action} {c i j w : Nat} {line later : Line}

def Logged (s : Admission) : Prop :=
  ∀ (c : Nat) (line : Line), s.lines[c]? = some line → line.Logged c s.tickets

theorem on_next (enabled : s.Enabled a) :
    (s.next a).On c j ↔ s.On c j ∨ a.begun? = some c ∧ j = s.tickets.length := by
  rcases tickets_next enabled with ⟨same, none⟩ | ⟨_, _, _, rfl, -, more⟩
  · simp [On, same, none]
  · rw [On, more]
    grind [List.getElem?_concat_length]

theorem Sound.on_lt (sound : Sound s) (on : s.On c j) : j < s.tickets.length ∧ c < s.lines.length := by
  obtain ⟨ticket, found, rfl⟩ := at_iff.mp on
  obtain ⟨mark, there, -⟩ := at_iff.mp (sound.numbered j ticket found)
  exact ⟨lookup_lt found, by simpa [marks] using lookup_lt there⟩

theorem LineMoves.log (moves : s.LineMoves c line a later) :
    (later.log = line.log ∨ later.log = line.log ++ [.other]) ∧ later.sequences = line.sequences ∧ a.begun? ≠ some c ∨
    later.log = line.log ++ [.request s.tickets.length] ∧ later.sequences = line.sequences ∧ a.begun? = some c ∨
    later.log = line.log ++ [.barrier line.sequences.length] ∧ later.sequences = line.sequences ++ [line.mark.next] ∧
      a.begun? = none := by
  cases moves with
  | bars a b f _ _ keeps =>
    have same : (line.barriers.modify b f).map Barrier.sequence = line.barriers.map Barrier.sequence :=
      map_modify_same fun bar found => by
        have moves := keeps bar found
        generalize f bar = later at moves
        cases moves <;> rfl
    grind [Line.sequences]
  | _ => grind [Line.sequences]

namespace Logged

variable (logged : Logged s) (enabled : s.Enabled a) (found : (s.next a).lines[c]? = some later)
include logged enabled found

theorem requests_next (sound : Sound s) (j : Nat) : .request j ∈ later.log ↔ (s.next a).On c j := by
  rw [on_next enabled]
  rcases line_origin enabled found with ⟨line, was, moves⟩ | ⟨absent, rfl, rfl⟩
  · have requests := (logged c line was).requests j
    rcases moves.log with ⟨log, -, other⟩ | ⟨log, -, here⟩ | ⟨log, -, none⟩ <;> grind
  · have bound := sound.on_lt (c := c) (j := j)
    grind

theorem behind_next (sound : Sound s) {b : Nat} (before : Precedes later.log (.request j) (.barrier b)) :
    At (s.next a).tickets j fun ticket => At later.sequences b fun sequence => ticket.sequence ≤ sequence := by
  rcases line_origin enabled found with ⟨line, was, moves⟩ | ⟨-, rfl, -⟩
  · have old (before : Precedes line.log (.request j) (.barrier b)) := (logged c line was).behind j b before
    suffices known : At s.tickets j fun ticket => At later.sequences b fun sequence => ticket.sequence ≤ sequence from
      (at_tickets_next enabled known.lt).mpr known
    rcases moves.log with ⟨log, sequences, other⟩ | ⟨log, sequences, here⟩ | ⟨log, sequences, none⟩
    · rw [sequences]
      exact old (by grind [precedes_concat])
    · rw [sequences]
      exact old (by grind [precedes_concat])
    · rw [log, precedes_concat] at before
      rw [sequences]
      rcases before with early | ⟨member, fresh⟩
      · exact (old early).mono fun _ => At.append
      · cases fresh
        obtain ⟨ticket, issued, on⟩ := at_iff.mp (((logged c line was).requests j).mp member)
        have numbered := sound.numbered j ticket issued
        rw [on] at numbered
        refine at_iff.mpr ⟨ticket, issued, at_iff.mpr ⟨line.mark.next, by simp, ?_⟩⟩
        exact (numbered.here (by simp [marks, was])).2
  · exact absurd before.length_le (by simp)

theorem barriers_next {b : Nat} (member : .barrier b ∈ later.log) : b < later.sequences.length := by
  rcases line_origin enabled found with ⟨line, was, moves⟩ | ⟨-, rfl, -⟩
  · have barriers := (logged c line was).barriers b
    rcases moves.log with ⟨log, sequences, other⟩ | ⟨log, sequences, here⟩ | ⟨log, sequences, none⟩ <;> grind
  · cases member

theorem increasing_next (sound : Sound s) : (later.log.filterMap Read.request?).Pairwise (· < ·) := by
  rcases line_origin enabled found with ⟨line, was, moves⟩ | ⟨-, rfl, -⟩
  · have increasing := (logged c line was).increasing
    rcases moves.log with ⟨log | log, -⟩ | ⟨log, -⟩ | ⟨log, -⟩
    · rwa [log]
    · rw [log, List.filterMap_append, List.filterMap_cons_none rfl, List.filterMap_nil, List.append_nil]
      exact increasing
    · rw [log, List.filterMap_append]
      refine List.pairwise_append.mpr ⟨increasing, by simp [Read.request?], fun i member k last => ?_⟩
      obtain ⟨entry, inside, known⟩ := List.mem_filterMap.mp member
      obtain rfl : k = s.tickets.length := by simpa [Read.request?] using last
      cases entry with
      | request j =>
        cases known
        exact (sound.on_lt (((logged c line was).requests i).mp inside)).1
      | _ => cases known
    · rw [log, List.filterMap_append, List.filterMap_cons_none rfl, List.filterMap_nil, List.append_nil]
      exact increasing
  · simp

end Logged

theorem logged_next (sound : Sound s) (logged : Logged s) (enabled : s.Enabled a) : Logged (s.next a) :=
  fun _ _ found =>
    ⟨logged.requests_next enabled found sound, fun _ => logged.barriers_next enabled found,
      fun _ _ => logged.behind_next enabled found sound, logged.increasing_next enabled found sound⟩

theorem logged_reachable {lanes : Nat} (reach : machine.Reachable { lanes := List.replicate lanes {} } s) : Logged s :=
  reach.invariant_with (fun _ _ found => by simp at found) fun _ _ known logged enabled =>
    logged_next (sound_reachable known) logged enabled

end Admission

namespace Admission

variable {s : Admission} {c b j : Nat}

theorem answered_behind (sound : Sound s) (awake : Awake s) (logged : Logged s) {line : Line} {bar : Barrier}
    (found : s.lines[c]? = some line) (there : line.barriers[b]? = some bar) (answered : bar.answered = true)
    (before : Precedes line.log (.request j) (.barrier b)) : s.ended.count j = 1 := by
  have known := logged c line found
  have passed := (awake c line found bar (List.mem_of_getElem? there)).passed (.inr answered)
  obtain ⟨ticket, issued, behind⟩ := at_iff.mp (known.behind j b before)
  have number : ticket.sequence ≤ bar.sequence := At.here behind (by simp [Line.sequences, there])
  have on := ((known.requests j).mp (before.subset List.mem_cons_self)).here issued
  obtain ⟨mark, inside, positive, _⟩ := at_iff.mp (sound.numbered j ticket issued)
  refine sound.count_ended_of_number issued ?_
  rw [on]
  exact (sound.tracks c line.mark (by simp [marks, found])).low _ positive (number.trans passed)

end Admission

def Lane.stream (lane : Lane) : List Nat := lane.handled ++ lane.grip.fresh ++ lane.queue

namespace Admission

variable {s : Admission} {a : Action} {c i j w : Nat} {line later : Line}

abbrev InLane (s : Admission) (w j : Nat) : Prop := At s.tickets j fun ticket => ticket.lane = w

def InOrder (s : Admission) (i j : Nat) : Prop :=
  ∀ c, At s.tickets i (fun ticket => ticket.line = c) → At s.tickets j (fun ticket => ticket.line = c) → i < j

structure Lane (s : Admission) (w : Nat) (lane : Transport.Lane) : Prop where
  sharded : ∀ j ∈ lane.stream, s.InLane w j
  ordered : lane.stream.Pairwise s.InOrder
  settled : ∀ j ∈ lane.handled, j ∈ s.ended ∨ lane.grip = .spent j
  delivered : (s.received.filter fun j => s.InLane w j) <+ lane.handled

structure Streams (s : Admission) : Prop where
  latest : ∀ (c : Nat) (line : Line), s.lines[c]? = some line → ∀ j, line.hand = .holding j →
    ∀ i, At s.tickets i (fun ticket => ticket.line = c) → i ≤ j
  lanes : ∀ (w : Nat) (lane : Transport.Lane), s.lanes[w]? = some lane → s.Lane w lane
  received : ∀ j ∈ s.received, ∃ w < s.lanes.length, s.InLane w j

theorem LaneMoves.stream {lane later : Transport.Lane} (moves : s.LaneMoves w lane a later) :
    later.stream = lane.stream ∨ ∃ c j, a = .enqueue c j w ∧ later.stream = lane.stream ++ [j] ∧ s.InLane w j ∧
      At s.lines c fun line => line.hand = .holding j := by
  cases moves with
  | takes j free first =>
    obtain ⟨rest, queue⟩ := List.head?_eq_some_iff.mp first
    simp [Lane.stream, queue, free, Grip.fresh]
  | _ => grind [Lane.stream]

namespace Streams

theorem not_mem_stream (streams : Streams s) (sound : Sound s) {line : Line} {lane : Transport.Lane}
    (found : s.lines[c]? = some line) (holds : line.hand = .holding j) (there : s.lanes[w]? = some lane) :
    j ∉ lane.stream := by
  have here := le_sum (g := fun line : Line => line.hand.count j) found
  have inside := le_sum (g := fun lane : Transport.Lane => lane.queue.count j + lane.grip.count j) there
  have one : line.hand.count j = 1 := by simp [holds, Hand.count]
  obtain ⟨_, once, fresh⟩ := sound.known (j := j) (by unfold held; omega)
  have empty : lane.queue.count j + lane.grip.count j = 0 := by
    unfold held at once
    omega
  intro member
  rcases List.mem_append.mp member with front | queued
  · rcases List.mem_append.mp front with handled | gripped
    · rcases (streams.lanes w lane there).settled j handled with ended | spent
      · have := List.count_pos_iff.mpr ended
        omega
      · rw [spent] at empty
        simp [Grip.count] at empty
    · cases grip : lane.grip with
      | holding i =>
        rw [grip] at gripped empty
        simp only [Grip.fresh, List.mem_singleton] at gripped
        simp [Grip.count, gripped] at empty
      | empty => rw [grip] at gripped; cases gripped
      | spent i => rw [grip] at gripped; cases gripped
  · have := List.count_pos_iff.mpr queued
    omega

theorem latest_next (streams : Streams s) (sound : Sound s) (enabled : s.Enabled a)
    (found : (s.next a).lines[c]? = some later) (holds : later.hand = .holding j) (on : (s.next a).On c i) : i ≤ j := by
  rw [on_next enabled] at on
  have bound := sound.on_lt (c := c) (j := i)
  rcases line_origin enabled found with ⟨line, was, moves⟩ | ⟨-, rfl, -⟩
  · have latest := streams.latest c line was j
    cases moves <;> grind
  · cases holds

theorem received_lane (streams : Streams s) (enabled : s.Enabled a) (member : j ∈ (s.next a).received) :
    ∃ w < s.lanes.length, s.InLane w j := by
  have old : j ∈ s.received ∨ ∃ w, a = .deliver w j := by
    cases a <;> grind
  rcases old with member | ⟨w, rfl⟩
  · exact streams.received j member
  · obtain ⟨lane, found, grip⟩ := at_iff.mp enabled
    exact ⟨w, lookup_lt found, (streams.lanes w lane found).sharded j (by simp [Lane.stream, grip, Grip.fresh])⟩

section Lane

variable {lane later : Transport.Lane} (streams : Streams s) (found : s.lanes[w]? = some lane)
  (moves : s.LaneMoves w lane a later)
include streams found moves

theorem sharded_next (member : j ∈ later.stream) : s.InLane w j := by
  have sharded := (streams.lanes w lane found).sharded j
  rcases moves.stream with same | ⟨c, i, -, stream, mine, -⟩
  · exact sharded (same ▸ member)
  · rw [stream, List.mem_append, List.mem_singleton] at member
    rcases member with old | rfl
    · exact sharded old
    · exact mine

theorem ordered_next (sound : Sound s) : later.stream.Pairwise s.InOrder := by
  have ordered := (streams.lanes w lane found).ordered
  rcases moves.stream with same | ⟨c, j, -, stream, mine, holds⟩
  · rwa [same]
  · rw [stream]
    refine List.pairwise_append.mpr ⟨ordered, List.pairwise_singleton .., fun i member k last d on also => ?_⟩
    obtain rfl := List.mem_singleton.mp last
    -- the reader holds the latest request of its line
    obtain ⟨line, there, hand⟩ := at_iff.mp holds
    obtain ⟨ticket, issued, own⟩ := at_iff.mp (sound.own c line k there hand)
    obtain rfl : d = c := (At.here also issued).symm.trans own
    rcases Nat.lt_or_eq_of_le (streams.latest d line there k hand i on) with less | rfl
    · exact less
    · exact absurd member (streams.not_mem_stream sound there hand found)

theorem settled_next (sound : Sound s) (enabled : s.Enabled a) (member : j ∈ later.handled) :
    j ∈ (s.next a).ended ∨ later.grip = .spent j := by
  have settled := (streams.lanes w lane found).settled j
  rw [sound.ended_next enabled]
  cases moves <;> grind

theorem delivered_next (enabled : s.Enabled a) : ((s.next a).received.filter fun j => s.InLane w j) <+ later.handled := by
  have delivered := (streams.lanes w lane found).delivered
  have grown : lane.handled <+ later.handled := by
    cases moves <;> grind
  rcases (by cases a <;> grind : (s.next a).received = s.received ∨
    ∃ v j, a = .deliver v j ∧ (s.next a).received = s.received ++ [j]) with same | ⟨v, j, rfl, more⟩
  · rw [same]
    exact delivered.trans grown
  · rw [more, List.filter_append]
    obtain ⟨other, there, grip⟩ := at_iff.mp enabled
    have mine := (streams.lanes v other there).sharded j (by simp [Lane.stream, grip, Grip.fresh])
    by_cases here : v = w
    · have handled : later.handled = lane.handled ++ [j] := by
        cases moves <;> grind
      rw [handled]
      exact delivered.append (List.filter_sublist ..)
    · have foreign : ¬ s.InLane w j := by grind
      simpa [foreign] using delivered.trans grown

end Lane

theorem lane_next (streams : Streams s) (sound : Sound s) (enabled : s.Enabled a) {later : Transport.Lane}
    (found : (s.next a).lanes[w]? = some later) : (s.next a).Lane w later := by
  obtain ⟨lane, was, moves⟩ := lane_origin enabled found
  have sharded (j : Nat) (member : j ∈ later.stream) := streams.sharded_next was moves member
  refine ⟨fun j member => (at_tickets_next enabled (At.lt (sharded j member))).mpr (sharded j member), ?_,
    fun j => streams.settled_next was moves sound enabled, ?_⟩
  · refine (streams.ordered_next was moves sound).imp_of_mem fun {i j} first second ordered c on also => ?_
    exact ordered c ((at_tickets_next enabled (At.lt (sharded i first))).mp on)
      ((at_tickets_next enabled (At.lt (sharded j second))).mp also)
  · have same : ((s.next a).received.filter fun j => (s.next a).InLane w j) =
        (s.next a).received.filter fun j => s.InLane w j := by
      refine List.filter_congr fun j member => decide_eq_decide.mpr ?_
      obtain ⟨v, -, mine⟩ := streams.received_lane enabled member
      exact at_tickets_next enabled (At.lt mine)
    rw [same]
    exact streams.delivered_next was moves enabled

end Streams

theorem streams_next (sound : Sound s) (streams : Streams s) (enabled : s.Enabled a) : Streams (s.next a) where
  latest _ _ found _ holds _ := streams.latest_next sound enabled found holds
  lanes _ _ := streams.lane_next sound enabled
  received j member := by
    obtain ⟨w, inside, mine⟩ := streams.received_lane enabled member
    have same : (s.next a).lanes.length = s.lanes.length := by
      cases a <;> grind
    exact ⟨w, same ▸ inside, (at_tickets_next enabled (At.lt mine)).mpr mine⟩

theorem streams_reachable {lanes : Nat} (reach : machine.Reachable { lanes := List.replicate lanes {} } s) :
    Streams s := by
  refine reach.invariant_with ⟨fun _ _ found => by simp at found, fun w lane found => ?_, by simp⟩
    fun _ _ known streams enabled => streams_next (sound_reachable known) streams enabled
  obtain ⟨_, rfl⟩ : w < lanes ∧ lane = {} := by simpa [List.getElem?_replicate, eq_comm] using found
  exact ⟨by simp [Lane.stream, Grip.fresh], by simp [Lane.stream, Grip.fresh], by simp, by simp⟩

section Delivered

variable {i : Nat}

theorem Streams.count_received (streams : Streams s) (member : j ∈ s.received) : s.received.count j = 1 := by
  obtain ⟨w, inside, mine⟩ := streams.received j member
  obtain ⟨lane, found⟩ : ∃ lane, s.lanes[w]? = some lane := ⟨_, List.getElem?_eq_getElem inside⟩
  have known := streams.lanes w lane found
  have once : lane.handled.count j ≤ 1 := by
    by_contra twice
    have pair : Precedes lane.handled j j := by
      have := List.replicate_sublist_iff.mpr (show 2 ≤ lane.handled.count j by omega)
      exact this
    obtain ⟨ticket, issued, _⟩ := at_iff.mp mine
    have before : Precedes lane.stream j j :=
      pair.trans ((List.sublist_append_left ..).trans (List.sublist_append_left ..))
    exact lt_irrefl j (before.rel known.ordered ticket.line (at_iff.mpr ⟨ticket, issued, rfl⟩)
      (at_iff.mpr ⟨ticket, issued, rfl⟩))
  have kept : (s.received.filter fun j => s.InLane w j).count j = s.received.count j :=
    List.count_filter (by simpa using mine)
  have := known.delivered.count_le j
  have := List.count_pos_iff.mpr member
  omega

/-- Requests of one line and one lane are delivered in the order in which they were read. -/
theorem Streams.precedes (streams : Streams s) (first : i ∈ s.received) (second : j ∈ s.received) (less : i < j)
    (line : At s.tickets i fun a => At s.tickets j fun b => a.line = b.line ∧ a.lane = b.lane) :
    Precedes s.received i j := by
  obtain ⟨a, issued, rest⟩ := at_iff.mp line
  obtain ⟨b, also, sameLine, sameLane⟩ := at_iff.mp rest
  rcases precedes_total first second less.ne with before | after
  · exact before
  · obtain ⟨w, inside, mine⟩ := streams.received i first
    obtain ⟨lane, found⟩ : ∃ lane, s.lanes[w]? = some lane := ⟨_, List.getElem?_eq_getElem inside⟩
    have known := streams.lanes w lane found
    have on := At.here mine issued
    have both : ∀ k ∈ [j, i], s.InLane w k := by
      intro k member
      rcases List.mem_cons.mp member with rfl | rest
      · exact at_iff.mpr ⟨b, also, sameLane ▸ on⟩
      · exact List.mem_singleton.mp rest ▸ mine
    have filtered : Precedes (s.received.filter fun k => s.InLane w k) j i := by
      have := after.filter fun k => decide (s.InLane w k)
      rwa [List.filter_eq_self.mpr fun k member => decide_eq_true (both k member)] at this
    have before : Precedes lane.stream j i :=
      (filtered.trans known.delivered).trans ((List.sublist_append_left ..).trans (List.sublist_append_left ..))
    have wrong := before.rel known.ordered b.line (at_iff.mpr ⟨b, also, rfl⟩) (at_iff.mpr ⟨a, issued, sameLine⟩)
    omega

end Delivered

end Admission

end Skygo.Transport
