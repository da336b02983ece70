import Mathlib.Algebra.Order.BigOperators.Group.List
import Mathlib.Algebra.Order.Group.Nat
import Mathlib.Data.List.Count
import Mathlib.Data.List.Pairwise
import Skygo.Transport.Admission

/-! Every request read is in one place until its admission is finished, the watermark of a line counts
the finished ones, and a barrier is answered behind everything read before it.
-/

set_option autoImplicit false

attribute [-instance] instBooleanRingBool

namespace Skygo.Transport

open Semantics
open scoped List

namespace Barrier

inductive Moves (line : Line) (bar : Barrier) : Barrier → Prop where
  | looks : Moves line bar (bar.look line)
  | pongs : bar.place = .ponging → Moves line bar bar.pong
  | moves (place : BarrierPlace) : place ≠ .ponging → (∀ seen, place ≠ .waiting seen) → Moves line bar (bar.moveTo place)

end Barrier

namespace Admission

variable {s t : Admission} {a : Action} {c j w : Nat} {line later : Line}

def Action.finished? : Action → Option Nat
  | .refuse _ j => some j
  | .finish _ j => some j
  | _ => none

def Action.begun? : Action → Option Nat
  | .begin c _ _ => some c
  | _ => none

abbrev On (s : Admission) (c j : Nat) : Prop := At s.tickets j fun ticket => ticket.line = c

inductive LineMoves (s : Admission) (c : Nat) (line : Line) : Action → Line → Prop where
  | same (a : Action) : (∀ j, a.finished? = some j → ¬ s.On c j) → a.begun? ≠ some c → LineMoves s c line a line
  | skips : line.hand = .empty → LineMoves s c line (.skip c) { line with log := line.log ++ [.other] }
  | begins (lane : Nat) : line.hand = .empty → LineMoves s c line (.begin c (line.mark.next + 1) lane) { line with
      mark := line.mark.begin
      hand := .holding s.tickets.length
      log := line.log ++ [.request s.tickets.length] }
  | enqueues (j w : Nat) : line.hand = .holding j → LineMoves s c line (.enqueue c j w) { line with hand := .empty }
  | tells (j : Nat) : line.hand = .telling j → LineMoves s c line (.tell c j) { line with hand := .empty }
  | barrier (requestID : Nat) : line.hand = .empty → LineMoves s c line (.barrier c requestID) { line with
      log := line.log ++ [.barrier line.barriers.length]
      barriers := line.barriers ++ [{ requestID := requestID, sequence := line.mark.next }] }
  | bars (a : Action) (b : Nat) (f : Barrier → Barrier) : a.finished? = none → a.begun? = none →
      (∀ bar, line.barriers[b]? = some bar → bar.Moves line (f bar)) → LineMoves s c line a (line.setBarrier b f)
  | refuses (j : Nat) : line.hand = .holding j → ¬ s.On c j →
      LineMoves s c line (.refuse c j) { line with hand := .telling j }
  | refusesOwn (j : Nat) (ticket : Ticket) : line.hand = .holding j → s.tickets[j]? = some ticket → ticket.line = c →
      LineMoves s c line (.refuse c j) (({ line with hand := .telling j } : Line).finish ticket.sequence)
  | finishes (a : Action) (j : Nat) (ticket : Ticket) : a.finished? = some j → a.begun? = none →
      s.tickets[j]? = some ticket → ticket.line = c → LineMoves s c line a (line.finish ticket.sequence)

inductive LaneMoves (s : Admission) (w : Nat) (lane : Lane) : Action → Lane → Prop where
  | same (a : Action) : (∀ j, a ≠ .deliver w j) → LaneMoves s w lane a lane
  | enqueues (c j : Nat) : (At s.lines c fun line => line.hand = .holding j) →
      (At s.tickets j fun ticket => ticket.lane = w) →
      LaneMoves s w lane (.enqueue c j w) { lane with queue := lane.queue ++ [j] }
  | takes (j : Nat) : lane.grip = .empty → lane.queue.head? = some j →
      LaneMoves s w lane (.take w j) { lane with queue := lane.queue.tail, grip := .holding j }
  | spends (a : Action) (j : Nat) : a = .deliver w j ∨ a = .drop w j → lane.grip = .holding j →
      LaneMoves s w lane a { lane with grip := .spent j, handled := lane.handled ++ [j] }
  | finishes (j : Nat) : lane.grip = .spent j → LaneMoves s w lane (.finish w j) { lane with grip := .empty }

attribute [local grind] Barrier.Moves LineMoves LaneMoves
attribute [grind] Action.finished? Action.begun?

theorem line_origin (enabled : s.Enabled a) (found : (s.next a).lines[c]? = some later) :
    (∃ line, s.lines[c]? = some line ∧ s.LineMoves c line a later) ∨ s.lines[c]? = none ∧ later = {} ∧ a = .connect := by
  have same (was : s.lines[c]? = some later) (off : ∀ j, a.finished? = some j → ¬ s.On c j) (other : a.begun? ≠ some c) :
      ∃ line, s.lines[c]? = some line ∧ s.LineMoves c line a later := ⟨later, was, .same a off other⟩
  cases a with
  | connect => grind
  | refuse d j | finish d j =>
    cases issued : s.tickets[j]? with
    | none => grind
    | some ticket =>
      simp only [next, finish, setLine, setLane, issued] at found
      rcases lookup_modify found with ⟨rfl, line, was, rfl⟩ | ⟨other, was⟩ <;> grind
  | look d b | wake d b | pong d b | giveUp d b | clear d b =>
    rcases lookup_modify found with ⟨rfl, line, was, rfl⟩ | ⟨other, was⟩
    · have known := At.here enabled was
      exact .inl ⟨line, was, .bars _ b _ rfl rfl (by grind)⟩
    · exact .inl (same was (by grind) (by grind))
  | take | deliver | drop | answer => exact .inl (same found (by grind) (by grind))
  | _ =>
    rcases lookup_modify found with ⟨rfl, line, was, rfl⟩ | ⟨other, was⟩ <;> grind

theorem lane_origin {later : Lane} (enabled : s.Enabled a) (found : (s.next a).lanes[w]? = some later) :
    ∃ lane, s.lanes[w]? = some lane ∧ s.LaneMoves w lane a later := by
  cases a with
  | enqueue | take | deliver | drop =>
    rcases lookup_modify found with ⟨rfl, lane, was, rfl⟩ | ⟨other, was⟩ <;> grind
  | finish => grind
  | _ => exact ⟨later, by first | exact found | grind, .same _ (by simp)⟩

theorem tickets_next (enabled : s.Enabled a) : (s.next a).tickets = s.tickets ∧ a.begun? = none ∨
    ∃ c lane line, a = .begin c (line.mark.next + 1) lane ∧ s.lines[c]? = some line ∧
      (s.next a).tickets = s.tickets ++ [⟨c, line.mark.next + 1, lane⟩] := by
  cases a with
  | begin c n lane => grind
  | refuse | finish => grind
  | _ => exact .inl ⟨rfl, rfl⟩

theorem at_tickets_next (enabled : s.Enabled a) {p : Ticket → Prop} (bound : j < s.tickets.length) :
    At (s.next a).tickets j p ↔ At s.tickets j p := by
  rcases tickets_next enabled with ⟨same, -⟩ | ⟨_, _, _, -, -, more⟩
  · rw [same]
  · rw [more, at_append_of_lt bound]

theorem lines_le (s : Admission) (a : Action) : s.lines.length ≤ (s.next a).lines.length := by
  cases a <;> grind

theorem line_moves (enabled : s.Enabled a) (found : s.lines[c]? = some line) :
    ∃ later, (s.next a).lines[c]? = some later ∧ s.LineMoves c line a later := by
  obtain ⟨later, after⟩ := lookup_of_le (lines_le s a) found
  rcases line_origin enabled after with ⟨old, was, moves⟩ | ⟨absent, -⟩
  · cases found.symm.trans was
    exact ⟨later, after, moves⟩
  · cases found.symm.trans absent

def marks (s : Admission) : List Watermark := s.lines.map Line.mark

def held (s : Admission) (j : Nat) : Nat :=
  (s.lines.map fun line => line.hand.count j).sum +
    (s.lanes.map fun lane => lane.queue.count j + lane.grip.count j).sum

def endedOn (s : Admission) (c : Nat) : Set Nat :=
  { n | ∃ j ∈ s.ended, At s.tickets j fun ticket => ticket.line = c ∧ ticket.sequence = n }

structure Sound (s : Admission) : Prop where
  numbered : ∀ (j : Nat) (ticket : Ticket), s.tickets[j]? = some ticket →
    At s.marks ticket.line fun mark => 0 < ticket.sequence ∧ ticket.sequence ≤ mark.next
  ordered : ∀ (i j : Nat) (a b : Ticket), s.tickets[i]? = some a → s.tickets[j]? = some b → i < j → a.line = b.line →
    a.sequence < b.sequence
  own : ∀ (c : Nat) (line : Line) (j : Nat), s.lines[c]? = some line → line.hand = .holding j → At s.tickets j fun ticket => ticket.line = c
  conserved : ∀ j, s.held j + s.ended.count j = if j < s.tickets.length then 1 else 0
  tracks : ∀ (c : Nat) (mark : Watermark), s.marks[c]? = some mark → mark.Tracks (s.endedOn c)

theorem count_le_held {line : Line} (found : s.lines[c]? = some line) (j : Nat) : line.hand.count j ≤ s.held j := by
  have member := List.mem_map_of_mem (f := fun line : Line => line.hand.count j) (List.mem_of_getElem? found)
  exact (List.le_sum_of_mem member).trans (Nat.le_add_right ..)

theorem lane_count_le_held {lane : Lane} (found : s.lanes[w]? = some lane) (j : Nat) :
    lane.queue.count j + lane.grip.count j ≤ s.held j := by
  have member := List.mem_map_of_mem (f := fun lane : Lane => lane.queue.count j + lane.grip.count j)
    (List.mem_of_getElem? found)
  exact (List.le_sum_of_mem member).trans (Nat.le_add_left ..)

theorem held_pos (holds : 0 < s.held j) :
    (∃ c, At s.lines c fun line => line.hand = .holding j) ∨
      ∃ w, At s.lanes w fun lane => j ∈ lane.queue ∨ lane.grip = .holding j ∨ lane.grip = .spent j := by
  have some : (s.lines.map fun line => line.hand.count j).sum ≠ 0 ∨
      (s.lanes.map fun lane => lane.queue.count j + lane.grip.count j).sum ≠ 0 := by
    unfold held at holds
    omega
  rcases some with lines | lanes
  · obtain ⟨line, member, counted⟩ : ∃ line ∈ s.lines, line.hand.count j ≠ 0 := by
      by_contra none
      push Not at none
      exact lines (List.sum_eq_zero (by simpa using none))
    obtain ⟨c, found⟩ := List.mem_iff_getElem?.mp member
    refine .inl ⟨c, at_iff.mpr ⟨line, found, ?_⟩⟩
    cases hand : line.hand <;> simp_all [Hand.count]
  · obtain ⟨lane, member, counted⟩ : ∃ lane ∈ s.lanes, lane.queue.count j + lane.grip.count j ≠ 0 := by
      by_contra none
      push Not at none
      exact lanes (List.sum_eq_zero (by simpa using none))
    obtain ⟨w, found⟩ := List.mem_iff_getElem?.mp member
    refine .inr ⟨w, at_iff.mpr ⟨lane, found, ?_⟩⟩
    by_cases queued : j ∈ lane.queue
    · exact .inl queued
    · rw [List.count_eq_zero.mpr queued] at counted
      cases grip : lane.grip <;> simp_all [Grip.count]

theorem LineMoves.mark (moves : s.LineMoves c line a later) :
    (later.mark = line.mark ∨ later.mark = line.mark.begin) ∧ (∀ j, a.finished? = some j → ¬ s.On c j) ∨
      ∃ j ticket, a.finished? = some j ∧ s.tickets[j]? = some ticket ∧ ticket.line = c ∧
        (ticket.sequence ≠ 0 → later.mark = line.mark.finish ticket.sequence) := by
  cases moves <;> grind

theorem LineMoves.next_le (moves : s.LineMoves c line a later) : line.mark.next ≤ later.mark.next := by
  cases moves <;> grind [Watermark.begin, Watermark.finish_next]

theorem held_finish (s : Admission) (i j : Nat) : (s.finish i).held j = s.held j := by
  unfold finish
  split
  · next ticket _ =>
    have same : (s.lines.modify ticket.line fun line => line.finish ticket.sequence).map (fun line => line.hand.count j) =
        s.lines.map fun line => line.hand.count j := map_modify_same fun line _ => by grind
    simp only [held, setLine, same]
  · rfl

theorem held_next (enabled : s.Enabled a) (j : Nat) : (s.next a).held j + (if a.finished? = some j then 1 else 0) =
    s.held j + (if a.begun?.isSome ∧ j = s.tickets.length then 1 else 0) := by
  have lines {d : Nat} {f : Line → Line} {line : Line} (found : s.lines[d]? = some line) :=
    sum_modify (g := fun line => Hand.count line.hand j) (f := f) found
  have lanes {v : Nat} {f : Lane → Lane} {lane : Lane} (found : s.lanes[v]? = some lane) :=
    sum_modify (g := fun lane : Lane => lane.queue.count j + lane.grip.count j) (f := f) found
  have empty : Hand.empty.count j = 0 := rfl
  have telling (i : Nat) : (Hand.telling i).count j = 0 := rfl
  cases a with
  | connect => simp [held, next, Hand.count, Action.finished?, Action.begun?]
  | refuse c i | finish c i =>
    simp only [next, held_finish]
    grind [held]
  | enqueue c i w =>
    have there := List.getElem?_eq_getElem enabled.2.2
    grind [held]
  | take w i =>
    obtain ⟨lane, found, free, first⟩ := at_iff.mp enabled
    obtain ⟨rest, queue⟩ := List.head?_eq_some_iff.mp first
    grind [held]
  | _ => grind [held]

namespace Sound

theorem known (sound : Sound s) (holds : 0 < s.held j) : j < s.tickets.length ∧ s.held j = 1 ∧ s.ended.count j = 0 := by
  have conserved := sound.conserved j
  split at conserved
  · next bound => exact ⟨bound, by omega, by omega⟩
  · omega

theorem ended_lt (sound : Sound s) (member : j ∈ s.ended) : j < s.tickets.length := by
  have conserved := sound.conserved j
  have := List.count_pos_iff.mpr member
  split at conserved
  · assumption
  · omega

variable {ticket : Ticket}

theorem number_fresh (sound : Sound s) (found : s.tickets[j]? = some ticket)
    (fresh : s.ended.count j = 0) : ticket.sequence ∉ s.endedOn ticket.line := by
  rintro ⟨i, member, there⟩
  obtain ⟨other, known, on, number⟩ := at_iff.mp there
  rcases Nat.lt_trichotomy i j with less | rfl | more
  · exact absurd (sound.ordered i j other ticket known found less on) (by omega)
  · exact absurd (List.count_pos_iff.mpr member) (by omega)
  · exact absurd (sound.ordered j i ticket other found known more on.symm) (by omega)

theorem count_ended_le (sound : Sound s) (j : Nat) : s.ended.count j ≤ 1 := by
  have conserved := sound.conserved j
  split at conserved <;> omega

theorem count_ended_of_number (sound : Sound s) (found : s.tickets[j]? = some ticket)
    (ended : ticket.sequence ∈ s.endedOn ticket.line) : s.ended.count j = 1 := by
  have some : s.ended.count j ≠ 0 := fun fresh => sound.number_fresh found fresh ended
  have := sound.count_ended_le j
  omega

section

variable (sound : Sound s) (enabled : s.Enabled a)
include sound enabled

theorem finished (finishes : a.finished? = some j) : j < s.tickets.length ∧ s.ended.count j = 0 := by
  have moved := held_next enabled j
  rw [if_pos finishes] at moved
  have none : a.begun?.isSome = false := by
    cases a <;> grind
  obtain ⟨bound, -, fresh⟩ := sound.known (j := j) (by grind)
  exact ⟨bound, fresh⟩

theorem ended_next : (s.next a).ended = s.ended ++ a.finished?.toList := by
  have known (j : Nat) := sound.finished (j := j) enabled
  cases a with
  | refuse | finish => grind
  | _ => simp [next, Action.finished?, Admission.setLine, Admission.setLane]

theorem mem_endedOn (c n : Nat) : n ∈ (s.next a).endedOn c ↔ n ∈ s.endedOn c ∨
    ∃ j, a.finished? = some j ∧ At s.tickets j fun ticket => ticket.line = c ∧ ticket.sequence = n := by
  have old (j : Nat) (p : Ticket → Prop) (bound : j < s.tickets.length) := at_tickets_next (p := p) enabled bound
  have ended := sound.ended_next enabled
  have known (j : Nat) := sound.finished (j := j) enabled
  have bound (j : Nat) := sound.ended_lt (j := j)
  grind [endedOn]

theorem numbered_next (found : (s.next a).tickets[j]? = some ticket) :
    At (s.next a).marks ticket.line fun mark => 0 < ticket.sequence ∧ ticket.sequence ≤ mark.next := by
  have old (found : s.tickets[j]? = some ticket) :
      At (s.next a).marks ticket.line fun mark => 0 < ticket.sequence ∧ ticket.sequence ≤ mark.next := by
    have numbered := sound.numbered j ticket found
    obtain ⟨line, was⟩ : ∃ line, s.lines[ticket.line]? = some line := by grind [marks]
    obtain ⟨later, after, moves⟩ := line_moves enabled was
    have := moves.next_le
    grind [marks]
  rcases tickets_next enabled with ⟨same, -⟩ | ⟨c, lane, line, rfl, was, more⟩
  · exact old (same ▸ found)
  · rw [more] at found
    rcases lookup_append found with was | ⟨-, rfl⟩
    · exact old was
    · have here : (s.next (.begin c (line.mark.next + 1) lane)).lines[c]? = some _ := lookup_modify_self was
      exact at_iff.mpr ⟨line.mark.begin, by simp [marks, here], Nat.succ_pos _, le_rfl⟩

theorem ordered_next {i j : Nat} {first second : Ticket}
    (found : (s.next a).tickets[i]? = some first) (there : (s.next a).tickets[j]? = some second) (less : i < j)
    (same : first.line = second.line) : first.sequence < second.sequence := by
  have ordered := sound.ordered i j first second
  have numbered := sound.numbered i first
  rcases tickets_next enabled with ⟨same, -⟩ | ⟨c, lane, line, rfl, was, more⟩
  · grind
  · grind [marks]

theorem own_next (found : (s.next a).lines[c]? = some later) (holds : later.hand = .holding j) : (s.next a).On c j := by
  have own (line : Line) := sound.own c line j
  have tickets := tickets_next enabled
  rcases line_origin enabled found with ⟨line, was, moves⟩ | ⟨-, rfl, -⟩
  · cases moves <;> grind [List.getElem?_concat_length]
  · cases holds

theorem conserved_next (j : Nat) :
    (s.next a).held j + (s.next a).ended.count j = if j < (s.next a).tickets.length then 1 else 0 := by
  have moved := held_next enabled j
  have conserved := sound.conserved j
  rw [sound.ended_next enabled, List.count_append]
  rcases tickets_next enabled with ⟨same, none⟩ | ⟨c, lane, line, rfl, was, more⟩
  · cases finished : a.finished? <;> grind
  · grind

theorem tracks_next {mark : Watermark} (found : (s.next a).marks[c]? = some mark) : mark.Tracks ((s.next a).endedOn c) := by
  obtain ⟨later, after, rfl⟩ : ∃ later, (s.next a).lines[c]? = some later ∧ later.mark = mark := by grind [marks]
  have member := sound.mem_endedOn enabled c
  rcases line_origin enabled after with ⟨line, was, moves⟩ | ⟨absent, rfl, rfl⟩
  · have tracks := sound.tracks c line.mark (by grind [marks])
    rcases moves.mark with ⟨kept, off⟩ | ⟨j, ticket, finishes, issued, on, kept⟩
    · have same : (s.next a).endedOn c = s.endedOn c := Set.ext fun n => by grind
      rw [same]
      rcases kept with kept | kept
      · rw [kept]; exact tracks
      · rw [kept]; exact tracks.begin
    · have inside := (sound.numbered j ticket issued)
      have more : (s.next a).endedOn c = insert ticket.sequence (s.endedOn c) := Set.ext fun n => by grind
      rw [more, kept (by grind)]
      have fresh := sound.number_fresh issued (sound.finished enabled finishes).2
      exact tracks.finish (by grind [marks]) (by grind [marks]) (by grind)
  · -- no request is on a line that does not exist yet
    have none : (s.next .connect).endedOn c = ∅ := by
      refine Set.eq_empty_iff_forall_notMem.mpr fun n ended => ?_
      obtain ⟨j, -, there⟩ := ((member n).mp ended).resolve_right (by grind)
      have numbered := sound.numbered j
      grind [marks]
    rw [none]
    exact Watermark.tracks_init

end

end Sound

theorem sound_next (sound : Sound s) (enabled : s.Enabled a) : Sound (s.next a) where
  numbered _ _ := sound.numbered_next enabled
  ordered _ _ _ _ := sound.ordered_next enabled
  own _ _ _ := sound.own_next enabled
  conserved := sound.conserved_next enabled
  tracks _ _ := sound.tracks_next enabled

theorem sound_init (lanes : Nat) : Sound { lanes := List.replicate lanes {} } where
  numbered j ticket found := by simp at found
  ordered i j a b found := by simp at found
  own c line j found := by simp at found
  conserved j := by simp [held, Grip.count]
  tracks c mark found := by simp [marks] at found

theorem sound_reachable {lanes : Nat} (reach : machine.Reachable { lanes := List.replicate lanes {} } s) : Sound s :=
  reach.invariant (sound_init lanes) fun _ _ => sound_next

end Admission

structure Barrier.Sound (bar : Barrier) (line : Line) : Prop where
  issued : bar.sequence ≤ line.mark.next
  awake : ∀ seen, bar.place = .waiting seen →
    seen ≤ line.changed ∧ (seen = line.changed → line.mark.done < bar.sequence)
  passed : bar.place = .ponging ∨ bar.answered = true → bar.sequence ≤ line.mark.done

namespace Admission

variable {s : Admission} {a : Action} {c b : Nat} {line later : Line} {bar : Barrier}

theorem LineMoves.barrier_origin (moves : s.LineMoves c line a later) (found : later.barriers[b]? = some bar) :
    (∃ old, line.barriers[b]? = some old ∧
      (bar = old ∨ old.Moves line bar ∧ later.mark = line.mark ∧ later.changed = line.changed)) ∨
    ∃ requestID, bar = { requestID := requestID, sequence := line.mark.next } ∧ later.mark = line.mark := by
  cases moves with
  | bars a b f _ _ keeps => grind
  | _ => grind

theorem LineMoves.counters (moves : s.LineMoves c line a later) :
    later.changed = line.changed ∧ later.mark.done = line.mark.done ∨
      line.changed < later.changed ∧ line.mark.done ≤ later.mark.done := by
  cases moves <;> grind [Watermark.begin, Watermark.le_finish_done]

def Awake (s : Admission) : Prop :=
  ∀ (c : Nat) (line : Line), s.lines[c]? = some line → ∀ bar ∈ line.barriers, bar.Sound line

theorem awake_next (awake : Awake s) (enabled : s.Enabled a) : Awake (s.next a) := by
  intro c later found bar member
  obtain ⟨b, there⟩ := List.mem_iff_getElem?.mp member
  rcases line_origin enabled found with ⟨line, was, moves⟩ | ⟨-, rfl, -⟩
  · have issued := moves.next_le
    have counters := moves.counters
    rcases moves.barrier_origin there with ⟨old, known, kept⟩ | ⟨requestID, rfl, same⟩
    · obtain ⟨low, seen, passed⟩ := awake c line was old (List.mem_of_getElem? known)
      rcases kept with rfl | ⟨moves, mark, changed⟩
      · constructor <;> grind
      · cases moves <;> constructor <;> grind
    · constructor <;> grind
  · simp at there

theorem awake_reachable {lanes : Nat} (reach : machine.Reachable { lanes := List.replicate lanes {} } s) : Awake s :=
  reach.invariant (fun _ _ found => by simp at found) fun _ _ => awake_next

end Admission

end Skygo.Transport
