import Skygo.Transport.Peer

/-! No item of a connection is lost or handled twice.

Where an item is at a point of a run is counted over all places it can be; every step moves
it from one place to another.
-/

set_option autoImplicit false

attribute [-instance] instBooleanRingBool

namespace Skygo.Transport

open Semantics

variable {M : Type}

def WriteLoop.hand : WriteLoop M → Option Nat
  | .writing (.item i) _ => some i
  | .failed (.item i) => some i
  | _ => none

def WriteLoop.writes : WriteLoop M → Option Nat
  | .writing frame _ => frame.item?
  | _ => none

def Closing.hand : Closing → Option Nat
  | .draining hand => hand
  | _ => none

def Closing.settled : Closing → Bool
  | .idle | .marked | .disconnected => false
  | _ => true

attribute [grind] WriteLoop.hand WriteLoop.writes Closing.hand Closing.settled

namespace Peer

def sent (p : Peer M) : List Nat := p.written.filterMap Frame.item?

def hands (p : Peer M) (k : Nat) : Nat := p.loop.hand.toList.count k + p.closing.hand.toList.count k

def places (p : Peer M) (k : Nat) : Nat :=
  p.send.count k + p.hands k + p.sent.count k + p.reports.count k + p.dropped.count k

def took (p : Peer M) (k : Nat) : Nat := (decide (At p.calls k fun call => call.place.accepted = true)).toNat

structure Sound (p : Peer M) : Prop where
  conserved : ∀ k, p.places k = p.took k
  reported : ∀ k ∈ p.reports, At p.calls k fun call => call.item.notify = true
  silent : ∀ k ∈ p.dropped, At p.calls k fun call => call.item.notify = false
  left : p.closing.settled = true → ∀ call ∈ p.calls, call.place.inside = false
  emptied : p.closing = .finished → p.send = []
  returned : true ∈ p.closers → p.closing = .finished

theorem sound_fresh (sendQueue : Nat) : ({ sendQueue := sendQueue } : Peer M).Sound where
  conserved _ := rfl
  reported _ member := by cases member
  silent _ member := by cases member
  left settled := by cases settled
  emptied finished := by cases finished
  returned member := by cases member

variable {p p' : Peer M} {i k : Nat}

theorem Sound.known (sound : p.Sound) (somewhere : 0 < p.places k) :
    At p.calls k fun call => call.place.accepted = true := by
  have conserved := sound.conserved k
  unfold took at conserved
  by_contra unknown
  rw [decide_eq_false unknown, Bool.toNat_false] at conserved
  omega

theorem Sound.sent_known (sound : p.Sound) {n : Nat} (written : p.written[n]? = some (.item i)) :
    At p.calls i fun call => call.place.accepted = true := by
  have sent : i ∈ p.sent := List.mem_filterMap.mpr ⟨_, List.mem_of_getElem? written, rfl⟩
  have counted := List.count_pos_iff.mpr sent
  refine sound.known ?_
  unfold places
  omega

theorem took_eq (p : Peer M) (k : Nat) :
    p.took k = if At p.calls k fun call => call.place.accepted = true then 1 else 0 := by
  unfold took
  split <;> simp_all

variable {a : Action M}

theorem conserved_next (sound : p.Sound) (enabled : p.Enabled a) (k : Nat) :
    (p.next a).places k = (p.next a).took k := by
  have conserved := sound.conserved k
  rw [took_eq] at conserved ⊢
  simp only [places, hands, sent] at conserved ⊢
  cases a with
  | written | failed | report =>
    cases loop : p.loop with
    | writing frame early => cases frame <;> grind
    | failed frame => cases frame <;> grind
    | _ => grind
  | _ => first | exact conserved | grind

theorem Sound.outside (sound : p.Sound) (settled : p.closing.settled = true) {call : Enqueue M}
    (found : p.calls[i]? = some call) : call.place.inside = false :=
  sound.left settled call (List.mem_of_getElem? found)

theorem outside_next (sound : p.Sound) (enabled : p.Enabled a)
    (settled : (p.next a).closing.settled = true) {call : Enqueue M} (found : (p.next a).calls[i]? = some call) :
    call.place.inside = false := by
  have outside : p.closing.settled = true → ∀ (i : Nat) (call : Enqueue M), p.calls[i]? = some call →
      call.place.inside = false := fun settled _ _ found => sound.outside settled found
  clear sound
  cases a <;> first | exact outside settled i call found | grind

theorem silent_next (sound : p.Sound) (enabled : p.Enabled a) :
    ∀ k ∈ (p.next a).dropped, At (p.next a).calls k fun call => call.item.notify = false := by
  have silent := sound.silent
  have known (i : Nat) (held : 0 < p.hands i) : ∃ call, p.calls[i]? = some call := by
    obtain ⟨call, found, -⟩ := at_iff.mp (sound.known (k := i) (by unfold places; omega))
    exact ⟨call, found⟩
  have failed (i : Nat) (is : p.loop = .failed (.item i)) := known i (by simp [hands, is, WriteLoop.hand])
  have drained (i : Nat) (is : p.closing = .draining (some i)) := known i (by simp [hands, is, Closing.hand])
  clear known
  cases a <;> first | exact silent | grind

theorem sound_next (sound : p.Sound) (enabled : p.Enabled a) : (p.next a).Sound where
  conserved := conserved_next sound enabled
  reported := by
    have reported := sound.reported
    cases a <;> first | exact reported | grind
  silent := silent_next sound enabled
  left settled call member := by
    obtain ⟨i, found⟩ := List.getElem?_of_mem member
    exact outside_next sound enabled settled found
  emptied := by
    have emptied := sound.emptied
    have outside := @sound.outside
    cases a <;> first | exact emptied | grind
  returned := by
    have returned := sound.returned
    cases a <;> first | exact returned | grind

theorem sound_reachable [DecidableEq M] {sendQueue : Nat} (reach : machine.Reachable { sendQueue := sendQueue } p) : p.Sound :=
  reach.invariant (I := Sound) (sound_fresh sendQueue) fun _ _ sound enabled => sound_next sound enabled

section Order

/-- Items are taken in the order in which the queue took them, and written in that order. -/
structure Ordered (p : Peer M) : Prop where
  queue : p.accepted = p.taken ++ p.send
  sent : (p.sent ++ p.loop.writes.toList).Sublist p.taken

theorem Ordered.same (ordered : p.Ordered) (accepted : p'.accepted = p.accepted) (taken : p'.taken = p.taken)
    (send : p'.send = p.send) (written : p'.written = p.written)
    (writes : p'.loop.writes.toList.Sublist p.loop.writes.toList) : p'.Ordered where
  queue := by rw [accepted, taken, send, ordered.queue]
  sent := by
    rw [taken, Peer.sent, written]
    exact ((List.Sublist.refl _).append writes).trans ordered.sent

theorem Ordered.takes (ordered : p.Ordered) {rest : List Nat} (queue : p.send = i :: rest) {loop : WriteLoop M}
    {closing : Closing} (writes : (p.sent ++ loop.writes.toList).Sublist (p.taken ++ [i])) :
    ({ p with send := rest, taken := p.taken ++ [i], loop := loop, closing := closing } : Peer M).Ordered where
  queue := by
    rw [List.append_assoc, List.singleton_append, ← queue]
    exact ordered.queue
  sent := writes

theorem ordered_next {a : Action M} (ordered : p.Ordered) (enabled : p.Enabled a) : (p.next a).Ordered := by
  cases a with
  | push i =>
    refine ⟨?_, ordered.sent⟩
    show p.accepted ++ [i] = p.taken ++ (p.send ++ [i])
    rw [ordered.queue, List.append_assoc]
  | takeSend =>
    dsimp only [next]
    split
    · next i rest found =>
      refine ordered.takes found ?_
      have before : p.loop.writes = none := by rw [enabled.1]; rfl
      have sent := ordered.sent
      rw [before, Option.toList_none, List.append_nil] at sent
      exact sent.append (List.Sublist.refl [i])
    · exact ordered
  | drainOne =>
    dsimp only [next]
    split
    · next i rest found => exact ordered.takes found (ordered.sent.trans (List.sublist_append_left _ _))
    · exact ordered
  | written =>
    dsimp only [next]
    split
    · next frame early writing =>
      have idle : (if early then WriteLoop.second else .first : WriteLoop M).writes = none := by split <;> rfl
      have sent_ := ordered.sent
      refine ⟨ordered.queue, ?_⟩
      rw [writing] at sent_
      simp only [idle, Option.toList_none, List.append_nil, sent, List.filterMap_append]
      have last : [frame].filterMap Frame.item? = (WriteLoop.writing frame early).writes.toList := by cases frame <;> rfl
      rw [last]
      exact sent_
    · exact ordered
  | _ =>
    dsimp only [next, Peer.reportSendFailure, setPlace]
    repeat' split
    all_goals
      first
      | exact ordered.same rfl rfl rfl rfl (.refl _)
      | exact ordered.same rfl rfl rfl rfl (List.nil_sublist _)

theorem ordered_reachable [DecidableEq M] {sendQueue : Nat} (reach : machine.Reachable { sendQueue := sendQueue } p) :
    p.Ordered :=
  reach.invariant (I := Ordered) ⟨rfl, List.Sublist.refl _⟩ fun _ _ ordered enabled => ordered_next ordered enabled

structure Once (p : Peer M) : Prop where
  nodup : p.accepted.Nodup
  known : ∀ i ∈ p.accepted, At p.calls i fun call => call.place.accepted = true

theorem once_next {a : Action M} (once : p.Once) (enabled : p.Enabled a) : (p.next a).Once := by
  obtain ⟨nodup, known⟩ := once
  constructor
  · cases a <;> first | exact nodup | grind
  · cases a <;> first | exact known | grind

theorem once_reachable [DecidableEq M] {sendQueue : Nat} (reach : machine.Reachable { sendQueue := sendQueue } p) : p.Once :=
  reach.invariant (I := Once) ⟨List.nodup_nil, fun _ member => by cases member⟩ fun _ _ once enabled =>
    once_next once enabled

def items (p : Peer M) : List (Outbound M) := p.calls.map Enqueue.item

theorem later_next (p : Peer M) (a : Action M) : p.written <+: (p.next a).written ∧ p.items <+: (p.next a).items := by
  refine ⟨by cases a <;> grind, ?_⟩
  have kept (i : Nat) (f : Enqueue M → Enqueue M) (same : ∀ call, (f call).item = call.item) :
      p.items <+: (p.calls.modify i f).map Enqueue.item := by
    rw [map_modify_same fun call _ => same call]
    exact List.prefix_rfl
  cases a with
  | enqueue item nonBlocking => simp [next, items]
  | beginEnqueue i =>
    dsimp only [next]
    split <;> exact kept i _ fun _ => rfl
  | push i | unavailable i | contextDone i | full i => exact kept i _ fun _ => rfl
  | leave i => exact kept i _ fun call => by split <;> rfl
  | _ => grind [items]

theorem histories_next (p : Peer M) (a : Action M) :
    p.accepted <+: (p.next a).accepted ∧ p.reports <+: (p.next a).reports := by
  cases a <;> grind

end Order

/-- At every point of every run, a notification whose `enqueue` returned nil is in exactly one place: in the queue
of a peer that is not closed or that `close` has yet to drain, in the hand of the write loop or of `close`, written, or reported. Once a
call of `close` has returned the queue is empty, and what was refused is neither written nor reported. -/
theorem notification_conserved [DecidableEq M] {sendQueue : Nat}
    (reach : machine.Reachable { sendQueue := sendQueue } p) :
    (∀ i call, p.calls[i]? = some call → call.place = .returned none → call.item.notify = true →
      p.send.count i + p.hands i + p.sent.count i + p.reports.count i = 1 ∧
      (i ∈ p.send → p.isClosed = false ∨ (p.closing ≠ .idle ∧ p.closing ≠ .finished))) ∧
    (true ∈ p.closers ∨ p.closing = .finished → p.send = []) ∧
    (∀ i call fault, p.calls[i]? = some call → call.place = .returned (some fault) →
      p.sent.count i = 0 ∧ p.reports.count i = 0) := by
  have sound := sound_reachable reach
  refine ⟨fun i call found ended notify => ⟨?_, fun waits => ?_⟩, ?_, fun i call fault found ended => ?_⟩
  · have conserved := sound.conserved i
    have took : p.took i = 1 := by simp [took, At, found, ended, Place.accepted]
    have loud : p.dropped.count i = 0 := by
      refine List.count_eq_zero.mpr fun member => ?_
      have mute := (sound.silent i member).here found
      rw [notify] at mute
      cases mute
    rw [took] at conserved
    unfold places at conserved
    omega
  · by_cases idle : p.closing = .idle
    · exact .inl (by simp [isClosed, idle])
    · refine .inr ⟨idle, fun finished => ?_⟩
      rw [sound.emptied finished] at waits
      cases waits
  · rintro (returned | finished)
    · exact sound.emptied (sound.returned returned)
    · exact sound.emptied finished
  · have conserved := sound.conserved i
    have refused : p.took i = 0 := by simp [took, At, found, ended, Place.accepted]
    rw [refused] at conserved
    unfold places at conserved
    omega

def crossing : List (Action Unit) :=
  [.enqueue ⟨(), true⟩ false, .beginEnqueue 0, .push 0, .leave 0, .noControl, .takeSend, .enqueue ⟨(), true⟩ true,
    .beginEnqueue 1, .close, .mark, .written, .push 1, .enqueue ⟨(), true⟩ true, .beginEnqueue 2, .disconnect, .leave 1,
    .wait, .respond, .drain, .drainOne, .drainReport, .finish, .closeReturn 0]

theorem notification_conserved_crossing :
    ∃ p : Peer Unit, machine.run { sendQueue := 4 } crossing = some p ∧ p.sent = [0] ∧ p.reports = [1] ∧
      p.send.count 1 + p.hands 1 + p.sent.count 1 + p.reports.count 1 = 1 ∧ p.send = [] ∧ p.reports.count 2 = 0 := by
  have ran : machine.run { sendQueue := 4 } crossing = some (machine.after { sendQueue := 4 } crossing) :=
    Machine.run_after (by decide +kernel)
  obtain ⟨accepted, drained, refused⟩ := notification_conserved ⟨crossing, ran⟩
  refine ⟨_, ran, by decide +kernel, by decide +kernel, (accepted 1 ⟨⟨(), true⟩, true, .returned none⟩ ?_ rfl rfl).1,
    drained (.inl (by decide +kernel)), (refused 2 ⟨⟨(), true⟩, true, .returned (some .remoteUnavailable)⟩
      .remoteUnavailable ?_ rfl).2⟩
  · decide +kernel
  · decide +kernel

end Peer

end Skygo.Transport
