import Skygo.Transport.PeerWritten
import Skygo.Transport.PendingSound
import Skygo.Transport.Responding

/-! Messages that `WriteLimit` rejects.

It rejects them before a byte is written, and the connection could go on. But the write loop of a peer and the
goroutine of a response close the connection on any error of a write, and with it end whatever else waits there.
-/

set_option autoImplicit false

attribute [-instance] instBooleanRingBool

namespace Skygo.Transport

open Semantics

/-! The peer -/

def WriteLoop.large {M : Type} (max : UInt32) (size : Frame M → Nat) : WriteLoop M → Bool
  | .writing frame _ => Frame.oversized max (size frame)
  | _ => false

namespace Peer

variable {M : Type} {p : Peer M} {i j : Nat}

/-- Nobody but the write loop closes the peer, no context ends, and what is oversized is not written. -/
def undisturbed (max : UInt32) (size : Frame M → Nat) (p : Peer M) : Action M → Bool
  | .close | .contextDone _ => false
  | .written => !p.loop.large max size
  | _ => true

attribute [grind] undisturbed WriteLoop.large

/-- From the write of an item on that cannot succeed. Nobody but the write loop calls `close`. -/
structure Falls (i : Nat) (p : Peer M) : Prop where
  alone : p.closers = []
  loop : (∃ early, p.loop = .writing (.item i) early) ∨ p.loop = .failed (.item i) ∨ p.loop = .closing ∨ p.loop = .exited
  closing : p.closing ≠ .idle → p.loop = .closing ∨ p.loop = .exited

variable {max : UInt32} {size : Frame M → Nat}

theorem falls_next {a : Action M} (falls : p.Falls i) (large : Frame.oversized max (size (.item i)) = true)
    (enabled : p.Enabled a) (undisturbed : p.undisturbed max size a = true) :
    (p.next a).Falls i ∧ (p.next a).written = p.written := by
  obtain ⟨alone, loop, closing⟩ := falls
  refine ⟨⟨?_, ?_, ?_⟩, ?_⟩
  · cases a <;> first | exact alone | grind
  · cases a <;> first | exact loop | grind
  · cases a <;> first | exact closing | grind
  · cases a <;> grind

/-- When `close` has finished, the item and everything that was in the queue with it was given to
`reportSendFailure`. -/
theorem Falls.drained (falls : p.Falls i) (sound : p.Sound) (finished : p.closing = .finished)
    (accepted : At p.calls j fun call => call.place.accepted = true) (unsent : j ∉ p.sent) :
    j ∈ p.reports ∨ j ∈ p.dropped := by
  have conserved := sound.conserved j
  have took : p.took j = 1 := by rw [Peer.took, decide_eq_true accepted]; rfl
  have idle : p.loop.hand = none := by
    rcases falls.closing (by simp [finished]) with is | is <;> rw [is] <;> rfl
  simp only [places, hands, took, sound.emptied finished, finished, idle, Closing.hand, List.count_nil,
    Option.toList_none, List.count_eq_zero.mpr unsent] at conserved
  by_cases reported : j ∈ p.reports
  · exact .inl reported
  · rw [List.count_eq_zero.mpr reported] at conserved
    exact .inr (List.count_pos_iff.mp (by omega))

end Peer

/-! The calls that wait on the peer -/

structure Request.Later (before after : Request) : Prop where
  sent : ∀ result ∈ before.sent, result ∈ after.sent
  withdrawn : before.withdrawn = true → after.withdrawn = true

theorem Request.Later.refl (request : Request) : Request.Later request request := ⟨fun _ member => member, fun is => is⟩

namespace Pending

variable {s t : Pending} {i k id : Nat} {a : Action} {max : UInt32} {size : Frame Envelope → Nat}

theorem requests_later (s : Pending) (a : Action) : Grows Request.Later s.requests (s.next a).requests := by
  cases a with
  | request e flush => exact .append Request.Later.refl _
  | _ =>
    dsimp only [next, setPlace, setRequest, setCompletion, send, Pending.addPending, Pending.enqueue, Pending.removePending,
      Pending.take]
    repeat' split
    all_goals
      first
      | exact .refl Request.Later.refl _
      | exact .modify Request.Later.refl _ fun _ _ => ⟨fun _ member => by simp [member], by simp⟩

/-- The call fails: `close` has sent it an error, or it has removed its entry. -/
def Broken (s : Pending) (k : Nat) : Prop :=
  At s.requests k fun request => .err .remoteUnavailable ∈ request.sent ∨ request.withdrawn = true

/-- The peer is undisturbed, and no response is taken. -/
def Undisturbed (max : UInt32) (size : Frame Envelope → Nat) (s : Pending) : Action → Prop
  | .peer a => s.peer.undisturbed max size a = true
  | .contextDone _ | .take _ => False
  | _ => True

instance (s : Pending) : DecidablePred (s.Undisturbed max size) := by
  intro a
  rcases a with _ | _ <;> unfold Undisturbed <;> infer_instance

theorem Broken.later (broken : s.Broken k) (a : Action) : (s.next a).Broken k :=
  (requests_later s a).at_mono broken fun _ _ later is => is.imp (later.sent _) later.withdrawn

def Followed (id k : Nat) (s : Pending) : Prop :=
  (s.swapped = none ∧ s.pending.lookup id = some k) ∨ s.left.lookup id = some k ∨ s.Broken k

theorem Sound.adding_apart {request : Request} {j : Nat} (sound : s.Sound) (lies : s.pending.lookup id = some k)
    (found : s.requests[j]? = some request) (adding : request.place = .adding) : id ≠ request.id := by
  rintro rfl
  obtain rfl := sound.named.distinct _ _ _ (at_iff.mpr ⟨request, found, rfl⟩) (sound.named.pending _ k lies)
  have none := (sound.held j request found).2.1 adding
  grind

theorem followed_next (sound : s.Sound) (followed : s.Followed id k) (undisturbed : s.Undisturbed max size a)
    (enabled : s.Enabled a) : (s.next a).Followed id k := by
  have keeps {t : Pending} (swapped : t.swapped = s.swapped)
      (pending : s.pending.lookup id = some k → t.pending.lookup id = some k ∨ t.Broken k)
      (later : s.Broken k → t.Broken k) : t.Followed id k := by
    rcases followed with ⟨free, lies⟩ | lies | broken
    · rcases pending lies with still | broken
      · exact .inl ⟨swapped.trans free, still⟩
      · exact .inr (.inr broken)
    · refine .inr (.inl ?_)
      rwa [left, swapped]
    · exact .inr (.inr (later broken))
  have later := fun (broken : s.Broken k) => broken.later a
  cases a with
  | contextDone j => exact undisturbed.elim
  | take i => exact undisturbed.elim
  | addPending j =>
    obtain ⟨request, found, adding⟩ := at_iff.mp enabled
    simp only [next, found] at later ⊢
    refine keeps rfl (fun lies => .inl ?_) later
    show (s.pending.insert request.id j).lookup id = some k
    rw [AList.lookup_insert_ne (sound.adding_apart lies found adding), lies]
  | removePending j =>
    obtain ⟨request, found, _⟩ := at_iff.mp enabled
    simp only [next, found] at later ⊢
    refine keeps rfl (fun lies => ?_) later
    by_cases own : id = request.id
    · subst own
      obtain rfl := sound.named.distinct _ _ _ (at_iff.mpr ⟨request, found, rfl⟩) (sound.named.pending _ k lies)
      exact .inr (at_iff.mpr ⟨_, lookup_modify_self found, .inr rfl⟩)
    · left
      show (s.pending.erase request.id).lookup id = some k
      rw [AList.lookup_erase_ne own, lies]
  | swap =>
    rcases followed with ⟨_, lies⟩ | lies | broken
    · exact .inr (.inl lies)
    · rw [left, enabled.2] at lies
      cases lies
    · exact .inr (.inr (later broken))
  | fail other j =>
    have gone : s.left.lookup other = some j := left_eq_bind.symm.trans enabled.1
    have rest : (s.next (.fail other j)).left = s.left.erase other := by
      show (s.swapped.map fun swapped => swapped.erase other).getD ∅ = (s.swapped.getD ∅).erase other
      cases s.swapped <;> rfl
    rcases followed with ⟨free, _⟩ | lies | broken
    · rw [left, free] at gone
      cases gone
    · by_cases own : id = other
      · subst own
        obtain rfl : k = j := Option.some.inj (lies.symm.trans gone)
        obtain ⟨request, found, _⟩ := at_iff.mp enabled.2
        exact .inr (.inr (at_iff.mpr ⟨_, lookup_modify_self found, .inl (by simp)⟩))
      · refine .inr (.inl ?_)
        rw [rest, AList.lookup_erase_ne own, lies]
    · exact .inr (.inr (later broken))
  | _ =>
    revert later
    dsimp only [next]
    repeat' split
    all_goals exact fun later => keeps rfl .inl later

def Isolated (s : Pending) (i : Nat) (t : Pending) : Prop :=
  (∀ j ∈ s.peer.send, (At s.peer.calls j fun call => call.item.notify = true) → j ∉ t.peer.reports) ∧
    ∀ id k, s.pending.lookup id = some k → (¬ At s.requests k fun request => request.call = some i) → ¬ t.Broken k

/-- Nothing else is queued or pending. -/
def Alone (s : Pending) (i : Nat) : Prop :=
  (∀ j ∈ s.peer.send, ¬ At s.peer.calls j fun call => call.item.notify = true) ∧
    ∀ id k, s.pending.lookup id = some k → At s.requests k fun request => request.call = some i

section Run

variable {sendQueue : Nat} {early : Bool} {actions : List Action}

structure Hits (max : UInt32) (size : Frame Envelope → Nat) (i : Nat) (s : Pending) : Prop where
  writing : ∃ early, s.peer.loop = .writing (.item i) early
  large : Frame.oversized max (size (.item i)) = true
  idle : s.peer.closing = .idle
  alone : s.peer.closers = []

theorem Hits.falls (hits : s.Hits max size i) : s.peer.Falls i :=
  ⟨hits.alone, .inl hits.writing, fun closing => absurd hits.idle closing⟩

structure Down (s : Pending) (i : Nat) (t : Pending) : Prop where
  falls : t.peer.Falls i
  written : t.peer.written = s.peer.written
  accepted : s.peer.accepted <+: t.peer.accepted
  items : s.peer.items <+: t.peer.items

theorem Hits.down (hits : s.Hits max size i) (ran : machine.run s actions = some t)
    (met : machine.Meets (Undisturbed max size) s actions) : s.Down i t := by
  refine Machine.run_keeps_where (I := s.Down i)
    (fun u a down undisturbed enabled => ?_) ran met ⟨hits.falls, rfl, List.prefix_rfl, List.prefix_rfl⟩
  rcases peer_step enabled with same | ⟨b, allowed, moved, which⟩
  · have still : (machine.next u a).peer = u.peer := same
    exact ⟨still ▸ down.falls, still ▸ down.written, still ▸ down.accepted, still ▸ down.items⟩
  · have own : u.peer.undisturbed max size b = true := by
      rcases which with rfl | ⟨item, nonBlocking, rfl⟩
      · exact undisturbed
      · rfl
    have after : (machine.next u a).peer = u.peer.next b := moved
    have next := Peer.falls_next down.falls hits.large allowed own
    refine ⟨after ▸ next.1, after ▸ next.2.trans down.written, ?_, ?_⟩
    · rw [after]
      exact down.accepted.trans (Peer.histories_next u.peer b).1
    · rw [after]
      exact down.items.trans (Peer.later_next u.peer b).2

theorem Down.notify {j : Nat} (down : s.Down i t) (known : At s.peer.calls j fun call => call.item.notify = true) :
    At t.peer.calls j fun call => call.item.notify = true := by
  obtain ⟨call, found, notify⟩ := at_iff.mp known
  have item : s.peer.items[j]? = some call.item := by rw [Peer.items, List.getElem?_map, found]; rfl
  have later := lookup_prefix down.items item
  rw [Peer.items, List.getElem?_map] at later
  obtain ⟨after, there, same⟩ := Option.map_eq_some_iff.mp later
  exact at_iff.mpr ⟨after, there, same ▸ notify⟩

theorem Hits.breaks (hits : s.Hits max size i) (sound : s.Sound) (lies : s.pending.lookup id = some k)
    (ran : machine.run s actions = some t) (met : machine.Meets (Undisturbed max size) s actions)
    (finished : t.peer.closing = .finished) : t.Broken k := by
  have free : s.swapped = none := by
    by_contra taken
    have settled := sound.shut.settled taken
    rw [hits.idle] at settled
    cases settled
  obtain ⟨known, followed⟩ := Machine.run_keeps_where
    (I := fun u => u.Sound ∧ u.Followed id k)
    (fun u a known undisturbed enabled =>
      ⟨sound_next known.1 enabled, followed_next known.1 known.2 undisturbed enabled⟩)
    ran met ⟨sound, .inl ⟨free, lies⟩⟩
  have empty : t.swapped = some ∅ := known.shut.answered (by rw [finished]; decide)
  rcases followed with ⟨none, _⟩ | lies | broken
  · rw [empty] at none
    cases none
  · rw [left, empty] at lies
    cases lies
  · exact broken

/-- An item that waits in the queue, or is the oversized one, is given to `reportSendFailure`. -/
theorem Hits.reports {j : Nat} (hits : s.Hits max size i) (reach : machine.Reachable (initial sendQueue) s)
    (held : j ∈ s.peer.send ∨ j = i) (ran : machine.run s actions = some t)
    (met : machine.Meets (Undisturbed max size) s actions) (finished : t.peer.closing = .finished) :
    j ∉ t.peer.sent ∧ (j ∈ t.peer.reports ∨ j ∈ t.peer.dropped) := by
  have down := hits.down ran met
  have before := peer_reachable reach
  have after := peer_reachable (reach.run ran)
  obtain ⟨early, writing⟩ := hits.writing
  -- an item is in one place, and this one is in the queue or in the hand of the write loop
  have one := (Peer.sound_reachable before).conserved j
  have most : s.peer.took j ≤ 1 := Bool.toNat_le _
  have here : 0 < s.peer.send.count j + s.peer.hands j := by
    rcases held with queued | rfl
    · have counted := List.count_pos_iff.mpr queued
      omega
    · simp [Peer.hands, writing, WriteLoop.hand]
  have unsent : j ∉ s.peer.sent := by
    intro sent
    have counted := List.count_pos_iff.mpr sent
    unfold Peer.places at one
    omega
  have accepted : j ∈ s.peer.accepted := by
    refine Peer.listed_reachable before j ((Peer.sound_reachable before).known ?_)
    unfold Peer.places
    omega
  rw [Peer.sent, ← down.written, ← Peer.sent] at unsent
  exact ⟨unsent, down.falls.drained (Peer.sound_reachable after) finished
    ((Peer.once_reachable after).known j (down.accepted.subset accepted)) unsent⟩

theorem Hits.isolated_iff (hits : s.Hits max size i) (reach : machine.Reachable (initial sendQueue) s)
    (ran : machine.run s actions = some t) (met : machine.Meets (Undisturbed max size) s actions)
    (finished : t.peer.closing = .finished) : s.Isolated i t ↔ s.Alone i := by
  constructor
  · rintro ⟨queue, calls⟩
    refine ⟨fun j queued notify => ?_, fun id k lies => ?_⟩
    · obtain ⟨_, reported | dropped⟩ := hits.reports reach (.inl queued) ran met finished
      · exact queue j queued notify reported
      · have mute := (sound_reachable (reach.run ran)).peer.silent j dropped
        obtain ⟨call, found, loud⟩ := at_iff.mp ((hits.down ran met).notify notify)
        exact absurd (mute.here found) (by rw [loud]; exact nofun)
    · by_contra other
      exact calls id k lies other (hits.breaks (sound_reachable reach) lies ran met finished)
  · rintro ⟨queue, calls⟩
    exact ⟨fun j queued notify => absurd notify (queue j queued), fun id k lies other => absurd (calls id k lies) other⟩

end Run

end Pending

/-- What `WriteLimit` rejects, it rejects before a byte is written. On a peer an item so rejected fails, and while no
response comes and no context ends, what is queued or pending beside it is unharmed when `close` has finished exactly if
there is nothing. On an inbound connection a response so rejected does not go out, and while nothing of the connection
is received and no other response goes out, the other requests under way at the write are unharmed when the writer has
returned from `close` exactly if there are none. -/
theorem oversized_isolated (max : UInt32) :
    (∀ (payload : List UInt8) (w : Writer), Frame.oversized max payload.length = true →
      Frame.writeLimit w payload max = (some (.payloadTooLarge payload.length " bytes"), w)) ∧
    (∀ (size : Frame Envelope → Nat) (sendQueue i : Nat) (actions : List Pending.Action) (s t : Pending),
      Pending.machine.Reachable (.initial sendQueue) s → s.Hits max size i → Pending.machine.run s actions = some t →
      Pending.machine.Meets (Pending.Undisturbed max size) s actions → t.peer.closing = .finished →
        (i ∉ t.peer.sent ∧ (i ∈ t.peer.reports ∨ i ∈ t.peer.dropped)) ∧ (s.Isolated i t ↔ s.Alone i)) ∧
    (∀ (size : Answer → Nat) (c : Nat) (a : Inbound.Action) (answer : Answer) (actions : List Responding.Action)
        (s t : Responding), s.Hits max size c a answer →
      (Responding.machine max size).run (s.next max size (.inbound a)) actions = some t →
      (Responding.machine max size).Meets (Responding.Undisturbed c answer) (s.next max size (.inbound a)) actions →
      answer ∉ t.failing →
        (∀ j, answer = .response j → j ∉ t.written.drop s.written.length) ∧
          (s.Isolated max size c answer t ↔ s.Alone c answer)) := by
  refine ⟨fun payload w large => Frame.writeLimit_oversized large, ?_, ?_⟩
  · intro size sendQueue i actions s t reach hits ran met finished
    exact ⟨hits.reports reach (.inr rfl) ran met finished, hits.isolated_iff reach ran met finished⟩
  · intro size c a answer actions s t hits ran met done
    exact ⟨fun j own => hits.unwritten ran own, hits.isolated_iff ran met done⟩

namespace Responding

def firstLarge : Answer → Nat
  | .response 0 => 20000000
  | _ => 100

def call (requestID : Nat) : Envelope := { Inbound.notification 0 with kind := .call, requestID := requestID }

def oneCall : List Action :=
  [.inbound (.accept "a"), .inbound (.read 0 (call 1)), .inbound (.store 0 0), .inbound (.submit 0 0),
    .inbound (.push 0 0), .inbound (.take 0 0), .inbound (.release 0 0), .inbound (.check 0 0), .inbound (.acquire 0 0),
    .inbound (.deliver 0 0), .inbound (.finish 0 0), .inbound (.complete 0 0 none)]

def closesOne : List Action := [.inbound (.close 0), .inbound (.disconnect 0), .closed (.response 0)]

def oneAnswered : Responding := (machine 16777216 firstLarge).after { inbound := .initial "b" "1" 1 4 4 } oneCall

end Responding

namespace Pending

def firstLarge : Frame Envelope → Nat
  | .item 0 => 20000000
  | _ => 100

def takesLarge : List Action :=
  [.peer (.enqueue ⟨Inbound.notification 0, true⟩ true), .peer (.beginEnqueue 0), .peer (.push 0), .peer (.leave 0),
    .peer .noControl, .peer .takeSend]

def closesAfter : List Action :=
  [.peer .failed, .peer .report, .peer .mark, .peer .disconnect, .peer .wait, .swap, .peer .respond, .peer .drain,
    .peer .finish]

theorem oversized_isolated_alone :
    (∃ s t, machine.run (initial 4) takesLarge = some s ∧ machine.run s closesAfter = some t ∧ s.Isolated 0 t ∧
      t.peer.reports = [0]) ∧
    ∃ t, (Responding.machine 16777216 Responding.firstLarge).run
        (Responding.oneAnswered.next 16777216 Responding.firstLarge (.inbound (.respond 0 0 none)))
        Responding.closesOne = some t ∧
      Responding.Isolated 16777216 Responding.firstLarge 0 (.response 0) Responding.oneAnswered t := by
  constructor
  · have first : machine.run (initial 4) takesLarge = some (machine.after (initial 4) takesLarge) :=
      Machine.run_after (by decide +kernel)
    have second : machine.run (machine.after (initial 4) takesLarge) closesAfter =
        some (machine.after (machine.after (initial 4) takesLarge) closesAfter) :=
      Machine.run_after (by decide +kernel)
    refine ⟨_, _, first, second, ?_, by decide +kernel⟩
    have hits : (machine.after (initial 4) takesLarge).Hits 16777216 firstLarge 0 :=
      ⟨⟨false, by decide +kernel⟩, by decide +kernel, by decide +kernel, by decide +kernel⟩
    have isolated := ((oversized_isolated 16777216).2.1 firstLarge 4 0 closesAfter _ _ ⟨_, first⟩ hits second
      (by decide +kernel) (by decide +kernel)).2
    have queue : (machine.after (initial 4) takesLarge).peer.send = [] := by decide +kernel
    have calls : (machine.after (initial 4) takesLarge).pending.keys = [] := by decide +kernel
    refine isolated.mpr ⟨fun j queued => ?_, fun id k lies => ?_⟩
    · rw [queue] at queued
      cases queued
    · have member := AList.mem_keys.mp (AList.lookup_isSome.mp (Option.isSome_of_eq_some lies))
      rw [calls] at member
      cases member
  · have responding : Inbound.machine.Enabled Responding.oneAnswered.inbound (.respond 0 0 none) := by decide +kernel
    have hits : Responding.oneAnswered.Hits 16777216 Responding.firstLarge 0 (.respond 0 0 none) (.response 0) :=
      .response 0 0 none responding (by decide +kernel) (by decide +kernel) (by decide +kernel)
    have one : Responding.oneAnswered.inbound.jobs.length = 1 := by decide +kernel
    refine ⟨_, Machine.run_after (by decide +kernel), ?_⟩
    refine ((oversized_isolated 16777216).2.2 _ 0 _ _ Responding.closesOne _ _ hits (Machine.run_after (by decide +kernel))
      (by decide +kernel) (by decide +kernel)).2.mpr fun k on _ => ?_
    obtain ⟨_, found, _⟩ := at_iff.mp on
    have first := lookup_lt found
    rw [one, Nat.lt_one_iff] at first
    rw [first]

def sharedWithLarge : List Action :=
  [.peer (.enqueue ⟨Inbound.notification 0, true⟩ true), .peer (.beginEnqueue 0), .request ask false, .addPending 0, .enqueue 0,
    .peer (.beginEnqueue 1), .peer (.push 1), .peer (.leave 1), .enqueued 0 1 none, .peer .noControl, .peer .takeSend,
    .peer .written, .peer (.push 0), .peer (.leave 0), .peer (.enqueue ⟨Inbound.notification 1, true⟩ true),
    .peer (.beginEnqueue 2), .peer (.push 2), .peer (.leave 2), .peer .noControl, .peer .takeSend]

def closesShared : List Action :=
  [.peer .failed, .peer .report, .peer .mark, .peer .disconnect, .peer .wait, .swap, .fail 1 0, .peer .respond,
    .peer .drain, .peer .drainOne, .peer .drainReport, .peer .finish]

end Pending

namespace Responding

def twoCalls : List Action :=
  [.inbound (.accept "a"), .inbound (.read 0 (call 1)), .inbound (.store 0 0), .inbound (.submit 0 0),
    .inbound (.push 0 0), .inbound (.read 0 (call 2)), .inbound (.store 0 1), .inbound (.submit 0 1),
    .inbound (.push 0 1), .inbound (.take 0 0), .inbound (.release 0 0), .inbound (.check 0 0), .inbound (.acquire 0 0),
    .inbound (.deliver 0 0), .inbound (.finish 0 0), .inbound (.complete 0 0 none)]

def closesCall : List Action :=
  [.inbound (.close 0), .inbound (.cancelCall 0 2 1), .inbound (.disconnect 0), .closed (.response 0), .inbound (.take 0 1),
    .inbound (.release 0 1), .inbound (.check 0 1)]

def aboutToWrite : Responding := (machine 16777216 firstLarge).after { inbound := .initial "b" "1" 1 4 4 } twoCalls

end Responding

/-- The call gets an error and the other notification is reported as failed; on an inbound connection, the other call is
canceled and discarded. -/
theorem oversized_harms_others :
    (∃ s t, Pending.machine.run (.initial 4) Pending.sharedWithLarge = some s ∧
      s.Hits 16777216 Pending.firstLarge 0 ∧ Pending.machine.run s Pending.closesShared = some t ∧
      Pending.machine.Meets (Pending.Undisturbed 16777216 Pending.firstLarge) s Pending.closesShared ∧
      t.peer.reports = [0, 2] ∧ t.requests.map Request.sent = [[.err .remoteUnavailable]]) ∧
    (∃ s t, (Responding.machine 16777216 Responding.firstLarge).run { inbound := .initial "b" "1" 1 4 4 }
        Responding.twoCalls = some s ∧
      s.Hits 16777216 Responding.firstLarge 0 (.respond 0 0 none) (.response 0) ∧ s.inbound.handling 1 = 1 ∧
      (Responding.machine 16777216 Responding.firstLarge).run
        (s.next 16777216 Responding.firstLarge (.inbound (.respond 0 0 none))) Responding.closesCall = some t ∧
      t.failing = [] ∧ t.written = [] ∧ t.inbound.notices = [.response 0 1 none, .discard 1] ∧
      ¬ s.Unharmed 16777216 Responding.firstLarge t 1) := by
  constructor
  · exact ⟨Pending.machine.after (.initial 4) Pending.sharedWithLarge,
      Pending.machine.after (Pending.machine.after (.initial 4) Pending.sharedWithLarge) Pending.closesShared,
      Machine.run_after (by decide +kernel),
      ⟨⟨false, by decide +kernel⟩, by decide +kernel, by decide +kernel, by decide +kernel⟩,
      Machine.run_after (by decide +kernel), by decide +kernel, by decide +kernel, by decide +kernel⟩
  · have responding : Inbound.machine.Enabled Responding.aboutToWrite.inbound (.respond 0 0 none) := by decide +kernel
    have closed : Responding.Closed ((Responding.machine 16777216 Responding.firstLarge).after
        (Responding.aboutToWrite.next 16777216 Responding.firstLarge (.inbound (.respond 0 0 none)))
        Responding.closesCall) 0 := by decide +kernel
    refine ⟨Responding.aboutToWrite, _, Machine.run_after (by decide +kernel),
      .response 0 0 none responding (by decide +kernel) (by decide +kernel) (by decide +kernel), by decide +kernel,
      Machine.run_after (by decide +kernel), by decide +kernel, by decide +kernel, by decide +kernel, ?_⟩
    refine Responding.Untouched.harmed (c := 0) ⟨by decide +kernel, ⟨[], by decide +kernel, by decide⟩, [], by decide +kernel, by decide⟩
      closed

end Skygo.Transport
