import Skygo.Transport.Pending
import Skygo.Transport.PeerSound

/-! Every request on a connection gets its one result.

The right to send to a channel is in one place: in the pending map, in the hand of a `complete`, or
in what `close` took out of the map. A step moves it from one place to the next, uses it up, or
gives it back with the entry.
-/

set_option autoImplicit false

attribute [-instance] instBooleanRingBool

namespace Skygo.Transport

open Semantics

def Closing.stage : Closing → Nat
  | .idle => 0
  | .marked => 1
  | .disconnected => 2
  | .waited => 3
  | .responded => 4
  | .draining _ => 5
  | .finished => 6

attribute [grind] Closing.stage

theorem Closing.settled_iff {closing : Closing} : closing.settled = true ↔ 3 ≤ closing.stage := by
  cases closing <;> simp [settled, stage]

namespace Peer

variable {M : Type} {p : Peer M} {a : Action M}

theorem stage_next (enabled : p.Enabled a) :
    (p.next a).closing.stage = p.closing.stage ∨
      ((p.next a).closing.stage = p.closing.stage + 1 ∧ (p.closing.stage = 3 → a = .respond)) := by
  cases a <;> first | exact .inl rfl | grind

theorem accepted_next (sound : p.Sound) (settled : p.closing.settled = true) (enabled : p.Enabled a) {i : Nat}
    (accepted : At (p.next a).calls i fun call => call.place.accepted = true) :
    At p.calls i fun call => call.place.accepted = true := by
  cases a with
  | push j =>
    -- a call that still selects is counted by the wait group
    obtain ⟨call, found, selecting⟩ := at_iff.mp enabled.1
    have left := sound.left settled call (List.mem_of_getElem? found)
    rw [selecting] at left
    cases left
  | _ => first | exact accepted | grind

end Peer

def Request.Own (request : Request) : Prop := ∀ e, .envelope e ∈ request.sent → e.requestID = request.id

/-- From `addPending` on somebody has a result to send, or has sent it, unless the entry was removed. -/
def Request.Owed (request : Request) (due : Nat) : Prop :=
  due + request.sent.length ≤ 1 ∧ (request.place = .adding → due + request.sent.length = 0) ∧
    (request.place ≠ .adding → request.withdrawn = false → due + request.sent.length = 1)

namespace Pending

variable {s : Pending} {a : Action} {id k : Nat}

/-! Who may send to a channel -/

section Due

def left (s : Pending) : AList fun _ : Nat => Nat := s.swapped.getD ∅

theorem left_eq_bind : (s.swapped.bind fun swapped => swapped.lookup id) = s.left.lookup id := by
  unfold left
  cases s.swapped <;> rfl

theorem left_fail (lies : s.left.lookup id = some k) : (s.next (.fail id k)).left = s.left.erase id := by
  unfold left at lies ⊢
  dsimp only [next]
  cases is : s.swapped with
  | none =>
    rw [is] at lies
    cases lies
  | some swapped => rfl

theorem swapped_of_entries (none : s.swapped.map AList.entries = some []) : s.swapped = some ∅ := by
  obtain ⟨swapped, is, empty⟩ := Option.map_eq_some_iff.mp none
  exact is.trans (congrArg some (AList.ext empty))

def inMap (map : AList fun _ : Nat => Nat) (id k : Nat) : Nat := if map.lookup id = some k then 1 else 0

def inHands (completions : List Completion) (k : Nat) : Nat :=
  completions.countP fun completion => completion.place = .sending k

/-- In how many places it is that somebody has yet to send to the channel. -/
def due (s : Pending) (id k : Nat) : Nat := inMap s.pending id k + inHands s.completions k + inMap s.left id k

attribute [grind] left inMap inHands due Request.Owed

end Due

/-! Channels and request IDs -/

section Named

def Names (s : Pending) (id k : Nat) : Prop := At s.requests k fun request => request.id = id

structure Named (s : Pending) : Prop where
  distinct : ∀ id j k, s.Names id j → s.Names id k → j = k
  below : ∀ id k, s.Names id k → id ≤ s.nextRequest
  pending : ∀ id k, s.pending.lookup id = some k → s.Names id k
  left : ∀ id k, s.left.lookup id = some k → s.Names id k
  sending : ∀ (i : Nat) (completion : Completion), s.completions[i]? = some completion →
    ∀ k, completion.place = .sending k → s.Names completion.envelope.requestID k
  own : ∀ (k : Nat) (request : Request), s.requests[k]? = some request → request.Own

theorem names_next (id k : Nat) : (s.next a).Names id k ↔
    s.Names id k ∨ (k = s.requests.length ∧ id = s.nextRequest + 1 ∧ ∃ e flush, a = .request e flush) := by
  unfold Names
  cases a with
  | request e flush =>
    have last := List.getElem?_concat_length (l := s.requests)
      (a := { envelope := { e with requestID := s.nextRequest + 1 }, flush := flush })
    grind
  | _ => grind

theorem left_next (enabled : s.Enabled a) (found : (s.next a).left.lookup id = some k) :
    s.left.lookup id = some k ∨ s.pending.lookup id = some k := by
  cases a with
  | fail =>
    rw [left_fail (left_eq_bind.symm.trans enabled.1)] at found
    grind
  | swap => exact .inr found
  | _ => first | exact .inl found | grind

theorem named_next (named : s.Named) (enabled : s.Enabled a) : (s.next a).Named := by
  obtain ⟨distinct, below, pending, left, sending, own⟩ := named
  have later (id k : Nat) (names : s.Names id k) : (s.next a).Names id k := (names_next id k).mpr (.inl names)
  refine ⟨?_, ?_, ?_, ?_, ?_, ?_⟩
  · simp only [names_next]
    grind [Names]
  · simp only [names_next]
    clear pending left sending own distinct
    cases a <;> grind
  · clear left sending own distinct below
    intro id k found
    cases a <;> first | exact later id k (pending id k found) | grind [Names, AList.lookup_empty]
  · intro id k found
    exact later id k ((left_next enabled found).elim (left id k) (pending id k))
  · clear left own distinct below
    intro i completion found k is
    cases a with
    | take j =>
      obtain ⟨old, was, -⟩ := at_iff.mp enabled
      simp only [next, was, take] at found later
      grind
    | _ => first | exact later _ k (sending i completion found k is) | grind
  · clear left distinct below pending later
    intro k request found
    cases a with
    | deliver i j =>
      obtain ⟨old, was, place⟩ := at_iff.mp enabled.1
      have names := sending i old was j place
      simp only [next, was] at found
      grind [Request.Own, Names]
    | _ => first | exact own k request found | grind [Request.Own]

end Named

/-! One result for a request -/

section Held

def Held (s : Pending) : Prop :=
  ∀ k (request : Request), s.requests[k]? = some request → request.Owed (s.due request.id k)

theorem Named.due_eq_zero (named : s.Named) (missing : s.requests[k]? = none) : s.due id k = 0 := by
  have fresh (id : Nat) : ¬ s.Names id k := by grind [Names]
  have hands : inHands s.completions k = 0 := by
    refine List.countP_eq_zero.mpr fun completion member is => ?_
    obtain ⟨i, found⟩ := List.getElem?_of_mem member
    exact fresh _ (named.sending i completion found k (of_decide_eq_true is))
  have pending : s.pending.lookup id ≠ some k := fun found => fresh id (named.pending id k found)
  have left : s.left.lookup id ≠ some k := fun found => fresh id (named.left id k found)
  grind

theorem Named.apart {j : Nat} {first second : Request} (named : s.Named) (found : s.requests[j]? = some first)
    (other : s.requests[k]? = some second) (apart : j ≠ k) : second.id ≠ first.id := fun same =>
  apart (named.distinct first.id j k (at_iff.mpr ⟨first, found, rfl⟩) (at_iff.mpr ⟨second, other, same⟩))

theorem inHands_modify {i : Nat} {completion : Completion} (k : Nat) (found : s.completions[i]? = some completion)
    (place : CompletionPlace) : inHands (s.completions.modify i fun completion => { completion with place := place }) k +
      (if completion.place = .sending k then 1 else 0) = inHands s.completions k + if place = .sending k then 1 else 0 := by
  grind

theorem held_next (named : s.Named) (held : s.Held) (enabled : s.Enabled a) : (s.next a).Held := by
  intro k request found
  have before := held k
  cases a with
  | request e flush =>
    have none : s.due (s.nextRequest + 1) s.requests.length = 0 := named.due_eq_zero (by simp)
    grind
  | addPending j =>
    obtain ⟨old, was, adding⟩ := at_iff.mp enabled
    have apart (request : Request) (other : s.requests[k]? = some request) := named.apart was other
    simp only [next, was, Pending.addPending, setPlace, setRequest] at found ⊢
    grind
  | enqueue j =>
    obtain ⟨old, was, -⟩ := at_iff.mp enabled
    simp only [next, was, Pending.enqueue] at found ⊢
    grind
  | removePending j =>
    obtain ⟨old, was, -⟩ := at_iff.mp enabled
    have apart (request : Request) (other : s.requests[k]? = some request) := named.apart was other
    simp only [next, was, Pending.removePending, setRequest] at found ⊢
    grind
  | take i =>
    obtain ⟨completion, was, taking⟩ := at_iff.mp enabled
    cases lies : s.pending.lookup completion.envelope.requestID with
    | some j =>
      -- the entry goes into the hand; the ID of another channel is another one, so its entry stays
      obtain ⟨old, there, own⟩ := at_iff.mp (named.pending _ _ lies)
      have apart (request : Request) (other : s.requests[k]? = some request) := named.apart there other
      simp only [next, was, Pending.take, lies, setCompletion] at found ⊢
      refine Eq.subst (motive := request.Owed) ?_ (before request found)
      have hands := inHands_modify k was (.sending j)
      have apart := apart request found
      clear before named held enabled
      simp only [due, left, inMap, lookup_erase]
      grind
    | none =>
      simp only [next, was, Pending.take, lies] at found ⊢
      grind
  | deliver i j =>
    obtain ⟨old, was, sending⟩ := at_iff.mp enabled.1
    simp only [next, was] at found ⊢
    grind
  | fail id j =>
    have lies := left_eq_bind.symm.trans enabled.1
    have left := left_fail lies
    obtain ⟨old, there, own⟩ := at_iff.mp (named.left id j lies)
    have apart (request : Request) (other : s.requests[k]? = some request) := named.apart there other
    grind
  | _ => first | exact before request found | grind

end Held

/-! What `close` leaves in the map -/

section Shut

structure Shut (s : Pending) : Prop where
  settled : s.swapped ≠ none → s.peer.closing.settled = true
  answered : 4 ≤ s.peer.closing.stage → s.swapped = some ∅
  fresh : ∀ (k : Nat) (request : Request), s.requests[k]? = some request →
    request.place = .adding ∨ request.place = .ready → request.call = none
  refused : s.swapped ≠ none → ∀ (k : Nat) (request : Request), s.requests[k]? = some request →
    s.pending.lookup request.id = some k → ∀ i, request.call = some i → ¬ At s.peer.calls i fun call => call.place.accepted = true

theorem shut_peer {a : Peer.Action Envelope} (sound : s.peer.Sound) (shut : s.Shut) (enabled : s.Enabled (.peer a)) :
    (s.next (.peer a)).Shut where
  settled taken := by
    rw [Closing.settled_iff]
    have before := Closing.settled_iff.mp (shut.settled taken)
    have moved := Peer.stage_next enabled.1
    show 3 ≤ (s.peer.next a).closing.stage
    omega
  answered late := by
    obtain same | ⟨one, through⟩ := Peer.stage_next enabled.1
    · exact shut.answered (same ▸ late)
    · by_cases waited : s.peer.closing.stage = 3
      · exact swapped_of_entries (enabled.2 (through waited))
      · refine shut.answered ?_
        replace late : 4 ≤ (s.peer.next a).closing.stage := late
        omega
  fresh := shut.fresh
  refused taken k request found lies i called accepted :=
    shut.refused taken k request found lies i called
      (Peer.accepted_next sound (shut.settled taken) enabled.1 accepted)

theorem shut_next (sound : s.peer.Sound) (shut : s.Shut) (enabled : s.Enabled a) : (s.next a).Shut := by
  cases a with
  | peer a => exact shut_peer sound shut enabled
  | draw | read e => exact ⟨shut.settled, shut.answered, shut.fresh, shut.refused⟩
  | look i =>
    dsimp only [next]
    repeat' split
    all_goals exact ⟨shut.settled, shut.answered, shut.fresh, shut.refused⟩
  | swap =>
    refine ⟨fun _ => ?_, fun late => ?_, shut.fresh, fun _ k request found lies => by cases lies⟩
    · show s.peer.closing.settled = true
      rw [enabled.1]
      rfl
    · change 4 ≤ s.peer.closing.stage at late
      rw [enabled.1] at late
      exact absurd late (by decide)
  | request e flush =>
    obtain ⟨settled, answered, fresh, refused⟩ := shut
    constructor <;> simp only [next] <;> first | assumption | grind
  | addPending k =>
    obtain ⟨settled, answered, fresh, refused⟩ := shut
    obtain ⟨request, found, adding⟩ := at_iff.mp enabled
    constructor <;> simp only [next, found, Pending.addPending, setPlace, setRequest] <;> first | assumption | grind
  | enqueue k =>
    obtain ⟨settled, answered, fresh, refused⟩ := shut
    obtain ⟨request, found, ready⟩ := at_iff.mp enabled
    -- the call that the request makes now is the last
    constructor <;> simp only [next, found, Pending.enqueue, setRequest, Peer.next] <;> first | assumption | grind
  | enqueued k i result | receive k | contextDone k | peerDone k =>
    obtain ⟨settled, answered, fresh, refused⟩ := shut
    constructor <;> simp only [next, setPlace, setRequest] <;> first | assumption | grind
  | removePending k =>
    obtain ⟨settled, answered, fresh, refused⟩ := shut
    obtain ⟨request, found, -⟩ := at_iff.mp enabled
    constructor <;> simp only [next, found, Pending.removePending, setRequest] <;> first | assumption | grind
  | take i =>
    obtain ⟨settled, answered, fresh, refused⟩ := shut
    obtain ⟨completion, found, -⟩ := at_iff.mp enabled
    simp only [next, found, Pending.take, setCompletion]
    split <;> constructor <;> first | assumption | grind
  | deliver i k =>
    obtain ⟨settled, answered, fresh, refused⟩ := shut
    obtain ⟨completion, found, -⟩ := at_iff.mp enabled.1
    constructor <;> simp only [next, found, setCompletion, Pending.send, setRequest] <;> first | assumption | grind
  | fail id k =>
    obtain ⟨settled, answered, fresh, refused⟩ := shut
    obtain ⟨map, swapped, lies⟩ := Option.bind_eq_some_iff.mp enabled.1
    -- somebody is left to answer
    have early : ¬ 4 ≤ s.peer.closing.stage := by
      intro late
      cases swapped.symm.trans (answered late)
      cases lies
    constructor <;> simp only [next, Pending.send, setRequest] <;> grind

end Shut

/-! Matching over whole runs -/

section Matching

structure Sound (s : Pending) : Prop where
  peer : s.peer.Sound
  named : s.Named
  held : s.Held
  shut : s.Shut

theorem sound_initial (sendQueue : Nat) : (initial sendQueue).Sound where
  peer := Peer.sound_fresh sendQueue
  named := by
    constructor <;> simp [initial, Names, left, at_iff]
  held k request found := by cases found
  shut := by
    constructor <;> simp [initial, Closing.stage]

theorem peer_step (enabled : s.Enabled a) :
    (s.next a).peer = s.peer ∨ ∃ b, s.peer.Enabled b ∧ (s.next a).peer = s.peer.next b ∧
      (a = .peer b ∨ ∃ item nonBlocking, b = .enqueue item nonBlocking) := by
  cases a with
  | peer b => exact .inr ⟨b, enabled.1, rfl, .inl rfl⟩
  | enqueue k =>
    obtain ⟨request, found, -⟩ := at_iff.mp enabled
    simp only [next, found]
    exact .inr ⟨.enqueue { message := request.envelope, notify := false } false, trivial, rfl, .inr ⟨_, _, rfl⟩⟩
  | addPending k | removePending k | look i | take i =>
    obtain ⟨_, found, -⟩ := at_iff.mp enabled
    simp only [next, found, take]
    try split
    all_goals exact .inl rfl
  | deliver i k =>
    obtain ⟨_, found, -⟩ := at_iff.mp enabled.1
    simp only [next, found]
    exact .inl rfl
  | _ => exact .inl rfl

theorem peer_next (sound : s.peer.Sound) (enabled : s.Enabled a) : (s.next a).peer.Sound := by
  rcases peer_step enabled with same | ⟨b, allowed, moved, _⟩
  · rwa [same]
  · rw [moved]
    exact Peer.sound_next sound allowed

variable {sendQueue : Nat}

theorem peer_reachable (reach : machine.Reachable (initial sendQueue) s) :
    (Peer.machine (M := Envelope)).Reachable { sendQueue := sendQueue } s.peer :=
  reach.view Pending.peer fun _ _ enabled =>
    (peer_step enabled).imp id fun ⟨b, allowed, moved, _⟩ => ⟨b, allowed, moved⟩

theorem sound_next (sound : s.Sound) (enabled : s.Enabled a) : (s.next a).Sound where
  peer := peer_next sound.peer enabled
  named := named_next sound.named enabled
  held := held_next sound.named sound.held enabled
  shut := shut_next sound.peer sound.shut enabled

theorem sound_reachable (reach : machine.Reachable (initial sendQueue) s) : s.Sound :=
  reach.invariant (sound_initial sendQueue) fun _ _ sound enabled => sound_next sound enabled

theorem Sound.room (sound : s.Sound) (names : s.Names id k) (owing : 0 < s.due id k) :
    At s.requests k fun request => request.room = true := by
  obtain ⟨request, found, rfl⟩ := at_iff.mp names
  have most := (sound.held k request found).1
  refine at_iff.mpr ⟨request, found, decide_eq_true ?_⟩
  omega

theorem Sound.deliver_enabled (sound : s.Sound) {i : Nat} {completion : Completion}
    (found : s.completions[i]? = some completion) (sending : completion.place = .sending k) :
    s.Enabled (.deliver i k) := by
  refine ⟨at_iff.mpr ⟨completion, found, sending⟩, sound.room (sound.named.sending i completion found k sending) ?_⟩
  have hand : 0 < inHands s.completions k :=
    List.countP_pos_iff.mpr ⟨completion, List.mem_of_getElem? found, decide_eq_true sending⟩
  unfold due
  omega

theorem Sound.fail_enabled (sound : s.Sound) (lies : s.left.lookup id = some k) : s.Enabled (.fail id k) :=
  ⟨left_eq_bind.trans lies, sound.room (sound.named.left id k lies) (by grind)⟩

def Enqueued (s : Pending) (request : Request) : Prop :=
  ∃ i, request.call = some i ∧ At s.peer.calls i fun call => call.place = .returned none

theorem Sound.matched (sound : s.Sound) (finished : s.peer.closing = .finished) {request : Request}
    (found : s.requests[k]? = some request) (enqueued : s.Enqueued request) :
    (∀ id, s.pending.lookup id ≠ some k) ∧ (∀ id, s.left.lookup id ≠ some k) ∧
      (request.sent.length = 1 ∨ (∃ completion ∈ s.completions, completion.place = .sending k) ∨
        request.withdrawn = true) := by
  have empty : s.swapped = some ∅ := sound.shut.answered (by rw [finished]; decide)
  have left (id : Nat) : s.left.lookup id ≠ some k := by
    rw [Pending.left, empty]
    exact nofun
  obtain ⟨i, called, returned⟩ := enqueued
  have pending (id : Nat) : s.pending.lookup id ≠ some k := by
    intro lies
    obtain rfl := (sound.named.pending id k lies).here found
    refine sound.shut.refused (by rw [empty]; exact nofun) k request found lies i called (returned.mono fun call is => ?_)
    rw [is]
    rfl
  refine ⟨pending, left, ?_⟩
  have added : request.place ≠ .adding := by
    intro adding
    rw [sound.shut.fresh k request found (.inl adding)] at called
    cases called
  cases kept : request.withdrawn with
  | true => exact .inr (.inr rfl)
  | false =>
    have one := (sound.held k request found).2.2 added kept
    unfold due inMap at one
    rw [if_neg (pending _), if_neg (left _)] at one
    by_cases hand : 0 < inHands s.completions k
    · obtain ⟨completion, member, is⟩ := List.countP_pos_iff.mp hand
      exact .inr (.inl ⟨completion, member, of_decide_eq_true is⟩)
    · exact .inl (by omega)

/-- In every state of every run: a channel has received at most one result, and an envelope only under the ID of its
request; whoever is about to send to a channel can; and when a call of `close` has returned, a request whose `enqueue`
returned nil is in no map and has its result, is in the hand of a `complete`, or has removed its entry. -/
theorem responses_matched (reach : machine.Reachable (initial sendQueue) s) :
    (∀ request ∈ s.requests, request.sent.length ≤ 1 ∧
      ∀ e, .envelope e ∈ request.sent → e.requestID = request.envelope.requestID) ∧
    (∀ i k, (At s.completions i fun completion => completion.place = .sending k) → machine.Enabled s (.deliver i k)) ∧
    (∀ id k, (s.swapped.bind fun swapped => swapped.lookup id) = some k → machine.Enabled s (.fail id k)) ∧
    (true ∈ s.peer.closers ∨ s.peer.closing = .finished →
      ∀ k request, s.requests[k]? = some request → s.Enqueued request →
        (∀ id, s.pending.lookup id ≠ some k) ∧
        (∀ id, (s.swapped.bind fun swapped => swapped.lookup id) ≠ some k) ∧
        (request.sent.length = 1 ∨ (∃ completion ∈ s.completions, completion.place = .sending k) ∨
          request.withdrawn = true)) := by
  have sound := sound_reachable reach
  refine ⟨fun request member => ?_, fun i k sending => ?_, fun id k lies => ?_,
    fun closed k request found enqueued => ?_⟩
  · obtain ⟨k, found⟩ := List.getElem?_of_mem member
    exact ⟨(Nat.le_add_left _ _).trans (sound.held k request found).1, sound.named.own k request found⟩
  · obtain ⟨completion, found, is⟩ := at_iff.mp sending
    exact sound.deliver_enabled found is
  · exact sound.fail_enabled (left_eq_bind.symm.trans lies)
  · simp only [left_eq_bind]
    exact sound.matched (closed.elim sound.peer.returned fun finished => finished) found enqueued

def ask : Envelope where
  kind := .call
  sourceNode := "a"

def closedUnder : List Action :=
  [.request ask false, .addPending 0, .enqueue 0, .peer (.beginEnqueue 0), .peer (.push 0), .peer (.leave 0),
    .enqueued 0 0 none, .request ask true, .addPending 1, .enqueue 1, .peer (.beginEnqueue 1), .peer (.push 1),
    .peer (.leave 1), .enqueued 1 1 none, .read { kind := .response, requestID := 1, sourceNode := "b" }, .take 0,
    .peer .close, .peer .mark, .peer .disconnect, .peer .wait, .swap, .request ask false, .addPending 2, .enqueue 2,
    .peer (.beginEnqueue 2), .fail 2 1, .peer .respond, .peer .drain, .peer .drainOne, .peer .drainReport,
    .peer .drainOne, .peer .drainReport, .peer .finish, .peer (.closeReturn 0)]

theorem responses_matched_closedUnder :
    ∃ s, machine.run (initial 2) closedUnder = some s ∧ true ∈ s.peer.closers ∧
      (s.requests.map fun request => request.sent) = [[], [.err .remoteUnavailable], []] ∧
      s.pending.lookup 3 = some 2 ∧ machine.Enabled s (.deliver 0 0) := by
  have ran : machine.run (initial 2) closedUnder = some (machine.after (initial 2) closedUnder) :=
    Machine.run_after (by decide +kernel)
  obtain ⟨-, delivers, -, -⟩ := responses_matched ⟨_, ran⟩
  exact ⟨_, ran, by decide +kernel, by decide +kernel, by decide +kernel, delivers 0 0 (by decide +kernel)⟩

end Matching

end Pending

end Skygo.Transport
