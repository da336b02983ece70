import Skygo.Transport.Flush
import Skygo.Transport.NodeUsed
import Skygo.Transport.Settled

/-! What `FlushOutgoing` says when it returns nil: of every connection that its lane still holds, that what was enqueued
there before is settled. -/

set_option autoImplicit false

namespace Skygo.Transport

open Semantics
open scoped List

namespace Peer

variable {p : Peer Envelope}

theorem items_next {a : Action Envelope} (other : ∀ item nonBlocking, a ≠ .enqueue item nonBlocking) :
    (p.next a).items = p.items := by
  cases a with
  | enqueue item nonBlocking => exact absurd rfl (other item nonBlocking)
  | beginEnqueue i =>
    dsimp only [next]
    split <;> exact map_modify_same fun _ _ => rfl
  | push i | unavailable i | contextDone i | full i => exact map_modify_same fun _ _ => rfl
  | leave i => exact map_modify_same fun call _ => by split <;> rfl
  | takeControl | takeSend | written | failed | drainOne =>
    dsimp only [next]
    split <;> rfl
  | report | drainReport =>
    dsimp only [next]
    unfold Peer.reportSendFailure
    split
    · split <;> rfl
    · rfl
  | _ => rfl

theorem items_enqueue (item : Outbound Envelope) (nonBlocking : Bool) :
    (p.next (.enqueue item nonBlocking)).items = p.items ++ [item] := by
  simp [next, items]

end Peer

def Outbound.ping? (item : Outbound Envelope) : Option Nat :=
  if item.message.kind = .ping then some item.message.requestID else none

structure Numbered (last : Nat) (items : List (Outbound Envelope)) : Prop where
  increasing : (items.filterMap Outbound.ping?).Pairwise (· < ·)
  bound : ∀ id ∈ items.filterMap Outbound.ping?, id ≤ last

namespace Numbered

variable {last : Nat} {items : List (Outbound Envelope)}

section

variable (numbered : Numbered last items)
include numbered

theorem mono {later : Nat} (grown : last ≤ later) : Numbered later items :=
  ⟨numbered.increasing, fun id member => (numbered.bound id member).trans grown⟩

theorem other {item : Outbound Envelope} (quiet : item.ping? = none) : Numbered last (items ++ [item]) := by
  have same : (items ++ [item]).filterMap Outbound.ping? = items.filterMap Outbound.ping? := by simp [quiet]
  exact ⟨same ▸ numbered.increasing, same ▸ numbered.bound⟩

theorem ping {item : Outbound Envelope} (number : item.ping? = some (last + 1)) :
    Numbered (last + 1) (items ++ [item]) := by
  have grown : (items ++ [item]).filterMap Outbound.ping? = items.filterMap Outbound.ping? ++ [last + 1] := by
    simp [number]
  refine ⟨?_, fun id member => ?_⟩
  · rw [grown, List.pairwise_append]
    refine ⟨numbered.increasing, List.pairwise_singleton .., fun id member other single => ?_⟩
    have bound := numbered.bound id member
    have is := List.mem_singleton.mp single
    omega
  · rw [grown] at member
    rcases List.mem_append.mp member with old | fresh
    · exact (numbered.bound id old).trans (Nat.le_succ _)
    · exact (List.mem_singleton.mp fresh).le

theorem alone {i k id : Nat} (first : At items i fun item => item.ping? = some id)
    (second : At items k fun item => item.ping? = some id) : i = k := by
  have twice {i k : Nat} (less : i < k) (first : At items i fun item => item.ping? = some id)
      (second : At items k fun item => item.ping? = some id) : id < id := by
    obtain ⟨early, found, number⟩ := at_iff.mp first
    obtain ⟨late, there, same⟩ := at_iff.mp second
    have before : Precedes items early late := precedes_iff.mpr ⟨i, k, less, found, there⟩
    exact (before.filterMap number same).rel numbered.increasing
  rcases Nat.lt_trichotomy i k with less | same | more
  · exact absurd (twice less first second) (lt_irrefl id)
  · exact same
  · exact absurd (twice more second first) (lt_irrefl id)

end

end Numbered

namespace Outgoing

variable {s t : Outgoing} {k i g : Nat}

variable {a : Action}

theorem net_next (enabled : s.Enabled a) :
    (s.next a).net = s.net ∨ ∃ b, s.net.Enabled b ∧ (s.next a).net = s.net.next b := by
  have enqueues {k : Nat} (known : k < s.net.links.length) (item : Outbound Envelope) (nonBlocking : Bool) :
      s.net.Enabled (.peer k (.enqueue item nonBlocking)) :=
    ⟨at_iff.mpr ⟨_, List.getElem?_eq_getElem known, trivial⟩, rfl⟩
  cases a with
  | net b => exact .inr ⟨b, enabled.2, rfl⟩
  | dial a r c => exact .inr ⟨_, enabled.2.1, rfl⟩
  | mark k | closed k => exact .inr ⟨_, enabled.2, rfl⟩
  | ping g k peers => exact .inr ⟨_, enqueues enabled.2 _ _, rfl⟩
  | found x f peer =>
    dsimp only [next]
    split
    · unfold Outgoing.post
      split
      · exact .inl rfl
      · next k =>
        split
        · exact .inl rfl
        · exact .inr ⟨_, enqueues (enabled.2.2 k rfl) _ _, rfl⟩
    · exact .inl rfl
  | readSlot g j todo peers =>
    dsimp only [next]
    split
    · unfold Outgoing.readSlot
      repeat' split
      all_goals exact .inl rfl
    · exact .inl rfl
  | _ => exact .inl rfl

theorem node_next (enabled : s.Enabled a) :
    (s.next a).node = s.node ∨ ∃ b, s.node.Enabled b ∧ (s.next a).node = s.node.next b := by
  cases a with
  | control b => exact .inr ⟨b, enabled.2, rfl⟩
  | dial a r c | mark k | closed k => exact .inr ⟨_, enabled.1, rfl⟩
  | ask ask => exact .inr ⟨.peerFor ask.node ask.shard, trivial, rfl⟩
  | found x f peer =>
    dsimp only [next]
    split
    · unfold Outgoing.post
      repeat' split
      all_goals exact .inl rfl
    · exact .inl rfl
  | readSlot g j todo peers =>
    dsimp only [next]
    split
    · unfold Outgoing.readSlot
      repeat' split
      all_goals exact .inl rfl
    · exact .inl rfl
  | _ => exact .inl rfl

section Reachable

variable {nodeID : String} {connectionsPerPeer sendQueue : Nat} {registry : Snapshot} {setups : List Network.Setup}

theorem reachable_net (reach : machine.Reachable (initial nodeID connectionsPerPeer sendQueue registry setups) s) :
    s.net.Sound :=
  Network.sound_reachable (reach.view (N := Network.machine) Outgoing.net fun _ _ enabled => net_next enabled)

theorem reachable_node (reach : machine.Reachable (initial nodeID connectionsPerPeer sendQueue registry setups) s) :
    s.node.Grounded :=
  Node.grounded_reachable (reach.view (N := Node.machine) Outgoing.node fun _ _ enabled => node_next enabled)

end Reachable

structure Later (s t : Outgoing) : Prop where
  node : s.node.Later t.node
  net : s.net.Later t.net
  nodeID : t.net.nodeID = s.net.nodeID

theorem later_next (enabled : s.Enabled a) : Later s (s.next a) := by
  have named (b : Network.Action) : (s.net.next b).nodeID = s.net.nodeID := by
    cases b with
    | read k e =>
      dsimp only [Network.next]
      split <;> rfl
    | _ => rfl
  have node : s.node.Later (s.next a).node := by
    rcases node_next enabled with same | ⟨b, _, moved⟩
    · rw [same]
      exact .refl s.node
    · rw [moved]
      exact Node.later_next s.node b
  rcases net_next enabled with same | ⟨b, allowed, moved⟩
  · exact ⟨node, same ▸ Network.later_refl s.net, by rw [same]⟩
  · exact ⟨node, moved ▸ Network.later_next allowed, moved ▸ named b⟩

def Carried (s : Outgoing) (k i : Nat) : Prop :=
  s.node.Used k ∧ At s.net.links k fun link => At link.peer.items i fun item =>
    item.message.kind = .send ∧ item.message.version = protocolVersion ∧ item.message.sourceNode = s.net.nodeID

def Sent (s : Outgoing) (k i : Nat) : Prop :=
  s.Carried k i ∧ At s.net.links k fun link => i ∈ link.peer.accepted

theorem items_mono {early late : List (Outbound Envelope)} {p : Outbound Envelope → Prop} (known : At early i p)
    (grown : early <+: late) : At late i p := by
  obtain ⟨item, found, holds⟩ := at_iff.mp known
  exact at_iff.mpr ⟨item, lookup_prefix grown found, holds⟩

theorem Carried.mono (carried : s.Carried k i) (later : Later s t) : t.Carried k i := by
  refine ⟨carried.1.mono later.node.peers later.node.slots, ?_⟩
  rw [later.nodeID]
  exact later.net.links.at_mono carried.2 fun _ _ grown known => items_mono known grown.items

theorem Sent.mono (sent : s.Sent k i) (later : Later s t) : t.Sent k i :=
  ⟨sent.1.mono later, later.net.links.at_mono sent.2 fun _ _ grown member => grown.accepted.subset member⟩

def Posted (s : Outgoing) (post : Post) : Prop :=
  post.ask.isSend = true → match post.place with
    | .enqueuing k i => s.Carried k i
    | .returned (some (k, i)) => s.Sent k i
    | _ => True

theorem Posted.mono {post : Post} (posted : s.Posted post) (later : Later s t) : t.Posted post := by
  intro sends
  have known := posted sends
  split
  · next at_ => exact Carried.mono (by simpa only [at_] using known) later
  · next at_ => exact Sent.mono (by simpa only [at_] using known) later
  · trivial

def Waits (s : Outgoing) (sends : List (Nat × Nat)) (peers : List Nat) (asked : Nat → Nat → Prop) : Prop :=
  ∀ pair ∈ sends, s.net.Settled pair.1 pair.2 ∨ pair.1 ∈ peers ∨ asked pair.1 pair.2

def Knows (s : Outgoing) (sends : List (Nat × Nat)) : FlushPlace → Prop
  | .called => True
  | .reading todo peers => s.Waits sends peers fun k _ => At s.node.peers k fun handle => handle.slot ∈ todo
  | .enqueuing k p id peers | .waiting k p id peers =>
      (At s.net.links k fun link => At link.peer.items p fun item => item.ping? = some id) ∧
        s.Waits sends peers fun l i => l = k ∧ At s.net.links k fun link => Network.Behind link.peer.accepted i p
  | .returned ok => ok = true → ∀ pair ∈ sends, s.net.Settled pair.1 pair.2

theorem Waits.mono {sends : List (Nat × Nat)} {peers : List Nat} {asked later : Nat → Nat → Prop}
    (waits : s.Waits sends peers asked) (grown : Later s t) (implies : ∀ k i, asked k i → later k i) :
    t.Waits sends peers later := fun pair member =>
  (waits pair member).imp (fun settled => settled.mono grown.net) fun rest => rest.imp_right (implies pair.1 pair.2)

theorem Knows.mono {sends : List (Nat × Nat)} {place : FlushPlace} (knows : s.Knows sends place) (later : Later s t) :
    t.Knows sends place := by
  have asked {k p id : Nat} {peers : List Nat}
      (known : (At s.net.links k fun link => At link.peer.items p fun item => item.ping? = some id) ∧
        s.Waits sends peers fun l i => l = k ∧ At s.net.links k fun link => Network.Behind link.peer.accepted i p) :
      (At t.net.links k fun link => At link.peer.items p fun item => item.ping? = some id) ∧
        t.Waits sends peers fun l i => l = k ∧ At t.net.links k fun link => Network.Behind link.peer.accepted i p := by
    refine ⟨later.net.links.at_mono known.1 fun _ _ grown item => items_mono item grown.items, ?_⟩
    refine known.2.mono later fun l i behind => ⟨behind.1, ?_⟩
    exact later.net.links.at_mono behind.2 fun _ _ grown => fun behind => behind.mono grown.accepted
  cases place with
  | called => trivial
  | reading todo peers =>
    have waits : s.Waits sends peers fun k _ => At s.node.peers k fun handle => handle.slot ∈ todo := knows
    refine waits.mono later fun k _ known => later.node.peers.at_mono known fun handle after same inside => ?_
    rw [same.1]
    exact inside
  | enqueuing k p id peers => exact asked knows
  | waiting k p id peers => exact asked knows
  | returned ok => exact fun nil pair member => (knows nil pair member).mono later.net

structure Sound (s : Outgoing) : Prop where
  numbered : ∀ (k : Nat) (link : Link), s.net.links[k]? = some link → Numbered s.nextRequest link.peer.items
  posts : ∀ (x : Nat) (post : Post), s.posts[x]? = some post → s.Posted post
  flushes : ∀ (g : Nat) (flush : Flush), s.flushes[g]? = some flush →
    (∀ pair ∈ flush.sends, s.Sent pair.1 pair.2) ∧ s.Knows flush.sends flush.place

namespace Sound

theorem mono (sound : s.Sound) (later : Later s t)
    (numbered : ∀ (k : Nat) (link : Link), t.net.links[k]? = some link → Numbered t.nextRequest link.peer.items)
    (posts : t.posts = s.posts) (flushes : t.flushes = s.flushes) : t.Sound where
  numbered := numbered
  posts x post found := (sound.posts x post (posts ▸ found)).mono later
  flushes g flush found := by
    obtain ⟨sent, knows⟩ := sound.flushes g flush (flushes ▸ found)
    exact ⟨fun pair member => (sent pair member).mono later, knows.mono later⟩

theorem setPost (sound : s.Sound) {x : Nat} {place : PostPlace}
    (posted : ∀ post, s.posts[x]? = some post → s.Posted { post with place := place }) : (s.setPost x place).Sound :=
  ⟨sound.numbered,
    forall_modify (P := fun _ post => s.Posted post) posted fun x post _ found => sound.posts x post found,
    sound.flushes⟩

theorem setFlush (sound : s.Sound) {place : FlushPlace}
    (knows : ∀ flush, s.flushes[g]? = some flush → s.Knows flush.sends flush.place → s.Knows flush.sends place) :
    (s.setFlush g place).Sound := by
  refine ⟨sound.numbered, sound.posts, ?_⟩
  refine forall_modify (P := fun _ (flush : Flush) =>
    (∀ pair ∈ flush.sends, s.Sent pair.1 pair.2) ∧ s.Knows flush.sends flush.place) (fun flush found => ?_)
    fun h flush _ found => sound.flushes h flush found
  obtain ⟨sent, known⟩ := sound.flushes g flush found
  exact ⟨sent, knows flush found known⟩

end Sound

theorem numbered_net (sound : s.Sound) {b : Network.Action} (far : ∀ k item nonBlocking, b ≠ .peer k (.enqueue item nonBlocking))
    (k : Nat) (link : Link) (found : (s.net.next b).links[k]? = some link) : Numbered s.nextRequest link.peer.items := by
  cases b with
  | connect r c =>
    rcases lookup_append found with old | ⟨_, rfl⟩
    · exact sound.numbered k link old
    · exact ⟨List.Pairwise.nil, fun _ member => by cases member⟩
  | peer l a =>
    rcases lookup_modify found with ⟨rfl, old, there, rfl⟩ | ⟨_, there⟩
    · dsimp only
      rw [Peer.items_next fun item nonBlocking same => far k item nonBlocking (by rw [same])]
      exact sound.numbered k old there
    · exact sound.numbered k link there
  | read l e =>
    refine sound.numbered k link ?_
    dsimp only [Network.next] at found
    split at found <;> exact found
  | node r a => exact sound.numbered k link found

theorem numbered_enqueue (sound : s.Sound) {item : Outbound Envelope} {nonBlocking : Bool} {next : Nat}
    (grown : s.nextRequest ≤ next)
    (number : item.ping? = none ∨ item.ping? = some (s.nextRequest + 1) ∧ next = s.nextRequest + 1)
    (l : Nat) (link : Link) (found : (s.enqueue k item nonBlocking).net.links[l]? = some link) :
    Numbered next link.peer.items := by
  rcases lookup_modify found with ⟨rfl, old, there, rfl⟩ | ⟨_, there⟩
  · dsimp only
    rw [Peer.items_enqueue]
    have numbered := sound.numbered l old there
    rcases number with quiet | ⟨ping, rfl⟩
    · exact (numbered.other quiet).mono grown
    · exact numbered.ping ping
  · exact (sound.numbered l link there).mono grown

/-- At `FlushOutgoing`'s snapshot of the slots the manager still has the lane of every notification that is not
settled, and as it reads a lane that has a peer it is the peer that took the notifications. -/
def Covered (s : Outgoing) : Action → Prop
  | .snapshot g => At s.flushes g fun flush => ∀ pair ∈ flush.sends,
      s.net.Settled pair.1 pair.2 ∨ At s.node.peers pair.1 fun handle => handle.slot ∈ s.node.attached
  | .readSlot g j _ _ => At s.flushes g fun flush => ∀ pair ∈ flush.sends,
      s.net.Settled pair.1 pair.2 ∨ At s.node.peers pair.1 fun handle => handle.slot = j →
        At s.node.slots j fun slot => slot.peer = none ∨ slot.peer = some pair.1
  | _ => True

instance (s : Outgoing) (a : Action) : Decidable (s.Covered a) := by
  rcases a with _ | _ <;> dsimp only [Covered] <;> infer_instance

namespace Sound

theorem fresh_item (known : k < s.net.links.length) (item : Outbound Envelope) (nonBlocking : Bool) :
    At (s.enqueue k item nonBlocking).net.links k fun link => At link.peer.items (s.fresh k) fun last => last = item := by
  have found : s.net.links[k]? = some s.net.links[k] := List.getElem?_eq_getElem known
  refine at_iff.mpr ⟨_, lookup_modify_self found, at_iff.mpr ⟨item, ?_, rfl⟩⟩
  dsimp only
  rw [Peer.items_enqueue]
  simp [fresh, found, Peer.items]

section

variable (sound : s.Sound)
include sound

theorem found (grounded : s.node.Grounded) {x f : Nat} {peer : Option Nat}
    (enabled : s.Enabled (.found x f peer)) : (s.next (.found x f peer)).Sound := by
  have later := later_next enabled
  obtain ⟨here, returned, known⟩ := enabled
  obtain ⟨post, there, _, _⟩ := at_iff.mp here
  simp only [next, there] at later ⊢
  unfold Outgoing.post at later ⊢
  cases peer with
  | none => exact sound.setPost fun _ _ _ => trivial
  | some k =>
    dsimp only at later ⊢
    split
    · exact sound.setPost fun _ _ _ => trivial
    · next agrees =>
      rw [if_neg agrees] at later
      have grown : s.nextRequest ≤ if post.ask.isSend = true then s.nextRequest else s.nextRequest + 1 := by
        split <;> omega
      have quiet (id : Nat) : (post.ask.outbound s.net.nodeID id).ping? = none := by
        cases post.ask <;> simp [Ask.outbound, Outbound.ping?]
      have last := fresh_item (known k rfl) (post.ask.outbound s.net.nodeID
        (if post.ask.isSend = true then s.nextRequest else s.nextRequest + 1)) post.ask.nonBlocking
      have used : s.node.Used k := by
        obtain ⟨find, has, at_⟩ := at_iff.mp returned
        exact grounded.finds f find has k at_
      refine ⟨numbered_enqueue sound grown (.inl (quiet _)), ?_, fun g flush found => ?_⟩
      · refine forall_modify (fun old has sends => ?_) fun y other _ has => (sound.posts y other has).mono later
        obtain rfl := Option.some.inj (there.symm.trans has)
        refine ⟨used, last.mono fun link known => known.mono fun item same => ?_⟩
        rw [same]
        cases ask : post.ask with
        | send target protocol nonBlocking => exact ⟨rfl, rfl, rfl⟩
        | call target protocol => simp [ask, Ask.isSend] at sends
        | resolve nodeID => simp [ask, Ask.isSend] at sends
      · obtain ⟨sent, knows⟩ := sound.flushes g flush found
        exact ⟨fun pair member => (sent pair member).mono later, knows.mono later⟩

theorem enqueued (net : s.net.Sound) {x : Nat} {result : Option Fault}
    (enabled : s.Enabled (.enqueued x k i result)) : (s.next (.enqueued x k i result)).Sound := by
  refine sound.setPost fun post found sends => ?_
  have place := enabled.1.here found
  have posted := sound.posts x post found sends
  simp only [place] at posted
  cases result with
  | some fault => trivial
  | none =>
    obtain ⟨link, there, returned⟩ := at_iff.mp enabled.2
    refine ⟨posted, at_iff.mpr ⟨link, there, ?_⟩⟩
    refine Peer.listed_reachable (net.links k link there).peer i (returned.mono fun call at_ => ?_)
    rw [at_]
    rfl

theorem flush : (s.next .flush).Sound := by
  refine ⟨sound.numbered, sound.posts, fun g flush found => ?_⟩
  rcases lookup_append found with old | ⟨_, rfl⟩
  · exact sound.flushes g flush old
  · refine ⟨fun pair member => ?_, trivial⟩
    obtain ⟨post, inside, sent⟩ := List.mem_filterMap.mp member
    obtain ⟨x, there⟩ := List.mem_iff_getElem?.mp inside
    have posted := sound.posts x post there
    unfold Post.sent at sent
    split at sent
    · next at_ =>
      split at sent
      · next sends =>
        subst sent
        have known := posted sends
        simp only [at_] at known
        exact known
      · cases sent
    · cases sent

theorem snapshot (covered : s.Covered (.snapshot g)) : (s.next (.snapshot g)).Sound := by
  refine sound.setFlush fun flush found _ pair member => ?_
  exact (covered.here found pair member).imp_right .inr

theorem readSlot {j : Nat} {todo peers : List Nat} (enabled : s.Enabled (.readSlot g j todo peers))
    (covered : s.Covered (.readSlot g j todo peers)) : (s.next (.readSlot g j todo peers)).Sound := by
  have waits {flush : Flush} (found : s.flushes[g]? = some flush) (knows : s.Knows flush.sends flush.place) :
      s.Waits flush.sends peers fun k _ => At s.node.peers k fun handle => handle.slot ∈ todo := by
    rw [enabled.1.here found] at knows
    exact knows
  dsimp only [next]
  split
  · next slot lies =>
    unfold Outgoing.readSlot
    split
    · next k held =>
      refine sound.setFlush fun flush found knows pair member => ?_
      rcases waits found knows pair member with settled | asked | rest
      · exact .inl settled
      · exact .inr (.inl (List.mem_append_left _ asked))
      · obtain ⟨handle, has, inside⟩ := at_iff.mp rest
        rcases covered.here found pair member with settled | current
        · exact .inl settled
        · by_cases same : handle.slot = j
          · have mine := (current.here has same).here lies
            rw [held] at mine
            have is : k = pair.1 := by simpa using mine
            exact .inr (.inl (List.mem_append_right _ (by simp [is])))
          · exact .inr (.inr (at_iff.mpr ⟨handle, has, (List.mem_erase_of_ne same).mpr inside⟩))
    · split
      · exact sound.setFlush fun _ _ _ nil => by cases nil
      · next never =>
        refine sound.setFlush fun flush found knows pair member => ?_
        refine (waits found knows pair member).imp_right fun rest => rest.imp_right fun later => ?_
        -- The lane of a notification was connected once.
        obtain ⟨handle, has, inside⟩ := at_iff.mp later
        refine at_iff.mpr ⟨handle, has, (List.mem_erase_of_ne fun same => never ?_).mpr inside⟩
        have used := ((sound.flushes g flush found).1 pair member).1.1.here has
        exact (same ▸ used).here lies
  · exact sound

theorem ping (net : s.net.Sound) {peers : List Nat} (enabled : s.Enabled (.ping g k peers)) :
    (s.next (.ping g k peers)).Sound := by
  have later := later_next enabled
  have last := fresh_item enabled.2 (barrierPing s.net.nodeID (s.nextRequest + 1)) false
  refine ⟨numbered_enqueue sound (Nat.le_succ _) (.inr ⟨rfl, rfl⟩), fun x post found => (sound.posts x post found).mono later,
    ?_⟩
  refine forall_modify (fun flush found => ?_) fun h flush _ found => ?_
  · obtain ⟨sent, knows⟩ := sound.flushes g flush found
    refine ⟨fun pair member => (sent pair member).mono later, last.mono fun link known => known.mono fun item same => ?_, ?_⟩
    · rw [same]
      rfl
    · rw [enabled.1.here found] at knows
      intro pair member
      rcases knows pair member with settled | asked | rest
      · exact .inl (settled.mono later.net)
      · rcases List.mem_cons.mp asked with here | others
        · refine .inr (.inr ⟨here, ?_⟩)
          obtain ⟨link, there, accepted⟩ := at_iff.mp (sent pair member).2
          rw [here] at there
          -- The number of the PING is not yet in the queue.
          refine at_iff.mpr ⟨_, lookup_modify_self there, accepted, fun inside => ?_⟩
          obtain ⟨_, bound, _⟩ := at_iff.mp ((Peer.once_reachable (net.links k link there).peer).known _ inside)
          have := lookup_lt bound
          simp [fresh, there] at this
        · exact .inr (.inl others)
      · obtain ⟨_, _, never⟩ := at_iff.mp rest
        cases never
  · obtain ⟨sent, knows⟩ := sound.flushes h flush found
    exact ⟨fun pair member => (sent pair member).mono later, knows.mono later⟩

theorem pong (net : s.net.Sound) {p id : Nat} {peers : List Nat} {protocol : String}
    (enabled : s.Enabled (.pong g k p id peers protocol)) : (s.next (.pong g k p id peers protocol)).Sound := by
  dsimp only [next]
  split
  · next barrier =>
    subst barrier
    refine sound.setFlush fun flush found knows pair member => ?_
    rw [enabled.1.here found] at knows
    rcases knows.2 pair member with settled | asked | ⟨here, behind⟩
    · exact .inl settled
    · exact .inr (.inl asked)
    · left
      obtain ⟨link, there, _, answered⟩ := at_iff.mp enabled.2
      have carried := ((sound.flushes g flush found).1 pair member).1.2
      rw [here] at carried ⊢
      have items {q : Nat} {r : Outbound Envelope → Prop} (known : At link.peer.calls q fun call => r call.item) :
          At link.peer.items q r := by
        obtain ⟨call, has, holds⟩ := at_iff.mp known
        exact at_iff.mpr ⟨call.item, by simp [Peer.items, has], holds⟩
      refine net.settled_of_pong there answered (fun q ping => ?_) (behind.here there) ?_
      · refine (sound.numbered k link there).alone (items (r := fun item => item.ping? = some id) ?_) (knows.1.here there)
        exact ping.mono fun call known => by simp [Outbound.ping?, known.1, known.2]
      · obtain ⟨item, has, holds⟩ := at_iff.mp (carried.here there)
        obtain ⟨call, known, rfl⟩ := Option.map_eq_some_iff.mp ((List.getElem?_map ..).symm.trans has)
        exact at_iff.mpr ⟨call, known, holds⟩
  · exact sound.setFlush fun _ _ _ nil => by cases nil

end

end Sound

theorem sound_next (sound : s.Sound) (net : s.net.Sound) (grounded : s.node.Grounded)
    (covered : s.Covered a) (enabled : s.Enabled a) : (s.next a).Sound := by
  have later := later_next enabled
  cases a with
  | control a => exact sound.mono later sound.numbered rfl rfl
  | net b =>
    refine sound.mono later (numbered_net sound fun k item nonBlocking same => ?_) rfl rfl
    subst same
    cases enabled.1
  | dial a r c => exact sound.mono later (numbered_net sound fun _ _ _ => by simp) rfl rfl
  | mark k => exact sound.mono later (numbered_net sound fun _ _ _ => by simp) rfl rfl
  | closed k => exact sound.mono later (numbered_net sound fun _ _ _ => by simp) rfl rfl
  | ask ask =>
    refine ⟨sound.numbered, fun x post found => ?_, fun g flush found => ?_⟩
    · rcases lookup_append found with old | ⟨_, rfl⟩
      · exact (sound.posts x post old).mono later
      · exact fun _ => trivial
    · obtain ⟨sent, knows⟩ := sound.flushes g flush found
      exact ⟨fun pair member => (sent pair member).mono later, knows.mono later⟩
  | found x f peer => exact sound.found grounded enabled
  | enqueued x k i result => exact sound.enqueued net enabled
  | flush => exact sound.flush
  | snapshot g => exact sound.snapshot covered
  | readSlot g j todo peers => exact sound.readSlot enabled covered
  | ping g k peers => exact sound.ping net enabled
  | pinged g k p id peers result =>
    refine sound.setFlush fun flush found knows => ?_
    rw [enabled.1.here found] at knows
    cases result with
    | none => exact knows
    | some fault => exact fun nil => by cases nil
  | pong g k p id peers protocol => exact sound.pong net enabled
  | giveUp g k p id peers => exact sound.setFlush fun _ _ _ nil => by cases nil
  | done g =>
    refine sound.setFlush fun flush found knows nil pair member => ?_
    rw [enabled.here found] at knows
    rcases knows pair member with settled | asked | rest
    · exact settled
    · cases asked
    · obtain ⟨_, _, never⟩ := at_iff.mp rest
      cases never

/-- In every run in which `FlushOutgoing` finds the lanes as the notifications left them, its return with nil says
that every notification for which `Send` had returned nil before is settled. -/
theorem flush_settles (nodeID : String) (connectionsPerPeer sendQueue : Nat) (registry : Snapshot)
    (setups : List Network.Setup) (actions : List Action) (s : Outgoing)
    (ran : machine.run (initial nodeID connectionsPerPeer sendQueue registry setups) actions = some s)
    (covered : machine.Meets Covered (initial nodeID connectionsPerPeer sendQueue registry setups) actions)
    (g : Nat) (flush : Flush) (found : s.flushes[g]? = some flush) (nil : flush.place = .returned true) :
    ∀ pair ∈ flush.sends, s.net.Settled pair.1 pair.2 := by
  let start := initial nodeID connectionsPerPeer sendQueue registry setups
  have both : machine.Reachable start s ∧ s.Sound := by
    refine Machine.run_keeps_where (I := fun s => machine.Reachable start s ∧ s.Sound) ?_ ran covered ⟨.refl _, ?_⟩
    · rintro s action ⟨reach, sound⟩ met enabled
      exact ⟨reach.next enabled, sound_next sound (reachable_net reach) (reachable_node reach) met enabled⟩
    · constructor <;> simp [initial, Network.initial]
  have knows := (both.2.flushes g flush found).2
  rw [nil] at knows
  exact knows rfl

def pair : Outgoing := initial "a" 1 8 [("a", "a:1"), ("b", "b:1")] [⟨"b", "1", 1, 4, 4⟩]

def notice : Ask := .send ⟨"b", "1", "echo", 5, 1⟩ "say" true

def connects (n : Nat) : List Action :=
  [.ask notice, .control (.look n), .control (.locate n false), .control (.pick n "b:1"),
    .control (.turn n 0 "b:1" true), .control (.launch n 0 "b:1" n), .dial n 0 n, .control (.settle n (some n)),
    .control (.announce n), .control (.resume n 0 "b:1" n), .control (.turn n 0 "b:1" true), .found n n (some n)]

def queues (k i : Nat) : List Action :=
  [.net (.peer k (.beginEnqueue i)), .net (.peer k (.push i)), .net (.peer k (.leave i))]

def writes (k : Nat) : List Action :=
  [.net (.peer k .noControl), .net (.peer k .takeSend), .net (.peer k .written)]

def asks (k i : Nat) : List Action :=
  [.flush, .snapshot 0, .readSlot 0 0 [0] [], .ping 0 k []] ++ queues k i ++ [.pinged 0 k i 1 [] none] ++ writes k

def message : Envelope := (notice.outbound "a" 0).message

def marker : Envelope := (barrierPing "a" 1).message

def flushed : List Action :=
  let far a := Action.net (.node 0 a)
  connects 0 ++ queues 0 0 ++ [.enqueued 0 0 0 none] ++ writes 0 ++ asks 0 1 ++
    [.net (.read 0 message), far (.submit 0 0), far (.push 0 0), .net (.read 0 marker), far (.look 0 0), far (.take 0 0),
      far (.release 0 0), far (.check 0 0), far (.acquire 0 0), far (.deliver 0 0), far (.finish 0 0), far (.wake 0 0),
      far (.look 0 0), far (.pong 0 0), .pong 0 0 1 1 [] admissionBarrierProtocol, .done 0]

theorem flush_settles_flushed :
    ∃ s flush, machine.run pair flushed = some s ∧ s.flushes[0]? = some flush ∧ flush.place = .returned true ∧
      flush.sends = [(0, 0)] ∧ ∀ pair ∈ flush.sends, s.net.Settled pair.1 pair.2 := by
  have ran : machine.run pair flushed = some (machine.after pair flushed) := Machine.run_after (by decide +kernel)
  obtain ⟨flush, found, nil, sends⟩ : ∃ flush, (machine.after pair flushed).flushes[0]? = some flush ∧
      flush.place = .returned true ∧ flush.sends = [(0, 0)] := at_iff.mp (by decide +kernel)
  exact ⟨_, flush, ran, found, nil, sends,
    flush_settles "a" 1 8 _ _ flushed _ ran (by decide +kernel) 0 flush found nil⟩

/-- The notification is written to the socket, but the connection breaks before the far end reads it. The next `Send`
connects the lane again, and `FlushOutgoing` asks the new peer only. -/
def reconnected : List Action :=
  let far a := Action.net (.node 0 a)
  let near a := Action.net (.peer 0 a)
  connects 0 ++ queues 0 0 ++ [.enqueued 0 0 0 none] ++ writes 0 ++
    [far (.readFailed 0), near .close, .mark 0, near .disconnect, near .wait, near .respond, near .drain, .closed 0] ++
    connects 1 ++ queues 1 0 ++ [.enqueued 1 1 0 none] ++ writes 1 ++ asks 1 1 ++
    [.net (.read 1 message), far (.submit 1 0), far (.push 1 0), .net (.read 1 marker), far (.look 1 0), far (.take 0 0),
      far (.release 0 0), far (.check 0 0), far (.acquire 0 0), far (.deliver 0 0), far (.finish 0 0), far (.wake 1 0),
      far (.look 1 0), far (.pong 1 0), .pong 0 1 1 1 [] admissionBarrierProtocol, .done 0]

/-- The first notification was neither admitted nor reported, and nobody will read it any more. -/
theorem lost_on_reconnect :
    ∃ s, machine.run pair reconnected = some s ∧
      (At s.flushes 0 fun flush => flush.place = .returned true ∧ flush.sends = [(0, 0), (1, 0)]) ∧
      ¬ s.net.Settled 0 0 ∧ s.net.Settled 1 0 ∧
      (At s.net.links 0 fun link => link.peer.closing = .finished ∧ link.peer.reports = [] ∧
        At s.net.nodes link.node fun far => At far.conns link.conn fun conn => conn.log = [] ∧ conn.reader = .leaving) :=
  ⟨_, Machine.run_after (by decide +kernel), by decide +kernel, by decide +kernel, by decide +kernel, by decide +kernel⟩

end Outgoing

end Skygo.Transport
