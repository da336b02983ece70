import Skygo.Transport.InboundOutcome
import Skygo.Transport.NetworkSound
import Skygo.Transport.PeerWritten

/-! What became of a notification: it was reported by its sender, or admitted or reported by its receiver. Once it is
so it stays so, and the PONG of a barrier says so of everything that was enqueued before its PING. -/

set_option autoImplicit false

namespace Skygo.Transport

open Semantics
open scoped List

def Notice.reports (j : Nat) : Notice → Bool
  | .report i _ => i = j
  | _ => false

namespace Inbound

variable {s t : Inbound} {c j w : Nat}

structure Kept (s t : Inbound) : Prop where
  received : s.received ⊆ t.received
  notices : s.notices ⊆ t.notices

namespace Kept

theorem of_eq (received : t.received = s.received) (notices : t.notices = s.notices) : Kept s t :=
  ⟨received ▸ List.Subset.refl _, notices ▸ List.Subset.refl _⟩

theorem turnAway (s : Inbound) (j : Nat) (err : Actor.Fault) : Kept s (s.turnAway j err) := by
  unfold Inbound.turnAway
  split
  · split <;> exact ⟨List.Subset.refl _, List.subset_append_left ..⟩
  · exact .of_eq rfl rfl

theorem finishAdmission (s : Inbound) (j : Nat) : Kept s (s.finishAdmission j) := by
  unfold Inbound.finishAdmission
  split <;> exact .of_eq rfl rfl

theorem withJob {f : InboundJob → Inbound} (keeps : ∀ job, Kept s (f job)) : Kept s (s.withJob j f) := by
  unfold Inbound.withJob
  split
  · exact keeps _
  · exact .of_eq rfl rfl

theorem read (s : Inbound) (c : Nat) (e : Envelope) : Kept s (s.read c e) := by
  unfold Inbound.read
  repeat' split
  all_goals exact .of_eq rfl rfl

end Kept

theorem kept_next (s : Inbound) (a : Action) : Kept s (s.next a) := by
  have same : s.received ⊆ s.received ∧ s.notices ⊆ s.notices := ⟨List.Subset.refl _, List.Subset.refl _⟩
  cases a with
  | read c e => exact .read ..
  | submit c j | push c j =>
    refine .withJob fun job => ?_
    first | unfold Inbound.submit | unfold Inbound.push
    repeat' split
    all_goals exact .of_eq rfl rfl
  | refuse c j =>
    have finished := Kept.finishAdmission (s.setReader c (.rejected j)) j
    exact ⟨finished.received, finished.notices⟩
  | reject c j =>
    refine .withJob fun job => ?_
    have told := Kept.turnAway (s.setReader c .reading) j (.bare .transportBackpressure)
    exact ⟨told.received, told.notices⟩
  | check w j =>
    refine .withJob fun job => ?_
    split
    · exact ⟨same.1, List.subset_append_left ..⟩
    · exact .of_eq rfl rfl
  | acquire w j =>
    refine .withJob fun job => ?_
    unfold Inbound.acquire
    repeat' split
    · exact ⟨(Kept.turnAway s j _).received, (Kept.turnAway s j _).notices⟩
    · exact .of_eq rfl rfl
    · exact ⟨(Kept.turnAway s j _).received, (Kept.turnAway s j _).notices⟩
    · exact .of_eq rfl rfl
  | deliver w j => exact .withJob fun job => ⟨List.subset_append_left .., same.2⟩
  | fail w j err => exact .withJob fun job => ⟨(Kept.turnAway s j err).received, (Kept.turnAway s j err).notices⟩
  | finish w j =>
    have finished := Kept.finishAdmission (s.setWorker w .idle) j
    exact ⟨finished.received, finished.notices⟩
  | respond r j err =>
    refine .withJob fun job => ?_
    split
    · exact .of_eq rfl rfl
    · exact ⟨same.1, List.subset_append_left ..⟩
  | store c j => exact .withJob fun _ => .of_eq rfl rfl
  | complete r j err => exact .withJob fun _ => .of_eq rfl rfl
  | cutOff r j => exact .withJob fun _ => .of_eq rfl rfl
  | _ => exact .of_eq rfl rfl

theorem logs_next {a : Action} (enabled : s.Enabled a) :
    Grows (fun before after : InboundConn => before.log <+: after.log) s.conns (s.next a).conns := by
  intro c conn found
  have inside : s.faces[c]? = some conn.face := by simp [faces, found]
  have later (face : String × List Read × List Nat) (there : (s.next a).faces[c]? = some face)
      (grown : conn.log <+: face.2.1) : ∃ after, (s.next a).conns[c]? = some after ∧ conn.log <+: after.log := by
    obtain ⟨after, listens, rfl⟩ := Option.map_eq_some_iff.mp ((List.getElem?_map ..).symm.trans there)
    exact ⟨after, listens, grown⟩
  by_cases reads : ∃ e, a = .read c e
  · obtain ⟨e, rfl⟩ := reads
    obtain ⟨entry, ids, jobs, _, conns, _⟩ := read_enters found e
    refine later (conn.face.1, conn.face.2.1 ++ [entry], conn.face.2.2 ++ ids) ?_ (List.prefix_append ..)
    show ((s.read c e).conns.map InboundConn.face)[c]? = _
    rw [conns]
    exact lookup_modify_self inside
  · have same := (faces_next enabled (fun e is => reads ⟨e, is⟩) (lookup_lt inside)).1
    exact later conn.face (same.trans inside) List.prefix_rfl

def Reported (s : Inbound) (j : Nat) : Prop := ∃ notice ∈ s.notices, notice.reports j = true

instance (s : Inbound) (j : Nat) : Decidable (s.Reported j) := by
  unfold Reported
  infer_instance

def Concluded (s : Inbound) : Read → Prop
  | .request j => j ∈ s.received ∨ s.Reported j
  | _ => False

instance (s : Inbound) (entry : Read) : Decidable (s.Concluded entry) := by
  cases entry <;> unfold Concluded <;> infer_instance

theorem Concluded.mono {entry : Read} (concluded : s.Concluded entry) (kept : Kept s t) : t.Concluded entry := by
  cases entry with
  | request j =>
    rcases concluded with admitted | ⟨notice, member, reports⟩
    · exact .inl (kept.received admitted)
    · exact .inr ⟨notice, kept.notices member, reports⟩
  | barrier b => cases concluded
  | other => cases concluded

end Inbound

structure Link.Later (before after : Link) : Prop where
  node : after.node = before.node
  conn : after.conn = before.conn
  items : before.peer.items <+: after.peer.items
  accepted : before.peer.accepted <+: after.peer.accepted
  written : before.peer.written <+: after.peer.written
  reports : before.peer.reports <+: after.peer.reports

theorem Link.later_refl (link : Link) : link.Later link :=
  ⟨rfl, rfl, List.prefix_rfl, List.prefix_rfl, List.prefix_rfl, List.prefix_rfl⟩

structure Inbound.Later (before after : Inbound) : Prop where
  kept : before.Kept after
  logs : Grows (fun before after : InboundConn => before.log <+: after.log) before.conns after.conns

theorem Inbound.later_refl (s : Inbound) : s.Later s := 
  ⟨.of_eq rfl rfl, fun _ conn found => ⟨conn, found, List.prefix_rfl⟩⟩

namespace Network

variable {s t : Network} {k i : Nat}

structure Later (s t : Network) : Prop where
  links : Grows Link.Later s.links t.links
  nodes : Grows Inbound.Later s.nodes t.nodes

theorem later_refl (s : Network) : Later s s := ⟨.refl Link.later_refl _, .refl Inbound.later_refl _⟩

theorem nodes_later {r : Nat} {a : Inbound.Action} (enabled : At s.nodes r fun node => node.Enabled a) :
    Grows Inbound.Later s.nodes (s.nodes.modify r fun node => node.next a) :=
  .modify Inbound.later_refl r fun node found => ⟨Inbound.kept_next node a, Inbound.logs_next (enabled.here found)⟩

theorem later_next {a : Action} (enabled : s.Enabled a) : Later s (s.next a) := by
  cases a with
  | connect r c =>
    obtain ⟨node, found, _⟩ := at_iff.mp enabled
    exact ⟨.append Link.later_refl _, nodes_later (a := .accept s.nodeID) (at_iff.mpr ⟨node, found, trivial⟩)⟩
  | peer k a =>
    refine ⟨.modify Link.later_refl k fun link _ => ?_, .refl Inbound.later_refl _⟩
    obtain ⟨written, items⟩ := Peer.later_next link.peer a
    obtain ⟨accepted, reports⟩ := Peer.histories_next link.peer a
    exact ⟨rfl, rfl, items, accepted, written, reports⟩
  | read k e =>
    obtain ⟨link, found, rest⟩ := at_iff.mp enabled
    obtain ⟨node, there, _, allowed⟩ := at_iff.mp rest
    simp only [next, found]
    exact ⟨.refl Link.later_refl _, nodes_later (at_iff.mpr ⟨node, there, allowed⟩)⟩
  | node r a => exact ⟨.refl Link.later_refl _, nodes_later enabled.1⟩

/-- The notification that the call `i` of `enqueue` put on the peer was reported by the peer, or the far end has read
it and admitted or reported it. -/
def Settled (s : Network) (k i : Nat) : Prop :=
  At s.links k fun link => i ∈ link.peer.reports ∨
    At s.nodes link.node fun far => At far.conns link.conn fun conn =>
      ∃ n < link.peer.written.length, link.peer.written[n]? = some (.item i) ∧ At conn.log n far.Concluded

instance (s : Network) (k i : Nat) : Decidable (s.Settled k i) := by
  unfold Settled
  infer_instance

theorem Settled.mono (settled : s.Settled k i) (later : Later s t) : t.Settled k i := by
  refine later.links.at_mono settled fun link after grown known => ?_
  rcases known with reported | known
  · exact .inl (grown.reports.subset reported)
  · refine .inr ?_
    rw [grown.node, grown.conn]
    refine later.nodes.at_mono known fun far later kept known => ?_
    refine kept.logs.at_mono known fun conn after log known => ?_
    obtain ⟨n, _, written, concluded⟩ := known
    obtain ⟨entry, logged, concluded⟩ := at_iff.mp concluded
    have still := lookup_prefix grown.written written
    exact ⟨n, lookup_lt still, still, at_iff.mpr ⟨entry, lookup_prefix log logged, concluded.mono kept.kept⟩⟩

def Behind (accepted : List Nat) (i k : Nat) : Prop := i ∈ accepted ∧ (k ∈ accepted → Precedes accepted i k)

theorem Behind.mono {early late : List Nat} {i k : Nat} (behind : Behind early i k) (grown : early <+: late) :
    Behind late i k := by
  obtain ⟨rest, rfl⟩ := grown
  refine ⟨List.mem_append_left _ behind.1, fun member => ?_⟩
  rcases List.mem_append.mp member with old | fresh
  · exact (behind.2 old).trans (List.sublist_append_left ..)
  · exact List.Sublist.append (List.singleton_sublist.mpr behind.1) (List.singleton_sublist.mpr fresh)

section Pong

variable {link : Link} {far : Inbound} {conn : InboundConn} {nodeID : String}

theorem Sound.ping_of_pong (sound : Sound s) (found : s.links[k]? = some link)
    (there : s.nodes[link.node]? = some far) (listens : far.conns[link.conn]? = some conn) {id : Nat}
    (ponged : ⟨id, admissionBarrierProtocol⟩ ∈ conn.pongs) :
    ∃ (b : Nat) (bar : Barrier) (n p : Nat), conn.barriers[b]? = some bar ∧ bar.answered = true ∧ conn.log[n]? = some (.barrier b) ∧
      link.peer.written[n]? = some (.item p) ∧
      At link.peer.calls p fun call => call.item.message.kind = .ping ∧ call.item.message.requestID = id := by
  obtain ⟨setup, reach⟩ := sound.nodes _ far there
  obtain ⟨bar, member, number, answered⟩ := Inbound.ponged_reachable reach _ conn listens id ponged
  obtain ⟨b, inside⟩ := List.mem_iff_getElem?.mp member
  have line : far.core.lines[link.conn]? = some conn.line := by simp [Inbound.core, listens]
  have tail := (Admission.outcome_reachable (Inbound.core_initial ▸ Inbound.reachable_core reach)).tails _ _ line
  obtain ⟨n, logged⟩ := List.mem_iff_getElem?.mp (tail.barriers b (lookup_lt inside))
  obtain ⟨other, also, joined⟩ := sound.joined found there
  obtain rfl : conn = other := Option.some.inj (listens.symm.trans also)
  obtain ⟨frame, written, ping, protocol, asked⟩ := joined.matched n (.barrier b) logged
  have linked := sound.links k link found
  obtain ⟨p, rfl⟩ := linked.tame.item (List.mem_of_getElem? written) (.inr (.inr ⟨protocol, ping⟩))
  obtain ⟨call, known, _⟩ := at_iff.mp ((Peer.sound_reachable linked.peer).sent_known written)
  refine ⟨b, bar, n, p, inside, answered, logged, written, at_iff.mpr ⟨call, known, ?_⟩⟩
  simp only [Peer.envelope, known] at ping asked
  have same : conn.face.2.2[b]? = some bar.requestID := by simp [InboundConn.face, inside]
  exact ⟨ping, (Option.some.inj (same.symm.trans asked)).symm.trans number⟩

/-- A notification that was enqueued before a barrier's PING is settled when the PONG comes. -/
theorem Sound.settled_of_pong (sound : Sound s) (found : s.links[k]? = some link) {p id : Nat}
    (answered : At s.nodes link.node fun far => At far.conns link.conn fun conn =>
      ⟨id, admissionBarrierProtocol⟩ ∈ conn.pongs)
    (alone : ∀ q, (At link.peer.calls q fun call => call.item.message.kind = .ping ∧ call.item.message.requestID = id) →
      q = p)
    (behind : Behind link.peer.accepted i p)
    (sends : At link.peer.calls i fun call => call.item.message.kind = .send ∧
      call.item.message.version = protocolVersion ∧ call.item.message.sourceNode = s.nodeID) : s.Settled k i := by
  obtain ⟨far, there, known⟩ := at_iff.mp answered
  obtain ⟨conn, listens, ponged⟩ := at_iff.mp known
  obtain ⟨b, bar, n, q, inside, done, logged, written, ping⟩ := sound.ping_of_pong found there listens ponged
  obtain rfl := alone q ping
  have linked := sound.links k link found
  have accepted : q ∈ link.peer.accepted :=
    (Peer.sent_starts linked.peer).subset (List.mem_filterMap.mpr ⟨_, List.mem_of_getElem? written, rfl⟩)
  -- The notification was written before the PING, so the far end has read it before.
  obtain ⟨m, less, earlier⟩ := Peer.written_before linked.peer (behind.2 accepted) written
  obtain ⟨entry, entered⟩ : ∃ entry, conn.log[m]? = some entry :=
    ⟨_, List.getElem?_eq_getElem (less.trans (lookup_lt logged))⟩
  obtain ⟨other, also, joined⟩ := sound.joined found there
  obtain rfl : conn = other := Option.some.inj (listens.symm.trans also)
  obtain ⟨frame, there', matched⟩ := joined.matched m entry entered
  obtain rfl := Option.some.inj (earlier.symm.trans there')
  obtain ⟨call, asked, kind, version, source⟩ := at_iff.mp sends
  simp only [Peer.envelope, asked] at matched
  obtain ⟨j, rfl⟩ : ∃ j, entry = .request j := by
    cases entry with
    | request j => exact ⟨j, rfl⟩
    | barrier b => exact absurd (matched.1.symm.trans kind) (by simp)
    | other => exact absurd ⟨version, source.trans joined.remote.symm, .inr kind⟩ matched
  -- What comes before an answered barrier was admitted or made known, and of a notification a report is made.
  obtain ⟨setup, reach⟩ := sound.nodes _ far there
  have line : far.core.lines[link.conn]? = some conn.line := by simp [Inbound.core, listens]
  have outcome := Admission.answered_outcome (Inbound.core_initial ▸ Inbound.reachable_core reach) line
    (show conn.line.barriers[b]? = some bar from inside) done (j := j) (precedes_iff.mpr ⟨m, n, less, entered, logged⟩)
  refine at_iff.mpr ⟨link, found, .inr (at_iff.mpr ⟨far, there, at_iff.mpr ⟨conn, listens, m, lookup_lt earlier, earlier,
    at_iff.mpr ⟨.request j, entered, ?_⟩⟩⟩)⟩
  rcases outcome with admitted | told
  · exact .inl admitted
  · obtain ⟨notice, member, rfl⟩ := List.mem_map.mp told
    refine .inr ⟨notice, member, ?_⟩
    rcases (Inbound.told_reachable reach).notices notice member with ⟨error, report⟩ | answers
    · rw [report]
      simp [Notice.reports, Notice.job]
    · obtain ⟨job, issued, other⟩ := at_iff.mp answers
      have face : far.jobFaces[notice.job]? = some job.face := by simp [Inbound.jobFaces, issued]
      have same : job.envelope = call.item.message := matched.2.here face
      exact absurd (same ▸ kind) other

end Pong

end Network

end Skygo.Transport
