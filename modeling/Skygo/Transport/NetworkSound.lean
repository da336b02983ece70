import Skygo.Transport.Network
import Skygo.Transport.PeerWritten

/-! What the far end of a link has read is what the peer has written, entry by entry. -/

set_option autoImplicit false

namespace Skygo.Transport

open Semantics
open scoped List

namespace Peer

variable {p : Peer Envelope} {a : Action Envelope} {nodeID : String}

def Quiet (e : Envelope) : Prop := e.kind = .cancel ∨ e.kind = .pong

structure Tame (p : Peer Envelope) : Prop where
  queued : ∀ message ∈ p.control, Quiet message
  writing : ∀ message early, p.loop = .writing (.control message) early → Quiet message
  written : ∀ message, .control message ∈ p.written → Quiet message

theorem Tame.kept {later : Peer Envelope} (tame : p.Tame) (control : later.control = p.control)
    (loop : ∀ message early, later.loop = .writing (.control message) early → p.loop = .writing (.control message) early)
    (written : later.written = p.written) : later.Tame where
  queued := by rw [control]; exact tame.queued
  writing message early writing := tame.writing message early (loop message early writing)
  written := by rw [written]; exact tame.written

theorem tame_next (tame : p.Tame) (controls : Network.controls a = true) : (p.next a).Tame := by
  cases a with
  | enqueueControl message =>
    refine ⟨fun other member => ?_, tame.writing, tame.written⟩
    rcases List.mem_append.mp member with old | last
    · exact tame.queued other old
    · obtain rfl := List.mem_singleton.mp last
      simpa [Network.controls, Quiet] using controls
  | takeControl =>
    dsimp only [next]
    split
    · next message rest queue =>
      refine ⟨fun other member => tame.queued other (queue ▸ List.mem_cons_of_mem _ member), ?_, tame.written⟩
      intro other early writing
      cases writing
      exact tame.queued message (queue ▸ List.mem_cons_self)
    · exact tame
  | written =>
    dsimp only [next]
    split
    · next frame early writing =>
      refine ⟨tame.queued, fun message first writing => ?_, fun message member => ?_⟩
      · simp only at writing
        split at writing <;> cases writing
      · rcases List.mem_append.mp member with old | last
        · exact tame.written message old
        · obtain rfl := List.mem_singleton.mp last
          exact tame.writing message early writing
    · exact tame
  | takeSend =>
    dsimp only [next]
    split
    · exact tame.kept rfl (fun _ _ writing => by cases writing) rfl
    · exact tame
  | failed =>
    dsimp only [next]
    split
    · exact tame.kept rfl (fun _ _ writing => by cases writing) rfl
    · exact tame
  | report =>
    dsimp only [next]
    unfold Peer.reportSendFailure
    split
    · split <;> exact tame.kept rfl (fun _ _ writing => by cases writing) rfl
    · exact tame.kept rfl (fun _ _ writing => by cases writing) rfl
  | drainReport =>
    dsimp only [next]
    unfold Peer.reportSendFailure
    split
    · split <;> exact tame.kept rfl (fun _ _ writing => writing) rfl
    · exact tame
  | drainOne =>
    dsimp only [next]
    split
    · exact tame.kept rfl (fun _ _ writing => writing) rfl
    · exact tame
  | beginEnqueue i =>
    dsimp only [next]
    split <;> exact tame.kept rfl (fun _ _ writing => writing) rfl
  | noControl | tick | idle | seeDone | loopClosed => exact tame.kept rfl (fun _ _ writing => by cases writing) rfl
  | _ => exact tame.kept rfl (fun _ _ writing => writing) rfl

theorem Tame.item {frame : Frame Envelope} (tame : p.Tame) (written : frame ∈ p.written)
    (loud : (p.envelope nodeID frame).kind = .call ∨ (p.envelope nodeID frame).kind = .send ∨
      (p.envelope nodeID frame).protocol = admissionBarrierProtocol ∧ (p.envelope nodeID frame).kind = .ping) :
    ∃ i, frame = .item i := by
  cases frame with
  | item i => exact ⟨i, rfl⟩
  | control message =>
    have quiet := tame.written message written
    simp only [Peer.envelope] at loud
    rcases quiet with cancel | pong
    · simp [cancel] at loud
    · simp [pong] at loud
  | ping =>
    simp only [Peer.envelope] at loud
    simp [admissionBarrierProtocol] at loud

theorem envelope_next (sound : p.Sound) {frame : Frame Envelope} (written : frame ∈ p.written) :
    (p.next a).envelope nodeID frame = p.envelope nodeID frame := by
  cases frame with
  | item i =>
    obtain ⟨n, there⟩ := List.mem_iff_getElem?.mp written
    obtain ⟨call, found, _⟩ := at_iff.mp (sound.sent_known there)
    have item : p.items[i]? = some call.item := by simp [items, found]
    have later := lookup_prefix (later_next p a).2 item
    obtain ⟨same, there, kept⟩ := Option.map_eq_some_iff.mp ((List.getElem?_map ..).symm.trans later)
    simp [envelope, found, there, kept]
  | control message => rfl
  | ping => rfl

end Peer

def Read.Matches (jobs : List (Nat × Envelope)) (face : String × List Read × List Nat) (e : Envelope) : Read → Prop
  | .request j => (e.kind = .call ∨ e.kind = .send) ∧ At jobs j fun job => job.2 = e
  | .barrier b => e.kind = .ping ∧ e.protocol = admissionBarrierProtocol ∧ face.2.2[b]? = some e.requestID
  | .other => ¬ (e.version = protocolVersion ∧ e.sourceNode = face.1 ∧ (e.kind = .call ∨ e.kind = .send))

theorem Read.Matches.mono {jobs more : List (Nat × Envelope)} {face later : String × List Read × List Nat} {e : Envelope}
    {entry : Read} (matched : entry.Matches jobs face e) (joins : jobs <+: more) (remote : later.1 = face.1)
    (ids : face.2.2 <+: later.2.2) : entry.Matches more later e := by
  cases entry with
  | request j =>
    obtain ⟨loud, known⟩ := matched
    obtain ⟨job, found, same⟩ := at_iff.mp known
    exact ⟨loud, at_iff.mpr ⟨job, lookup_prefix joins found, same⟩⟩
  | barrier b => exact ⟨matched.1, matched.2.1, lookup_prefix ids matched.2.2⟩
  | other =>
    simp only [Read.Matches, remote]
    exact matched

structure Joined (nodeID : String) (p : Peer Envelope) (jobs : List (Nat × Envelope))
    (face : String × List Read × List Nat) : Prop where
  remote : face.1 = nodeID
  matched : ∀ (n : Nat) (entry : Read), face.2.1[n]? = some entry →
    ∃ frame, p.written[n]? = some frame ∧ entry.Matches jobs face (p.envelope nodeID frame)

namespace Joined

variable {nodeID : String} {p : Peer Envelope} {a : Peer.Action Envelope} {jobs more : List (Nat × Envelope)}
  {face later : String × List Read × List Nat}

theorem next (joined : Joined nodeID p jobs face) (sound : p.Sound) : Joined nodeID (p.next a) jobs face := by
  refine ⟨joined.remote, fun n entry found => ?_⟩
  obtain ⟨frame, written, matched⟩ := joined.matched n entry found
  refine ⟨frame, lookup_prefix (Peer.later_next p a).1 written, ?_⟩
  rw [Peer.envelope_next sound (List.mem_of_getElem? written)]
  exact matched

theorem grow (joined : Joined nodeID p jobs face) (joins : jobs <+: more) : Joined nodeID p more face := by
  refine ⟨joined.remote, fun n entry found => ?_⟩
  obtain ⟨frame, written, matched⟩ := joined.matched n entry found
  exact ⟨frame, written, matched.mono joins rfl List.prefix_rfl⟩

theorem read (joined : Joined nodeID p jobs face) {frame : Frame Envelope} {entry : Read} {ids : List Nat}
    (written : p.written[face.2.1.length]? = some frame) (joins : jobs <+: more)
    (matched : entry.Matches more (face.1, face.2.1 ++ [entry], face.2.2 ++ ids) (p.envelope nodeID frame)) :
    Joined nodeID p more (face.1, face.2.1 ++ [entry], face.2.2 ++ ids) := by
  refine ⟨joined.remote, fun n known found => ?_⟩
  rcases lookup_append found with old | ⟨rfl, rfl⟩
  · obtain ⟨frame, written, matched⟩ := joined.matched n known old
    exact ⟨frame, written, matched.mono joins rfl (List.prefix_append ..)⟩
  · exact ⟨frame, written, matched⟩

end Joined

namespace Inbound

variable {s : Inbound} {c : Nat}

def faces (s : Inbound) : List (String × List Read × List Nat) := s.conns.map InboundConn.face

def jobFaces (s : Inbound) : List (Nat × Envelope) := s.jobs.map InboundJob.face

theorem faces_next {a : Action} (enabled : s.Enabled a) (apart : ∀ e, a ≠ .read c e) (known : c < s.faces.length) :
    (s.next a).faces[c]? = s.faces[c]? ∧ s.jobFaces <+: (s.next a).jobFaces := by
  refine ⟨?_, jobs_grow enabled⟩
  by_cases accepts : ∃ node, a = .accept node
  · obtain ⟨node, rfl⟩ := accepts
    simp only [next, faces, List.map_append]
    exact List.getElem?_append_left known
  · by_cases reads : ∃ d e, a = .read d e
    · obtain ⟨d, e, rfl⟩ := reads
      obtain ⟨conn, found, _⟩ := at_iff.mp enabled
      obtain ⟨entry, ids, jobs, _, conns, _⟩ := read_enters found e
      have other : d ≠ c := by
        rintro rfl
        exact apart e rfl
      simp only [next, faces, conns]
      exact List.getElem?_modify_ne _ _ other
    · have same : Same s (s.next a) := same_next (fun node is => accepts ⟨node, is⟩) fun d e is => reads ⟨d, e, is⟩
      rw [faces, same.conns, faces]

end Inbound

namespace Network

variable {s : Network} {a : Action} {k r : Nat}

structure Linked (s : Network) (link : Link) : Prop where
  peer : Peer.machine.Reachable { sendQueue := s.sendQueue } link.peer
  tame : link.peer.Tame
  joined : At s.nodes link.node fun node => At node.faces link.conn fun face =>
    Joined s.nodeID link.peer node.jobFaces face

structure Sound (s : Network) : Prop where
  links : ∀ (k : Nat) (link : Link), s.links[k]? = some link → Linked s link
  apart : ∀ (k l : Nat) (link other : Link), s.links[k]? = some link → s.links[l]? = some other →
    link.node = other.node → link.conn = other.conn → k = l
  nodes : ∀ (r : Nat) (node : Inbound), s.nodes[r]? = some node →
    ∃ setup : Setup, Inbound.machine.Reachable setup.start node

theorem Linked.setNode {link : Link} (linked : Linked s link) {f : Inbound → Inbound}
    (keeps : ∀ node, s.nodes[r]? = some node → link.node = r → link.conn < node.faces.length →
      (f node).faces[link.conn]? = node.faces[link.conn]? ∧ node.jobFaces <+: (f node).jobFaces) :
    Linked (s.setNode r f) link := by
  refine ⟨linked.peer, linked.tame, ?_⟩
  obtain ⟨node, found, known⟩ := at_iff.mp linked.joined
  obtain ⟨face, there, joined⟩ := at_iff.mp known
  by_cases here : r = link.node
  · subst here
    obtain ⟨same, joins⟩ := keeps node found rfl (lookup_lt there)
    exact at_iff.mpr ⟨f node, lookup_modify_self found, at_iff.mpr ⟨face, same.trans there, joined.grow joins⟩⟩
  · refine at_iff.mpr ⟨node, ?_, at_iff.mpr ⟨face, there, joined⟩⟩
    rw [← found]
    exact List.getElem?_modify_ne _ _ here

theorem nodes_setNode (sound : Sound s) {a : Inbound.Action}
    (enabled : At s.nodes r fun node => node.Enabled a) :
    ∀ (k : Nat) (node : Inbound), (s.nodes.modify r fun node => node.next a)[k]? = some node →
      ∃ setup : Setup, Inbound.machine.Reachable setup.start node := by
  refine forall_modify (fun node found => ?_) fun k node _ found => sound.nodes k node found
  obtain ⟨setup, reach⟩ := sound.nodes r node found
  exact ⟨setup, reach.next (a := a) (enabled.here found)⟩

theorem sound_connect (sound : Sound s) {c : Nat} (enabled : s.Enabled (.connect r c)) :
    Sound (s.next (.connect r c)) := by
  obtain ⟨node, found, fresh⟩ := at_iff.mp enabled
  have accepted : At s.nodes r fun node => node.Enabled (.accept s.nodeID) := at_iff.mpr ⟨node, found, trivial⟩
  have moved (link : Link) (linked : Linked s link) : Linked (s.next (.connect r c)) link := by
    have kept := linked.setNode (r := r) (f := fun node => node.next (.accept s.nodeID)) fun node _ _ known =>
      Inbound.faces_next (a := .accept s.nodeID) trivial (fun _ => by simp) known
    exact ⟨kept.peer, kept.tame, kept.joined⟩
  refine ⟨fun k link there => ?_, fun k l link other first second same conn => ?_, nodes_setNode sound accepted⟩
  · rcases lookup_append there with old | ⟨_, rfl⟩
    · exact moved link (sound.links k link old)
    · refine ⟨.refl _, ⟨by simp, by simp, by simp⟩, ?_⟩
      refine at_iff.mpr ⟨node.next (.accept s.nodeID), lookup_modify_self found,
        at_iff.mpr ⟨(s.nodeID, [], []), ?_, rfl, by simp⟩⟩
      simp [Inbound.next, Inbound.faces, InboundConn.face, ← fresh]
  · have older (link : Link) {k : Nat} (there : s.links[k]? = some link) (on : link.node = r) : link.conn < c := by
      obtain ⟨other, known, face⟩ := at_iff.mp (sound.links k link there).joined
      obtain ⟨_, inside, _⟩ := at_iff.mp face
      obtain rfl : node = other := Option.some.inj (found.symm.trans (on ▸ known))
      have := lookup_lt inside
      simp only [Inbound.faces, List.length_map] at this
      omega
    rcases lookup_append first with early | ⟨rfl, rfl⟩
    · rcases lookup_append second with late | ⟨rfl, rfl⟩
      · exact sound.apart k l link other early late same conn
      · exact absurd conn (older link early same).ne
    · rcases lookup_append second with late | ⟨rfl, rfl⟩
      · exact absurd conn.symm (older other late same.symm).ne
      · rfl

theorem sound_peer (sound : Sound s) {a : Peer.Action Envelope} (enabled : s.Enabled (.peer k a)) :
    Sound (s.next (.peer k a)) := by
  obtain ⟨allowed, controls⟩ := enabled
  refine ⟨?_, fun l m link other first second same conn => ?_, sound.nodes⟩
  · refine forall_modify (fun link found => ?_) fun l link _ found => ?_
    · have linked := sound.links k link found
      have here := at_iff.mp linked.joined
      refine ⟨linked.peer.next (a := a) (allowed.here found), Peer.tame_next linked.tame controls, ?_⟩
      exact linked.joined.mono fun node known => known.mono fun face joined =>
        joined.next (Peer.sound_reachable linked.peer)
    · have linked := sound.links l link found
      exact ⟨linked.peer, linked.tame, linked.joined⟩
  · have old {m : Nat} {link : Link} (there : (s.next (.peer k a)).links[m]? = some link) :
        ∃ was, s.links[m]? = some was ∧ was.node = link.node ∧ was.conn = link.conn := by
      rcases lookup_modify there with ⟨rfl, was, found, rfl⟩ | ⟨_, found⟩
      · exact ⟨was, found, rfl, rfl⟩
      · exact ⟨link, found, rfl, rfl⟩
    obtain ⟨early, there, node, end_⟩ := old first
    obtain ⟨late, also, node', end'⟩ := old second
    exact sound.apart l m early late there also (by omega) (by omega)

theorem sound_read (sound : Sound s) {e : Envelope} (enabled : s.Enabled (.read k e)) : Sound (s.next (.read k e)) := by
  obtain ⟨link, found, rest⟩ := at_iff.mp enabled
  obtain ⟨node, there, frame, allowed⟩ := at_iff.mp rest
  have stepped : s.next (.read k e) = s.setNode link.node fun node => node.next (.read link.conn e) := by
    simp only [next, found]
  rw [stepped]
  refine ⟨fun l other known => ?_, sound.apart, nodes_setNode sound (at_iff.mpr ⟨node, there, allowed⟩)⟩
  by_cases here : l = k
  · subst here
    obtain rfl : link = other := Option.some.inj (found.symm.trans known)
    have linked := sound.links l link found
    obtain ⟨face, inside, joined⟩ := at_iff.mp (linked.joined.here there)
    obtain ⟨conn, listens, _⟩ := at_iff.mp allowed
    obtain ⟨entry, ids, jobs, entered, conns, joins⟩ := Inbound.read_enters listens e
    obtain rfl : conn.face = face := by
      rw [Inbound.faces, List.getElem?_map, listens] at inside
      exact Option.some.inj inside
    obtain ⟨next, written, rfl⟩ : ∃ next, link.peer.written[conn.face.2.1.length]? = some next ∧
        link.peer.envelope s.nodeID next = e := by
      simp only [nextFrame, listens] at frame
      exact Option.map_eq_some_iff.mp frame
    refine ⟨linked.peer, linked.tame, at_iff.mpr ⟨_, lookup_modify_self there,
      at_iff.mpr ⟨(conn.face.1, conn.face.2.1 ++ [entry], conn.face.2.2 ++ ids), ?_, ?_⟩⟩⟩
    · show ((node.read link.conn _).conns.map InboundConn.face)[link.conn]? = _
      rw [conns]
      exact lookup_modify_self inside
    · have grown : (node.next (.read link.conn (link.peer.envelope s.nodeID next))).jobFaces = node.jobFaces ++ jobs :=
        joins
      rw [grown]
      refine joined.read written (List.prefix_append ..) ?_
      cases entered with
      | request c loud => exact ⟨loud, at_iff.mpr ⟨(c, link.peer.envelope s.nodeID next), by simp [Inbound.jobFaces], rfl⟩⟩
      | barrier ping protocol => exact ⟨ping, protocol, by simp [InboundConn.face]⟩
      | other quiet => exact quiet
  · refine (sound.links l other known).setNode fun node' also on inside => ?_
    obtain rfl : node = node' := Option.some.inj (there.symm.trans also)
    refine Inbound.faces_next allowed (fun e same => here ?_) inside
    exact sound.apart l k other link known found on (Inbound.Action.read.inj same).1.symm

theorem sound_node (sound : Sound s) {a : Inbound.Action} (enabled : s.Enabled (.node r a)) :
    Sound (s.next (.node r a)) := by
  obtain ⟨allowed, foreign⟩ := enabled
  refine ⟨fun l link known => ?_, sound.apart, nodes_setNode sound allowed⟩
  refine (sound.links l link known).setNode fun node there on inside => ?_
  refine Inbound.faces_next (allowed.here there) (fun e same => ?_) inside
  subst same
  exact foreign link (List.mem_of_getElem? known) ⟨on, rfl⟩

theorem sound_next (sound : Sound s) (enabled : s.Enabled a) : Sound (s.next a) := by
  cases a with
  | connect r c => exact sound_connect sound enabled
  | peer k a => exact sound_peer sound enabled
  | read k e => exact sound_read sound enabled
  | node r a => exact sound_node sound enabled

theorem sound_reachable {nodeID : String} {sendQueue : Nat} {setups : List Setup}
    (reach : machine.Reachable (initial nodeID sendQueue setups) s) : Sound s := by
  refine reach.invariant ⟨fun _ _ found => by simp [initial] at found, fun _ _ _ _ found => by simp [initial] at found,
    fun r node found => ?_⟩ fun _ _ => sound_next
  obtain ⟨setup, _, rfl⟩ := Option.map_eq_some_iff.mp ((List.getElem?_map ..).symm.trans found)
  exact ⟨setup, .refl _⟩

section Order

variable {link : Link} {node : Inbound} {conn : InboundConn} {nodeID : String} {sendQueue : Nat} {setups : List Setup}

theorem Sound.joined (sound : Sound s) (found : s.links[k]? = some link) (there : s.nodes[link.node]? = some node) :
    ∃ conn, node.conns[link.conn]? = some conn ∧ Joined s.nodeID link.peer node.jobFaces conn.face := by
  obtain ⟨face, inside, joined⟩ := at_iff.mp ((sound.links k link found).joined.here there)
  obtain ⟨conn, listens, rfl⟩ := Option.map_eq_some_iff.mp ((List.getElem?_map ..).symm.trans inside)
  exact ⟨conn, listens, joined⟩

/-- The frame at place `n` of the link is the item of the call `i` of `enqueue`, and the far end made the request
`j` of it. -/
def CarriesAt (s : Network) (k i j n : Nat) : Prop :=
  At s.links k fun link => At s.nodes link.node fun node => At node.conns link.conn fun conn =>
    conn.log[n]? = some (.request j) ∧ link.peer.written[n]? = some (.item i)

instance (s : Network) (k i j n : Nat) : Decidable (s.CarriesAt k i j n) := by
  unfold CarriesAt
  infer_instance

def Carries (s : Network) (k i j : Nat) : Prop := ∃ n, s.CarriesAt k i j n

theorem CarriesAt.inside {i j n : Nat} (carries : s.CarriesAt k i j n) (found : s.links[k]? = some link)
    (there : s.nodes[link.node]? = some node) (listens : node.conns[link.conn]? = some conn) :
    conn.log[n]? = some (.request j) ∧ link.peer.written[n]? = some (.item i) := by
  unfold CarriesAt at carries
  have onLink := carries.here found
  have onNode := onLink.here there
  exact onNode.here listens

theorem Sound.carried (sound : Sound s) (found : s.links[k]? = some link) (there : s.nodes[link.node]? = some node)
    {j : Nat} (on : At node.jobs j fun job => job.conn = link.conn) :
    ∃ i, s.Carries k i j ∧ At link.peer.calls i fun call => At node.jobs j fun job =>
      job.envelope = call.item.message := by
  obtain ⟨conn, listens, joined⟩ := sound.joined found there
  obtain ⟨setup, reach⟩ := sound.nodes _ node there
  obtain ⟨n, logged⟩ := List.mem_iff_getElem?.mp ((Inbound.mem_log reach listens j).mpr on)
  obtain ⟨frame, written, loud, known⟩ := joined.matched n (.request j) logged
  have linked := sound.links k link found
  obtain ⟨i, rfl⟩ := linked.tame.item (List.mem_of_getElem? written) (loud.imp_right .inl)
  refine ⟨i, ⟨n, at_iff.mpr ⟨link, found, at_iff.mpr ⟨node, there, at_iff.mpr ⟨conn, listens, logged, written⟩⟩⟩⟩, ?_⟩
  obtain ⟨call, asked, _⟩ := at_iff.mp ((Peer.sound_reachable linked.peer).sent_known written)
  obtain ⟨job, issued, _⟩ := at_iff.mp on
  refine at_iff.mpr ⟨call, asked, at_iff.mpr ⟨job, issued, ?_⟩⟩
  have face : node.jobFaces[j]? = some job.face := by simp [Inbound.jobFaces, issued]
  have same := known.here face
  simpa [InboundJob.face, Peer.envelope, asked] using same

/-- The items of a link are written in the order in which its queue took them. -/
theorem Linked.precedes (linked : Linked s link) {i i' n n' : Nat} (less : n < n')
    (first : link.peer.written[n]? = some (.item i)) (second : link.peer.written[n']? = some (.item i')) :
    Precedes link.peer.accepted i i' := by
  have frames : Precedes link.peer.written (.item i) (.item i') := precedes_iff.mpr ⟨n, n', less, first, second⟩
  have sent : Precedes link.peer.sent i i' := frames.filterMap rfl rfl
  exact sent.trans (Peer.sent_starts linked.peer).sublist

theorem request_lt (reach : ∃ setup : Setup, Inbound.machine.Reachable setup.start node)
    {c : Nat} (listens : node.conns[c]? = some conn) {j j' n n' : Nat} (less : n < n')
    (first : conn.log[n]? = some (.request j)) (second : conn.log[n']? = some (.request j')) : j < j' := by
  obtain ⟨setup, reach⟩ := reach
  have here : node.core.lines[c]? = some conn.line := by simp [Inbound.core, listens]
  have logged := Admission.logged_reachable (Inbound.core_initial ▸ Inbound.reachable_core reach) c conn.line here
  have entries : Precedes conn.line.log (.request j) (.request j') := precedes_iff.mpr ⟨n, n', less, first, second⟩
  have numbers : Precedes (conn.line.log.filterMap Read.request?) j j' := entries.filterMap rfl rfl
  exact numbers.rel logged.increasing

/-- Messages to one address that a link took in order are admitted in that order, and no message is admitted twice.
The last part says that the far end admits nothing on the link but what was enqueued there. -/
theorem remote_admission_ordered (reach : machine.Reachable (initial nodeID sendQueue setups) s)
    (found : s.links[k]? = some link) (there : s.nodes[link.node]? = some node) :
    (∀ (i i' j j' address : Nat), Precedes link.peer.accepted i i' → s.Carries k i j → s.Carries k i' j' →
      At node.jobs j (fun job => At node.jobs j' fun other =>
        job.envelope.target.map Target.address = some address ∧
        other.envelope.target.map Target.address = some address) →
      j ∈ node.received → j' ∈ node.received → Precedes node.received j j') ∧
    (∀ i j j', s.Carries k i j → s.Carries k i j' → j = j') ∧
    (∀ i i' j, s.Carries k i j → s.Carries k i' j → i = i') ∧
    (∀ j, node.received.count j ≤ 1) ∧
    (∀ j ∈ node.received, At node.jobs j (fun job => job.conn = link.conn) →
      ∃ i, s.Carries k i j ∧ At link.peer.calls i fun call => At node.jobs j fun job =>
        job.envelope = call.item.message) := by
  have sound := sound_reachable reach
  have linked := sound.links k link found
  obtain ⟨conn, listens, joined⟩ := sound.joined found there
  obtain ⟨setup, started⟩ := sound.nodes _ node there
  have streams := Admission.streams_reachable (Inbound.core_initial ▸ Inbound.reachable_core started)
  refine ⟨?_, ?_, ?_, fun j => ?_, fun j _ on => sound.carried found there on⟩
  · rintro i i' j j' address before ⟨n, first⟩ ⟨n', second⟩ address_ admitted admitted'
    obtain ⟨entry, frame⟩ := first.inside found there listens
    obtain ⟨entry', frame'⟩ := second.inside found there listens
    obtain ⟨job, issued, rest⟩ := at_iff.mp address_
    obtain ⟨other, issued', here, here'⟩ := at_iff.mp rest
    have less : n < n' := by
      rcases Nat.lt_trichotomy n n' with less | rfl | more
      · exact less
      · obtain rfl : i = i' := by simpa [frame] using frame'
        exact absurd before (before.asymm (Peer.once_reachable linked.peer).nodup)
      · exact absurd before ((linked.precedes more frame' frame).asymm (Peer.once_reachable linked.peer).nodup)
    have own {j : Nat} (logged : Read.request j ∈ conn.log) := (Inbound.mem_log started listens j).mp logged
    refine streams.precedes admitted admitted' (request_lt ⟨setup, started⟩ listens less entry entry') ?_
    refine at_iff.mpr ⟨job.ticket node.shards.length, by simp [Inbound.core, issued],
      at_iff.mpr ⟨other.ticket node.shards.length, by simp [Inbound.core, issued'], ?_, ?_⟩⟩
    · exact ((own (List.mem_of_getElem? entry)).here issued).trans
        ((own (List.mem_of_getElem? entry')).here issued').symm
    · simp only [InboundJob.ticket, here, here']
  · rintro i j j' ⟨n, first⟩ ⟨n', second⟩
    obtain ⟨entry, frame⟩ := first.inside found there listens
    obtain ⟨entry', frame'⟩ := second.inside found there listens
    obtain rfl := Peer.written_once linked.peer frame frame'
    simpa [entry] using entry'
  · rintro i i' j ⟨n, first⟩ ⟨n', second⟩
    obtain ⟨entry, frame⟩ := first.inside found there listens
    obtain ⟨entry', frame'⟩ := second.inside found there listens
    obtain rfl : n = n' := by
      rcases Nat.lt_trichotomy n n' with less | same | more
      · exact absurd (request_lt ⟨setup, started⟩ listens less entry entry') (lt_irrefl _)
      · exact same
      · exact absurd (request_lt ⟨setup, started⟩ listens more entry' entry) (lt_irrefl _)
    simpa [frame] using frame'
  · by_cases member : j ∈ node.received
    · exact (streams.count_received member).le
    · rw [List.count_eq_zero.mpr member]
      exact Nat.zero_le _

def twoSenders : List Action :=
  let link a := Action.peer 0 a
  let node a := Action.node 0 a
  [.connect 0 0, link (.enqueue ⟨Inbound.notification 5, true⟩ false), link (.enqueue ⟨Inbound.notification 5, true⟩ true),
    link (.beginEnqueue 0), link (.beginEnqueue 1), link (.push 1), link (.push 0), link .noControl, link .takeSend,
    link .written, link .noControl, link .takeSend, link .written, .read 0 (Inbound.notification 5), node (.submit 0 0),
    node (.push 0 0), .read 0 (Inbound.notification 5), node (.submit 0 1), node (.push 0 1), node (.take 1 0),
    node (.release 1 0), node (.check 1 0), node (.acquire 1 0), node (.deliver 1 0), node (.finish 1 0),
    node (.take 1 1), node (.release 1 1), node (.check 1 1), node (.acquire 1 1), node (.deliver 1 1)]

def pair : Network := initial "a" 8 [⟨"b", "1", 2, 4, 4⟩]

theorem remote_admission_ordered_twoSenders :
    ∃ s link node, machine.run pair twoSenders = some s ∧ s.links[0]? = some link ∧ s.nodes[0]? = some node ∧
      link.peer.accepted = [1, 0] ∧ s.Carries 0 1 0 ∧ s.Carries 0 0 1 ∧ Precedes node.received 0 1 ∧
      node.received.count 0 ≤ 1 := by
  have ran : machine.run pair twoSenders = some (machine.after pair twoSenders) := Machine.run_after (by decide +kernel)
  obtain ⟨link, found, onNode, accepted⟩ : ∃ link, (machine.after pair twoSenders).links[0]? = some link ∧
      link.node = 0 ∧ link.peer.accepted = [1, 0] := at_iff.mp (by decide +kernel)
  obtain ⟨node, there, issued, admitted⟩ : ∃ node, (machine.after pair twoSenders).nodes[0]? = some node ∧
      At node.jobs 0 (fun job => At node.jobs 1 fun other =>
        job.envelope.target.map Target.address = some 5 ∧ other.envelope.target.map Target.address = some 5) ∧
      node.received = [0, 1] := at_iff.mp (by decide +kernel)
  have first : (machine.after pair twoSenders).CarriesAt 0 1 0 0 := by decide +kernel
  have second : (machine.after pair twoSenders).CarriesAt 0 0 1 1 := by decide +kernel
  obtain ⟨ordered, _, _, once, _⟩ := remote_admission_ordered ⟨twoSenders, ran⟩ found (onNode.symm ▸ there)
  refine ⟨_, link, node, ran, found, there, accepted, ⟨0, first⟩, ⟨1, second⟩, ?_, once 0⟩
  exact ordered 1 0 0 1 5 (by rw [accepted]) ⟨0, first⟩ ⟨1, second⟩ issued (by simp [admitted]) (by simp [admitted])

end Order

end Network

end Skygo.Transport
