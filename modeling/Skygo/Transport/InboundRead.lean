import Skygo.Transport.InboundSound

/-! What a connection has read: the log grows only by reading, and every entry is the reading of an
envelope.
-/

set_option autoImplicit false

attribute [-instance] instBooleanRingBool

namespace Skygo.Transport

open Semantics
open scoped List

/-- The part of a connection that only reading, the barriers' goroutines and `close` change. -/
structure Gate where
  remoteNode : String
  log : List Read
  barriers : List Barrier
  barrierPending : Bool
  pongs : List Pong
  closing : Bool
  closed : Bool

def InboundConn.gate (conn : InboundConn) : Gate where
  remoteNode := conn.remoteNode
  log := conn.log
  barriers := conn.barriers
  barrierPending := conn.barrierPending
  pongs := conn.pongs
  closing := conn.closing
  closed := conn.closed

def InboundConn.face (conn : InboundConn) : String × List Read × List Nat :=
  (conn.remoteNode, conn.log, conn.barriers.map Barrier.requestID)

theorem InboundConn.face_setBarrier (conn : InboundConn) (b : Nat) {f : Barrier → Barrier}
    (same : ∀ bar, (f bar).requestID = bar.requestID) : (conn.setBarrier b f).face = conn.face := by
  simp only [face, setBarrier]
  rw [map_modify_same fun bar _ => same bar]

def InboundJob.face (job : InboundJob) : Nat × Envelope := (job.conn, job.envelope)

namespace Inbound

variable {s t u : Inbound} {c j w : Nat}

def Action.onBarrier : Action → Bool
  | .look .. | .wake .. | .pong .. | .giveUp .. | .clear .. => true
  | _ => false

def Action.onGate : Action → Bool
  | .accept .. | .read .. | .close .. | .disconnect .. => true
  | a => a.onBarrier

structure Quiet (s t : Inbound) : Prop where
  conns : t.conns.map InboundConn.gate = s.conns.map InboundConn.gate
  jobs : t.jobs.map InboundJob.face = s.jobs.map InboundJob.face

structure Same (s t : Inbound) : Prop where
  conns : t.conns.map InboundConn.face = s.conns.map InboundConn.face
  jobs : t.jobs.map InboundJob.face = s.jobs.map InboundJob.face

theorem Same.setConn {f : InboundConn → InboundConn} (same : ∀ conn, (f conn).face = conn.face) :
    Same s (s.setConn c f) :=
  ⟨map_modify_same fun conn _ => same conn, rfl⟩

namespace Quiet

theorem was {conn : InboundConn} (quiet : Quiet s t) (found : t.conns[c]? = some conn) :
    ∃ old, s.conns[c]? = some old ∧ old.gate = conn.gate := by
  have seen : (s.conns[c]?).map InboundConn.gate = some conn.gate := by
    rw [← List.getElem?_map, ← quiet.conns, List.getElem?_map, found]
    rfl
  exact Option.map_eq_some_iff.mp seen

theorem symm (quiet : Quiet s t) : Quiet t s := ⟨quiet.conns.symm, quiet.jobs.symm⟩

theorem same (quiet : Quiet s t) : Same s t := by
  refine ⟨?_, quiet.jobs⟩
  have seen := congrArg
    (List.map fun (gate : Gate) => (gate.remoteNode, gate.log, gate.barriers.map Barrier.requestID)) quiet.conns
  rw [List.map_map, List.map_map] at seen
  exact seen

theorem cancel (s : Inbound) (j : Nat) : Quiet s (s.cancel j) := ⟨rfl, map_modify_same fun _ _ => rfl⟩

end Quiet

attribute [grind] InboundConn.gate InboundJob.face Action.onGate Action.onBarrier

theorem quiet_next {a : Action} (idle : a.onGate = false) : Quiet s (s.next a) := by
  constructor
  all_goals
    apply List.ext_getElem?
    intro i
    rw [List.getElem?_map, List.getElem?_map]
    cases a with
    | submit c j | push c j | refuse c j | reject c j | check w j | acquire w j | deliver w j | fail w j err
    | finish w j =>
      dsimp only [next, withJob, Inbound.submit, Inbound.push, Inbound.acquire, Inbound.deliver, Inbound.fail,
        Inbound.turnAway, Inbound.finishAdmission]
      repeat' split
      all_goals first | rfl | grind
    | _ => first | rfl | grind

theorem same_next {a : Action} (accepts : ∀ node, a ≠ .accept node) (reads : ∀ c e, a ≠ .read c e) :
    Same s (s.next a) := by
  cases idle : a.onGate with
  | false => exact (quiet_next idle).same
  | true =>
    cases a with
    | accept remoteNode => exact absurd rfl (accepts remoteNode)
    | read c e => exact absurd rfl (reads c e)
    | close c => exact .setConn fun _ => rfl
    | disconnect c => exact .setConn fun _ => rfl
    | look c b => exact .setConn fun conn => conn.face_setBarrier b fun _ => rfl
    | wake c b => exact .setConn fun conn => conn.face_setBarrier b fun _ => rfl
    | pong c b => exact .setConn fun conn => conn.face_setBarrier b (f := .pong) fun _ => rfl
    | giveUp c b => exact .setConn fun conn => conn.face_setBarrier b fun _ => rfl
    | clear c b => exact .setConn fun conn => conn.face_setBarrier b (f := .moveTo .done) fun _ => rfl
    | _ => cases idle

inductive Entered (s : Inbound) (conn : InboundConn) (e : Envelope) : Read → List Nat → List (Nat × Envelope) → Prop where
  | request (c : Nat) : e.kind = .call ∨ e.kind = .send →
      Entered s conn e (.request s.jobs.length) [] [(c, e)]
  | barrier : e.kind = .ping → e.protocol = admissionBarrierProtocol →
      Entered s conn e (.barrier conn.barriers.length) [e.requestID] []
  | other : ¬ (e.version = protocolVersion ∧ e.sourceNode = conn.remoteNode ∧ (e.kind = .call ∨ e.kind = .send)) →
      Entered s conn e .other [] []

/-- Reading an envelope enters it into the log of its connection, and nothing else. -/
theorem read_enters {conn : InboundConn} (found : s.conns[c]? = some conn) (e : Envelope) :
    ∃ entry ids jobs, Entered s conn e entry ids jobs ∧
      (s.read c e).conns.map InboundConn.face = (s.conns.map InboundConn.face).modify c
        (fun face => (face.1, face.2.1 ++ [entry], face.2.2 ++ ids)) ∧
      (s.read c e).jobs.map InboundJob.face = s.jobs.map InboundJob.face ++ jobs := by
  have skipped {f : InboundConn → InboundConn} {t : Inbound} (same : t.conns = s.conns)
      (skips : ∀ conn, (f conn).face = (conn.remoteNode, conn.log ++ [.other], conn.barriers.map Barrier.requestID)) :
      (t.setConn c f).conns.map InboundConn.face = (s.conns.map InboundConn.face).modify c
        (fun face => (face.1, face.2.1 ++ [.other], face.2.2 ++ [])) := by
    rw [setConn, same]
    exact map_modify fun conn _ => by rw [skips]; simp [InboundConn.face]
  have begun (place : Nat → Reader) : (s.beginAdmission c conn e place).conns.map InboundConn.face =
      (s.conns.map InboundConn.face).modify c
        (fun face => (face.1, face.2.1 ++ [.request s.jobs.length], face.2.2 ++ [])) :=
    map_modify fun conn _ => by simp [InboundConn.face]
  have joined (place : Nat → Reader) : (s.beginAdmission c conn e place).jobs.map InboundJob.face =
      s.jobs.map InboundJob.face ++ [(c, e)] := by
    simp [beginAdmission, InboundJob.face]
  simp only [read, found]
  split
  · next invalid =>
    refine ⟨.other, [], [], .other fun valid => ?_, skipped rfl fun _ => rfl, by simp [setConn]⟩
    rcases invalid with version | source
    · exact version valid.1
    · exact source valid.2.1
  · split
    · next call => exact ⟨_, [], _, .request c (.inl call), begun _, joined _⟩
    · next send => exact ⟨_, [], _, .request c (.inr send), begun _, joined _⟩
    · next cancels =>
      have quiet : Entered s conn e .other [] [] := .other fun valid => by simp [cancels] at valid
      split
      · next k _ =>
        refine ⟨.other, [], [], quiet, skipped rfl fun _ => rfl, ?_⟩
        have same := (Quiet.cancel s k).jobs
        simpa [setConn] using same
      · exact ⟨.other, [], [], quiet, skipped rfl fun _ => rfl, by simp [setConn]⟩
    · next ping =>
      have quiet : Entered s conn e .other [] [] := .other fun valid => by simp [ping] at valid
      split
      · next protocol =>
        cases pending : conn.barrierPending with
        | true =>
          refine ⟨.other, [], [], quiet, ?_, by simp [setConn]⟩
          refine map_modify fun other there => ?_
          obtain rfl : conn = other := Option.some.inj (found.symm.trans there)
          simp [InboundConn.barrier, pending, InboundConn.face]
        | false =>
          refine ⟨_, _, [], .barrier ping protocol, ?_, by simp [setConn]⟩
          refine map_modify fun other there => ?_
          obtain rfl : conn = other := Option.some.inj (found.symm.trans there)
          simp [InboundConn.barrier, pending, InboundConn.face]
      · exact ⟨.other, [], [], quiet, skipped rfl fun _ => rfl, by simp [setConn]⟩
    · next calls sends _ _ =>
      refine ⟨.other, [], [], .other fun valid => ?_, skipped rfl fun _ => rfl, by simp [setConn]⟩
      rcases valid.2.2 with call | send
      · exact calls call
      · exact sends send

theorem jobs_grow {a : Action} (enabled : s.Enabled a) :
    s.jobs.map InboundJob.face <+: (s.next a).jobs.map InboundJob.face := by
  by_cases reads : ∃ c e, a = .read c e
  · obtain ⟨c, e, rfl⟩ := reads
    obtain ⟨conn, found, _⟩ := at_iff.mp enabled
    obtain ⟨_, _, jobs, _, _, joined⟩ := read_enters found e
    exact joined ▸ List.prefix_append ..
  · by_cases accepts : ∃ node, a = .accept node
    · obtain ⟨node, rfl⟩ := accepts
      exact List.prefix_rfl
    · have same : Same s (s.next a) := same_next (fun node is => accepts ⟨node, is⟩) fun c e is => reads ⟨c, e, is⟩
      exact same.jobs ▸ List.prefix_rfl

end Inbound

end Skygo.Transport
