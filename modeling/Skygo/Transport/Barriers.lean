import Skygo.Transport.InboundRead

/-! One admission barrier after another on a connection.

A barrier holds `barrierPending` until the deferred statement of its goroutine clears it, and that
runs after the PONG was written. A client that has its PONG may still find the flag set.
-/

set_option autoImplicit false

namespace Skygo.Transport

open Semantics

def Barrier.unsettled (bar : Barrier) : Bool := bar.place ≠ .done

namespace InboundConn

def Asks (conn : InboundConn) (e : Envelope) : Prop :=
  e.version = protocolVersion ∧ e.sourceNode = conn.remoteNode ∧ e.kind = .ping ∧
    e.protocol = admissionBarrierProtocol

instance (conn : InboundConn) (e : Envelope) : Decidable (conn.Asks e) :=
  inferInstanceAs (Decidable (_ ∧ _))

def Refused (conn : InboundConn) : Prop := ∃ pong ∈ conn.pongs, pong.protocol = "barrier_busy"

instance (conn : InboundConn) : Decidable conn.Refused :=
  inferInstanceAs (Decidable (∃ pong ∈ conn.pongs, pong.protocol = "barrier_busy"))

/-- `barrierPending` counts the barriers that are not settled. -/
def Gated (conn : InboundConn) : Prop := conn.barriers.countP Barrier.unsettled = conn.barrierPending.toNat

variable {conn : InboundConn}

theorem Gated.settled (gated : conn.Gated) :
    conn.barrierPending = false ↔ ∀ bar ∈ conn.barriers, bar.place = .done := by
  have counted : conn.barrierPending = false ↔ conn.barriers.countP Barrier.unsettled = 0 := by
    rw [gated]
    cases conn.barrierPending <;> simp
  rw [counted, List.countP_eq_zero]
  simp [Barrier.unsettled]

theorem Gated.setBarrier {b : Nat} {f : Barrier → Barrier} {bar : Barrier} (gated : conn.Gated)
    (found : conn.barriers[b]? = some bar) (before : bar.place ≠ .done) (after : (f bar).place ≠ .done) :
    (conn.setBarrier b f).Gated := by
  have counted := countP_modify (p := Barrier.unsettled) (f := f) found
  simp only [Barrier.unsettled, before, after, ne_eq, not_false_eq_true, decide_true] at counted
  exact (Nat.add_right_cancel counted).trans gated

theorem Gated.clear {b : Nat} {bar : Barrier} (gated : conn.Gated) (found : conn.barriers[b]? = some bar)
    (before : bar.place ≠ .done) :
    InboundConn.Gated { conn.setBarrier b (.moveTo .done) with barrierPending := false } := by
  have counted := countP_modify (p := Barrier.unsettled) (f := .moveTo .done) found
  have held : conn.barriers.countP Barrier.unsettled ≤ 1 := gated ▸ Bool.toNat_le conn.barrierPending
  have was : bar.unsettled = true := by simpa [Barrier.unsettled] using before
  rw [was] at counted
  show (conn.barriers.modify b (.moveTo .done)).countP Barrier.unsettled = 0
  simp only [Barrier.unsettled, Barrier.moveTo, ne_eq, not_true_eq_false, decide_false, Bool.toNat_true,
    Bool.toNat_false] at counted
  omega

theorem Gated.barrier (gated : conn.Gated) (e : Envelope) : (conn.barrier e).Gated := by
  cases pending : conn.barrierPending with
  | true =>
    rw [InboundConn.barrier, if_pos pending]
    exact gated
  | false =>
    have none : conn.barriers.countP Barrier.unsettled = 0 := by rw [gated, pending]; rfl
    simp [InboundConn.barrier, pending, Gated, none, Barrier.unsettled]

theorem refused_barrier (e : Envelope) :
    (conn.barrier e).Refused ↔ conn.Refused ∨ conn.barrierPending = true := by
  cases pending : conn.barrierPending with
  | true => simp [InboundConn.barrier, pending, Refused, or_and_right, exists_or]
  | false => simp [InboundConn.barrier, pending, Refused]

end InboundConn

namespace Inbound

variable {s t : Inbound} {c : Nat}

def Gated (s : Inbound) : Prop := ∀ (c : Nat) (conn : InboundConn), s.conns[c]? = some conn → conn.Gated

def Refused (s : Inbound) : Prop := ∃ (c : Nat) (conn : InboundConn), s.conns[c]? = some conn ∧ conn.Refused

structure Calm (s t : Inbound) : Prop where
  gated : s.Gated → t.Gated
  refused : t.Refused ↔ s.Refused

section

variable {conn : InboundConn} (found : s.conns[c]? = some conn)
include found

theorem refused_modify {f : InboundConn → InboundConn} (conns : t.conns = s.conns.modify c f) :
    t.Refused ↔ (f conn).Refused ∨ ∃ (d : Nat) (other : InboundConn), d ≠ c ∧ s.conns[d]? = some other ∧ other.Refused := by
  constructor
  · rintro ⟨d, other, there, refused⟩
    rw [conns] at there
    rcases lookup_modify there with ⟨rfl, old, was, rfl⟩ | ⟨apart, was⟩
    · obtain rfl : conn = old := Option.some.inj (found.symm.trans was)
      exact .inl refused
    · exact .inr ⟨d, other, apart, was, refused⟩
  · rintro (refused | ⟨d, other, apart, there, refused⟩)
    · exact ⟨c, f conn, by rw [conns, lookup_modify_self found], refused⟩
    · exact ⟨d, other, by rw [conns, List.getElem?_modify_ne _ _ (Ne.symm apart), there], refused⟩

theorem refused_at :
    s.Refused ↔ conn.Refused ∨ ∃ (d : Nat) (other : InboundConn), d ≠ c ∧ s.conns[d]? = some other ∧ other.Refused := by
  exact refused_modify (f := id) found (by simp [List.modify_id])

theorem Calm.modify {f : InboundConn → InboundConn}
    (conns : t.conns = s.conns.modify c f) (gated : conn.Gated → (f conn).Gated)
    (refused : (f conn).Refused ↔ conn.Refused) : Calm s t where
  gated known := by
    rw [Gated, conns]
    exact forall_modify_at found (gated (known c conn found)) fun d other _ there => known d other there
  refused := by rw [refused_modify found conns, refused_at found, refused]

end

theorem Quiet.refused (quiet : Quiet s t) (refused : t.Refused) : s.Refused := by
  obtain ⟨d, conn, found, pong, sent, busy⟩ := refused
  obtain ⟨old, was, same⟩ := quiet.was found
  have pongs : old.pongs = conn.pongs := congrArg Gate.pongs same
  exact ⟨d, old, was, pong, pongs ▸ sent, busy⟩

theorem Quiet.calm (quiet : Quiet s t) : Calm s t := by
  refine ⟨fun known d conn found => ?_, quiet.refused, quiet.symm.refused⟩
  obtain ⟨old, was, same⟩ := quiet.was found
  have barriers : old.barriers = conn.barriers := congrArg Gate.barriers same
  have pending : old.barrierPending = conn.barrierPending := congrArg Gate.barrierPending same
  have gated := known d old was
  rwa [InboundConn.Gated, barriers, pending] at gated

def AsksBarrier (s : Inbound) : Action → Prop
  | .read c e => At s.conns c fun conn => conn.Asks e
  | _ => False

variable {a : Action}

theorem calm_barrier (moves : a.onBarrier = true) (enabled : s.Enabled a) : Calm s (s.next a) := by
  have moved {c b : Nat} {p : InboundConn → Barrier → Prop} {f : InboundConn → InboundConn}
      (at_ : s.AtBarrier c b p)
      (gated : ∀ conn bar, conn.barriers[b]? = some bar → p conn bar → conn.Gated → (f conn).Gated)
      (pongs : ∀ conn, ∃ more, (f conn).pongs = conn.pongs ++ more ∧ ∀ pong ∈ more, pong.protocol ≠ "barrier_busy") :
      Calm s (s.setConn c f) := by
    obtain ⟨conn, found, known⟩ := at_iff.mp at_
    obtain ⟨bar, there, holds⟩ := at_iff.mp known
    refine .modify found rfl (gated conn bar there holds) ?_
    obtain ⟨more, grown, others⟩ := pongs conn
    simp only [InboundConn.Refused, grown, List.mem_append, or_and_right, exists_or, or_iff_left_iff_imp]
    rintro ⟨pong, sent, busy⟩
    exact absurd busy (others pong sent)
  cases a with
  | look c b =>
    refine moved enabled (fun conn bar there at_ gated => gated.setBarrier there (by simp [at_]) ?_) fun conn =>
      ⟨[], by simp [InboundConn.setBarrier], by simp⟩
    unfold Barrier.look
    split <;> simp
  | wake c b =>
    refine moved enabled (fun conn bar there at_ gated => gated.setBarrier there ?_ (by simp [Barrier.moveTo]))
      fun conn => ⟨[], by simp [InboundConn.setBarrier], by simp⟩
    rintro done
    simp [Barrier.woken, done] at at_
  | pong c b =>
    refine moved enabled (fun conn bar there at_ gated => ?_) fun conn => ⟨_, rfl, fun pong sent => ?_⟩
    · have kept := gated.setBarrier (f := .pong) there (by simp [at_]) (by simp [Barrier.pong])
      exact kept
    · obtain ⟨bar, _, rfl⟩ := Option.map_eq_some_iff.mp (Option.mem_toList.mp sent)
      show admissionBarrierProtocol ≠ "barrier_busy"
      decide
  | giveUp c b =>
    refine moved enabled (fun conn bar there at_ gated => gated.setBarrier there ?_ (by simp [Barrier.moveTo]))
      fun conn => ⟨[], by simp [InboundConn.setBarrier], by simp⟩
    rintro done
    simp [Barrier.waits, done] at at_
  | clear c b =>
    exact moved enabled (fun conn bar there at_ gated => gated.clear there (by simp [at_])) fun conn =>
      ⟨[], by simp [InboundConn.setBarrier], by simp⟩
  | _ => cases moves

theorem calm_read {conn : InboundConn} {e : Envelope} (found : s.conns[c]? = some conn) (other : ¬ conn.Asks e) :
    Calm s (s.read c e) := by
  have skipped {t : Inbound} {f : InboundConn → InboundConn} (conns : t.conns = s.conns.modify c f)
      (same : (f conn).barriers = conn.barriers ∧ (f conn).barrierPending = conn.barrierPending ∧
        (f conn).pongs = conn.pongs) : Calm s t := by
    refine .modify found conns (fun gated => ?_) ?_
    · rwa [InboundConn.Gated, same.1, same.2.1]
    · rw [InboundConn.Refused, same.2.2]
      exact Iff.rfl
  simp only [read, found]
  split
  · exact skipped rfl ⟨rfl, rfl, rfl⟩
  · next valid =>
    simp only [ne_eq, not_or, not_not] at valid
    split
    · exact skipped rfl ⟨rfl, rfl, rfl⟩
    · exact skipped rfl ⟨rfl, rfl, rfl⟩
    · split <;> exact skipped rfl ⟨rfl, rfl, rfl⟩
    · next ping =>
      split
      · next protocol => exact absurd ⟨valid.1, valid.2, ping, protocol⟩ other
      · refine .modify found rfl id ?_
        simp [InboundConn.Refused]
    · exact skipped rfl ⟨rfl, rfl, rfl⟩

theorem calm_next (enabled : s.Enabled a) (other : ¬ s.AsksBarrier a) : Calm s (s.next a) := by
  cases idle : a.onGate with
  | false => exact (quiet_next idle).calm
  | true =>
    cases a with
    | accept remoteNode =>
      refine ⟨fun known => forall_append known rfl, fun ⟨d, conn, found, refused⟩ => ?_,
        fun ⟨d, conn, found, refused⟩ => ⟨d, conn, lookup_append_old found, refused⟩⟩
      rcases lookup_append found with was | ⟨_, rfl⟩
      · exact ⟨d, conn, was, refused⟩
      · simp [InboundConn.Refused] at refused
    | read c e =>
      obtain ⟨conn, found, _⟩ := at_iff.mp enabled
      exact calm_read found fun asks => other (at_iff.mpr ⟨conn, found, asks⟩)
    | close c | disconnect c =>
      obtain ⟨conn, found, _⟩ := at_iff.mp enabled
      exact .modify found rfl id Iff.rfl
    | _ => exact calm_barrier idle enabled

theorem asked_next (asks : s.AsksBarrier a) :
    ∃ c e conn, a = .read c e ∧ s.conns[c]? = some conn ∧ conn.Asks e ∧
      (s.next a).conns = s.conns.modify c fun conn => conn.barrier e := by
  cases a with
  | read c e =>
    obtain ⟨conn, found, asks⟩ := at_iff.mp asks
    refine ⟨c, e, conn, rfl, found, asks, ?_⟩
    obtain ⟨version, source, ping, protocol⟩ := asks
    simp [next, read, found, version, source, ping, protocol, setConn]
  | _ => exact asks.elim

theorem gated_next (gated : s.Gated) (enabled : s.Enabled a) : (s.next a).Gated := by
  by_cases asks : s.AsksBarrier a
  · obtain ⟨c, e, conn, rfl, found, _, conns⟩ := asked_next asks
    rw [Gated, conns]
    exact forall_modify_at found ((gated c conn found).barrier e) fun d other _ there => gated d other there
  · exact (calm_next enabled asks).gated gated

def FindsPending (s : Inbound) : Action → Prop
  | .read c e => At s.conns c fun conn => conn.Asks e ∧ conn.barrierPending = true
  | _ => False

theorem refused_next (enabled : s.Enabled a) :
    (s.next a).Refused ↔ s.Refused ∨ s.FindsPending a := by
  by_cases asks : s.AsksBarrier a
  · obtain ⟨c, e, conn, rfl, found, asks, conns⟩ := asked_next asks
    have finds : s.FindsPending (.read c e) ↔ conn.barrierPending = true := by
      simp [FindsPending, At, found, asks]
    rw [refused_modify found conns, refused_at found, InboundConn.refused_barrier, finds]
    exact or_right_comm
  · have passes : ¬ s.FindsPending a := by
      cases a with
      | read c e => exact fun finds => asks (At.mono finds fun _ both => both.1)
      | _ => exact id
    rw [(calm_next enabled asks).refused]
    simp [passes]

/-- The client sends a barrier only when it has the PONGs of those before. -/
def Sequential (s : Inbound) : Action → Prop
  | .read c e => At s.conns c fun conn => conn.Asks e → ∀ bar ∈ conn.barriers, bar.answered = true
  | _ => True

/-- A barrier is read only when the goroutines that have written their PONGs have cleared the flag. -/
def Cleared (s : Inbound) : Action → Prop
  | .read c e =>
    At s.conns c fun conn => conn.Asks e → ∀ bar ∈ conn.barriers, bar.answered = true → bar.place = .done
  | _ => True

instance (s : Inbound) : DecidablePred s.Sequential := by
  intro a
  rcases a with _ | _ <;> unfold Sequential <;> infer_instance

instance (s : Inbound) : DecidablePred s.Cleared := by
  intro a
  rcases a with _ | _ <;> unfold Cleared <;> infer_instance

section Client

variable {nodeID nodeInstance : String} {shards inboundQueue maxInboundCalls : Nat} {actions : List Action}

/-- Where every earlier barrier is answered, the flag is set exactly if some answered barrier's goroutine has
not cleared it. -/
theorem finds_pending {a : Action} (gated : s.Gated) (enabled : s.Enabled a) (one : s.Sequential a) :
    s.FindsPending a ↔ ¬ s.Cleared a := by
  cases a with
  | read c e =>
    obtain ⟨conn, found, _⟩ := at_iff.mp enabled
    simp only [Sequential, FindsPending, Cleared, At, found] at one ⊢
    have settled := (gated c conn found).settled
    rw [← Bool.not_eq_false, settled]
    constructor
    · rintro ⟨asks, held⟩ cleared
      exact held fun bar known => cleared asks bar known (one asks bar known)
    · intro held
      simp only [Classical.not_imp] at held
      exact ⟨held.1, fun done => held.2 fun bar known _ => done bar known⟩
  | _ => simp [FindsPending, Cleared]

/-- A client that sends its barriers one at a time, each after the PONG of the previous one, is told
`barrier_busy` in exactly the runs where a barrier overtakes the deferred statement of an answered one. -/
theorem sequential_barriers
    (ran : machine.run (initial nodeID nodeInstance shards inboundQueue maxInboundCalls) actions = some s)
    (sequential : machine.Meets Sequential (initial nodeID nodeInstance shards inboundQueue maxInboundCalls) actions) :
    ¬ s.Refused ↔
      machine.Meets Cleared (initial nodeID nodeInstance shards inboundQueue maxInboundCalls) actions := by
  have decided := Machine.run_decides Cleared (fun s => s.Gated ∧ ¬ s.Refused) Refused
    (fun s a good one cleared enabled => ?_) (fun s a good one overtakes enabled => ?_)
    (fun s a refused _ enabled => (refused_next enabled).mpr (.inl refused)) ran sequential ⟨?_, ?_⟩
  · rcases decided with ⟨cleared, _, calm⟩ | ⟨overtaken, refused⟩
    · exact iff_of_true calm cleared
    · exact iff_of_false (not_not.mpr refused) overtaken
  · refine ⟨gated_next good.1 enabled, fun refused => ?_⟩
    rcases (refused_next enabled).mp refused with before | finds
    · exact good.2 before
    · exact (finds_pending good.1 enabled one).mp finds cleared
  · exact (refused_next enabled).mpr (.inr ((finds_pending good.1 enabled one).mpr overtakes))
  · intro c conn found
    cases found
  · rintro ⟨c, conn, found, _⟩
    cases found

end Client

def oneByOne : List Action :=
  [.accept "a", .read 0 (barrierPing 1), .look 0 0, .pong 0 0, .clear 0 0, .read 0 (barrierPing 2), .look 0 1, .pong 0 1]

theorem sequential_barriers_cleared :
    ∃ s, machine.run (initial "b" "1" 1 4 4) oneByOne = some s ∧
      machine.Meets Sequential (initial "b" "1" 1 4 4) oneByOne ∧ ¬ s.Refused := by
  have ran : machine.run (initial "b" "1" 1 4 4) oneByOne = some (machine.after (initial "b" "1" 1 4 4) oneByOne) :=
    Machine.run_after (by decide +kernel)
  have sequential : machine.Meets Sequential (initial "b" "1" 1 4 4) oneByOne := by decide +kernel
  exact ⟨_, ran, sequential, (sequential_barriers ran sequential).mpr (by decide +kernel)⟩

def overtaking : List Action :=
  [.accept "a", .read 0 (barrierPing 1), .look 0 0, .pong 0 0, .read 0 (barrierPing 2)]

/-- It is refused. -/
theorem barrier_busy_after_pong :
    ∃ s, machine.run (initial "b" "1" 1 4 4) overtaking = some s ∧
      machine.Meets Sequential (initial "b" "1" 1 4 4) overtaking ∧
      At s.conns 0 fun conn => conn.pongs = [⟨1, admissionBarrierProtocol⟩, ⟨2, "barrier_busy"⟩] :=
  ⟨_, Machine.run_after (by decide +kernel), by decide +kernel, by decide +kernel⟩

end Inbound

end Skygo.Transport
