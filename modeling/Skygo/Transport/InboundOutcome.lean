import Skygo.Transport.AdmissionOutcome
import Skygo.Transport.InboundSound

/-! What the node makes known about a notification is a report, and a PONG of a barrier is written by the barrier. -/

set_option autoImplicit false

attribute [-instance] instBooleanRingBool

namespace Skygo.Transport

open Semantics
open scoped List

namespace Inbound

variable {s t : Inbound} {c j w : Nat}

def Answers (s : Inbound) (j : Nat) : Prop := At s.jobs j fun job => job.envelope.kind ≠ .send

structure Told (s : Inbound) : Prop where
  calls : ∀ (c : Nat) (conn : InboundConn), s.conns[c]? = some conn → ∀ id j, conn.calls id = some j → s.Answers j
  storing : ∀ (c : Nat) (conn : InboundConn), s.conns[c]? = some conn → ∀ j, conn.reader = .storing j → s.Answers j
  replies : ∀ reply ∈ s.replies, s.Answers reply.job
  canceled : ∀ (j : Nat) (job : InboundJob), s.jobs[j]? = some job → job.canceled = true → job.envelope.kind ≠ .send
  notices : ∀ notice ∈ s.notices, (∃ error, notice = .report notice.job error) ∨ s.Answers notice.job

attribute [grind] Answers

section Steps

variable {a : Action}

theorem calls_cases (s : Inbound) (a : Action) (d : Nat) : ∀ conn', (s.next a).conns[d]? = some conn' →
    conn'.calls = (fun _ => none) ∨ ∃ conn, s.conns[d]? = some conn ∧ (conn'.calls = conn.calls ∨
      (∃ id, conn'.calls = Function.update conn.calls id none) ∨
      ∃ id j, a = .store d j ∧ conn'.calls = Function.update conn.calls id (some j)) := by
  cases a
  all_goals
    dsimp only [next, withJob, read, beginAdmission, submit, push, acquire, deliver, fail, turnAway, finishAdmission]
    repeat' split
  all_goals grind

theorem answers_kept (s : Inbound) (a : Action) (known : s.Answers j) : (s.next a).Answers j := by
  cases a
  all_goals
    dsimp only [next, withJob, read, beginAdmission, submit, push, acquire, deliver, fail, turnAway, finishAdmission]
    repeat' split
  all_goals first | exact known | grind

variable (told : s.Told) (enabled : s.Enabled a)
include told enabled

theorem calls_next {conn' : InboundConn} {id : Nat} (found : (s.next a).conns[c]? = some conn')
    (stored : conn'.calls id = some j) : s.Answers j := by
  have calls := told.calls
  have storing := told.storing
  obtain none | ⟨conn, was, same | ⟨id', less⟩ | ⟨id', i, rfl, more⟩⟩ := calls_cases s a c conn' found
  · simp [none] at stored
  · exact calls c conn was id j (same ▸ stored)
  · rw [less, Function.update_apply] at stored
    grind
  · rw [more, Function.update_apply] at stored
    grind

theorem storing_next : ∀ (c : Nat) (conn : InboundConn), (s.next a).conns[c]? = some conn →
    ∀ j, conn.reader = .storing j → (s.next a).Answers j := by
  have storing := told.storing
  clear told
  cases a
  all_goals
    dsimp only [next, withJob, read, beginAdmission, submit, push, acquire, deliver, fail, turnAway, finishAdmission]
    repeat' split
  all_goals first | exact storing | (intros; grind [List.getElem?_concat_length])

theorem replies_next : ∀ (r : Nat) (reply : Reply), (s.next a).replies[r]? = some reply → s.Answers reply.job := by
  have replies : ∀ (r : Nat) (reply : Reply), s.replies[r]? = some reply → s.Answers reply.job :=
    fun r reply found => told.replies reply (List.mem_of_getElem? found)
  clear told
  cases a
  all_goals
    dsimp only [next, withJob, read, beginAdmission, submit, push, acquire, deliver, fail, turnAway, finishAdmission]
    repeat' split
  all_goals first | exact replies | (intros; grind)

theorem canceled_next : ∀ (j : Nat) (job : InboundJob), (s.next a).jobs[j]? = some job → job.canceled = true →
    job.envelope.kind ≠ .send := by
  have canceled := told.canceled
  have calls := told.calls
  have replies := told.replies
  clear told
  cases a
  all_goals
    dsimp only [next, withJob, read, beginAdmission, submit, push, acquire, deliver, fail, turnAway, finishAdmission]
    repeat' split
  all_goals first | exact canceled | (intros; grind)

theorem notices_next : ∀ notice ∈ (s.next a).notices, (∃ error, notice = .report notice.job error) ∨ s.Answers notice.job := by
  have notices := told.notices
  have canceled := told.canceled
  have replies := told.replies
  clear told
  cases a
  all_goals
    dsimp only [next, withJob, read, beginAdmission, submit, push, acquire, deliver, fail, turnAway, finishAdmission]
    repeat' split
  all_goals first | exact notices | (intros; grind)

theorem told_next : (s.next a).Told where
  calls _ _ found _ j stored := answers_kept s a (calls_next told enabled found stored)
  storing := storing_next told enabled
  replies reply member := by
    obtain ⟨r, found⟩ := List.getElem?_of_mem member
    exact answers_kept s a (replies_next told enabled r reply found)
  canceled := canceled_next told enabled
  notices notice member := (notices_next told enabled notice member).imp_right (answers_kept s a)

end Steps

theorem Told.cancel (told : s.Told) (answers : s.Answers j) : (s.cancel j).Told := by
  obtain ⟨calls, storing, replies, canceled, notices⟩ := told
  constructor
  all_goals grind

theorem told_reachable {nodeID incarnation : String} {inboundShards inboundQueue maxInboundCalls : Nat}
    (reach : machine.Reachable (initial nodeID incarnation inboundShards inboundQueue maxInboundCalls) s) : s.Told :=
  reach.invariant (I := Told) (by constructor <;> simp [initial]) fun _ _ told enabled => told_next told enabled

section Pongs

def Ponged (pongs : List Pong) (barriers : List Barrier) : Prop :=
  ∀ id, ⟨id, admissionBarrierProtocol⟩ ∈ pongs → ∃ bar ∈ barriers, bar.requestID = id ∧ bar.answered = true

theorem Ponged.modify {pongs : List Pong} {barriers : List Barrier} {b : Nat} {f : Barrier → Barrier}
    (ponged : Ponged pongs barriers)
    (keeps : ∀ bar, (f bar).requestID = bar.requestID ∧ (bar.answered = true → (f bar).answered = true)) :
    Ponged pongs (barriers.modify b f) := by
  intro id member
  obtain ⟨bar, inside, same, answered⟩ := ponged id member
  obtain ⟨i, found⟩ := List.mem_iff_getElem?.mp inside
  by_cases here : i = b
  · subst here
    refine ⟨f bar, List.mem_of_getElem? (lookup_modify_self found), (keeps bar).1.trans same, (keeps bar).2 answered⟩
  · refine ⟨bar, List.mem_of_getElem? (i := i) ?_, same, answered⟩
    rwa [List.getElem?_modify_ne _ _ (Ne.symm here)]

def AllPonged (s : Inbound) : Prop :=
  ∀ (c : Nat) (conn : InboundConn), s.conns[c]? = some conn → Ponged conn.pongs conn.barriers

theorem AllPonged.kept (all : s.AllPonged) (same : ∀ (c : Nat) (conn : InboundConn), t.conns[c]? = some conn →
    ∃ old, s.conns[c]? = some old ∧ conn.pongs = old.pongs ∧ conn.barriers = old.barriers) : t.AllPonged := by
  intro c conn found
  obtain ⟨old, was, pongs, barriers⟩ := same c conn found
  rw [pongs, barriers]
  exact all c old was

theorem AllPonged.setConn (all : s.AllPonged) {f : InboundConn → InboundConn}
    (keeps : ∀ conn, Ponged conn.pongs conn.barriers → Ponged (f conn).pongs (f conn).barriers) :
    (s.setConn c f).AllPonged :=
  forall_modify (P := fun _ (conn : InboundConn) => Ponged conn.pongs conn.barriers)
    (fun conn found => keeps conn (all c conn found)) fun d conn _ found => all d conn found

theorem Ponged.concat {pongs : List Pong} {barriers : List Barrier} (ponged : Ponged pongs barriers) {pong : Pong}
    (other : pong.protocol ≠ admissionBarrierProtocol) : Ponged (pongs ++ [pong]) barriers := by
  intro id member
  rcases List.mem_append.mp member with old | last
  · exact ponged id old
  · rw [← List.mem_singleton.mp last] at other
    exact absurd rfl other

theorem AllPonged.read (all : s.AllPonged) (c : Nat) (e : Envelope) : (s.read c e).AllPonged := by
  unfold Inbound.read
  split
  · exact all
  · split
    · exact all.setConn fun _ => id
    · split
      · exact all.setConn (c := c) fun _ => id
      · exact all.setConn (c := c) fun _ => id
      · split
        · exact all.setConn (c := c) fun _ => id
        · exact all.setConn fun _ => id
      · split
        · refine all.setConn fun conn ponged => ?_
          unfold InboundConn.barrier
          split
          · exact ponged.concat (show "barrier_busy" ≠ admissionBarrierProtocol by decide)
          · intro id member
            obtain ⟨bar, inside, known⟩ := ponged id member
            exact ⟨bar, List.mem_append_left _ inside, known⟩
        · exact all.setConn fun conn ponged => ponged.concat (show "" ≠ admissionBarrierProtocol by decide)
      · exact all.setConn fun _ => id

theorem ponged_next {a : Action} (all : s.AllPonged) : (s.next a).AllPonged := by
  cases a with
  | accept remoteNode =>
    refine forall_append all fun id member => ?_
    cases member
  | read c e => exact all.read c e
  | look c b => exact all.setConn fun _ ponged => ponged.modify fun _ => ⟨rfl, id⟩
  | wake c b => exact all.setConn fun _ ponged => ponged.modify fun _ => ⟨rfl, id⟩
  | giveUp c b => exact all.setConn fun _ ponged => ponged.modify fun _ => ⟨rfl, id⟩
  | clear c b => exact all.setConn fun _ ponged => ponged.modify fun _ => ⟨rfl, id⟩
  | pong c b =>
    refine all.setConn fun conn ponged => ?_
    have answered : Ponged conn.pongs (conn.barriers.modify b .pong) := ponged.modify fun _ => ⟨rfl, fun _ => rfl⟩
    intro id member
    rcases List.mem_append.mp member with old | last
    · exact answered id old
    · obtain ⟨bar, found, same⟩ := Option.map_eq_some_iff.mp (Option.mem_toList.mp last)
      exact ⟨bar.pong, List.mem_of_getElem? (lookup_modify_self found), congrArg Pong.requestID same, rfl⟩
  | store c j | submit c j | push c j | refuse c j | reject c j | check w j | acquire w j | deliver w j | fail w j err
  | finish w j =>
    refine all.kept ?_
    dsimp only [next, withJob, submit, push, acquire, deliver, fail, turnAway, finishAdmission]
    repeat' split
    all_goals grind
  | _ => exact all.kept (by grind)

theorem ponged_reachable {nodeID incarnation : String} {inboundShards inboundQueue maxInboundCalls : Nat}
    (reach : machine.Reachable (initial nodeID incarnation inboundShards inboundQueue maxInboundCalls) s) :
    s.AllPonged :=
  reach.invariant (I := AllPonged) (fun c conn found => by cases found) fun _ _ all _ => ponged_next all

end Pongs

end Inbound

end Skygo.Transport
