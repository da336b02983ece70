import Skygo.Transport.Inbound

/-! The inbound side of a node is an `Admission`. -/

set_option autoImplicit false

namespace Skygo.Transport

open Semantics

/-- The lane of a request is its shard. A request without a target is never queued. -/
def InboundJob.ticket (shards : Nat) (job : InboundJob) : Ticket where
  line := job.conn
  sequence := job.admissionSeq
  lane := ((job.envelope.target.map Target.address).getD 0) % shards

namespace Inbound

variable {s : Inbound} {c j w b : Nat}

def core (s : Inbound) : Admission where
  lines := s.conns.map InboundConn.line
  tickets := s.jobs.map (InboundJob.ticket s.shards.length)
  lanes := s.shards.map Shard.lane
  ended := s.ended
  received := s.received
  told := s.notices.map Notice.job

section Views

theorem core_setConn {f : InboundConn → InboundConn} {g : Line → Line}
    (seen : ∀ conn, s.conns[c]? = some conn → (f conn).line = g conn.line) :
    (s.setConn c f).core = s.core.setLine c g := by
  simp only [core, setConn, Admission.setLine, map_modify seen]

theorem core_setConn_same {f : InboundConn → InboundConn}
    (same : ∀ conn, s.conns[c]? = some conn → (f conn).line = conn.line) : (s.setConn c f).core = s.core := by
  simp only [core, setConn, map_modify_same same]

theorem core_setShard {f : Shard → Shard} {g : Lane → Lane}
    (seen : ∀ shard, s.shards[w]? = some shard → (f shard).lane = g shard.lane) :
    (s.setShard w f).core = s.core.setLane w g := by
  simp only [core, setShard, Admission.setLane, List.length_modify, map_modify seen]

theorem core_setShard_same {f : Shard → Shard}
    (same : ∀ shard, s.shards[w]? = some shard → (f shard).lane = shard.lane) : (s.setShard w f).core = s.core := by
  simp only [core, setShard, List.length_modify, map_modify_same same]

theorem core_cancel (s : Inbound) (j : Nat) : (s.cancel j).core = s.core := by
  have same : (s.jobs.modify j fun job => { job with canceled := true }).map (InboundJob.ticket s.shards.length) =
      s.jobs.map (InboundJob.ticket s.shards.length) := map_modify_same fun _ _ => rfl
  simp only [core, cancel, same]

@[simp]
theorem core_forgetCall (s : Inbound) (job : InboundJob) : (s.forgetCall job).core = s.core :=
  core_setConn_same fun _ _ => rfl

@[simp]
theorem core_notify (s : Inbound) (notice : Notice) :
    (s.notify notice).core = s.core.next (.answer notice.job) := by
  simp [core, notify, Admission.next]

theorem core_conclude (s : Inbound) (w j : Nat) :
    (s.conclude w j).core =
      s.core.setLane w fun lane => { lane with grip := .spent j, handled := lane.handled ++ [j] } :=
  core_setShard fun _ _ => rfl

theorem core_finishAdmission (s : Inbound) (j : Nat) : (s.finishAdmission j).core = s.core.finish j := by
  unfold finishAdmission Admission.finish
  cases found : s.jobs[j]? with
  | none => simp [core, found]
  | some job =>
    have seen : (s.setConn job.conn fun conn => conn.finishAdmission job.admissionSeq).core =
        s.core.setLine job.conn fun line => line.finish job.admissionSeq := by
      refine core_setConn fun conn _ => ?_
      unfold InboundConn.finishAdmission Line.finish
      split <;> rfl
    simp [core, found, InboundJob.ticket, setConn, Admission.setLine] at seen ⊢
    exact seen

theorem core_turnAway {job : InboundJob} (found : s.jobs[j]? = some job) (err : Actor.Fault) :
    (s.turnAway j err).core = s.core.next (.answer j) := by
  simp only [turnAway, found]
  split
  · exact core_notify ..
  · rw [core_notify, core_forgetCall]
    rfl

end Views

section Steps

theorem at_line {p : InboundConn → Prop} {q : Line → Prop} (known : At s.conns c p)
    (seen : ∀ conn, p conn → q conn.line) : At s.core.lines c q := by
  obtain ⟨conn, found, holds⟩ := at_iff.mp known
  exact at_iff.mpr ⟨conn.line, by simp [core, found], seen conn holds⟩

theorem at_lane {p : Shard → Prop} {q : Lane → Prop} (known : At s.shards w p)
    (seen : ∀ shard, p shard → q shard.lane) : At s.core.lanes w q := by
  obtain ⟨shard, found, holds⟩ := at_iff.mp known
  exact at_iff.mpr ⟨shard.lane, by simp [core, found], seen shard holds⟩

theorem at_barrier {p : InboundConn → Barrier → Prop} {q : Line → Barrier → Prop} (known : s.AtBarrier c b p)
    (seen : ∀ conn bar, p conn bar → q conn.line bar) : s.core.AtBarrier c b q :=
  at_line known fun conn holds => At.mono holds fun bar => seen conn bar

def Seen (s t : Inbound) : Prop :=
  t.core = s.core ∨ ∃ b, Admission.Enabled s.core b ∧ t.core = s.core.next b

theorem seen_setReader (reader : Reader) (known : At s.conns c fun conn => conn.reader.hand = reader.hand) :
    Seen s (s.setReader c reader) := by
  refine .inl (core_setConn_same fun conn found => ?_)
  simp only [InboundConn.line, known.here found]

theorem seen_setWorker (worker : Worker) (known : At s.shards w fun shard => shard.worker.grip = worker.grip) :
    Seen s (s.setWorker w worker) := by
  refine .inl (core_setShard_same fun shard found => ?_)
  simp only [Shard.lane, known.here found]

theorem seen_setBarrier {f : InboundConn → Barrier → Barrier} {g : Line → Barrier → Barrier} {a : Admission.Action}
    (enabled : s.core.Enabled a)
    (steps : s.core.next a = s.core.setLine c fun line => line.setBarrier b (g line))
    (seen : ∀ conn, f conn = g conn.line) : Seen s (s.setConn c fun conn => conn.setBarrier b (f conn)) := by
  refine .inr ⟨a, enabled, ?_⟩
  rw [steps]
  refine core_setConn fun conn _ => ?_
  rw [seen]
  rfl

theorem seen_drop (known : At s.shards w fun shard => shard.worker.grip = .holding j) {t : Inbound}
    (told : t.core = s.core.next (.answer j)) : Seen s (t.conclude w j) := by
  refine .inr ⟨.drop w j, at_lane known fun _ holds => holds, ?_⟩
  rw [core_conclude, told]
  rfl

theorem seen_withJob {f : InboundJob → Inbound} (steps : ∀ job, s.jobs[j]? = some job → Seen s (f job)) :
    Seen s (s.withJob j f) := by
  unfold withJob
  split
  · next job found => exact steps job found
  · exact .inl rfl

theorem seen_beginAdmission {conn : InboundConn} (found : s.conns[c]? = some conn) (idle : conn.reader = .reading)
    (e : Envelope) {place : Nat → Reader} (holds : ∀ j, (place j).hand = .holding j) :
    Seen s (s.beginAdmission c conn e place) := by
  refine .inr ⟨.begin c (conn.admission.next + 1) (((e.target.map Target.address).getD 0) % s.shards.length), ?_, ?_⟩
  · refine at_iff.mpr ⟨conn.line, by simp [core, found], ?_, rfl⟩
    simp [InboundConn.line, idle, Reader.hand]
  · have seen := core_setConn (s := s) (c := c)
      (f := fun conn => { conn with
        admission := conn.admission.begin
        reader := place s.jobs.length
        log := conn.log ++ [.request s.jobs.length] })
      (g := fun line => { line with
        mark := line.mark.begin
        hand := .holding s.jobs.length
        log := line.log ++ [.request s.jobs.length] })
      fun conn _ => by simp [InboundConn.line, holds]
    simp only [core, setConn, Admission.setLine, Admission.mk.injEq] at seen
    simp [core, beginAdmission, Admission.next, Admission.setLine, setConn, InboundJob.ticket, seen.1]

theorem seen_skip (known : At s.conns c fun conn => conn.reader = .reading) {t : Inbound} (same : t.core = s.core)
    {f : InboundConn → InboundConn}
    (seen : ∀ conn, conn.reader = .reading → (f conn).line = { conn.line with log := conn.log ++ [.other] })
    (kept : t.conns = s.conns) : Seen s (t.setConn c f) := by
  refine .inr ⟨.skip c, at_line known fun conn idle => by simp [InboundConn.line, idle, Reader.hand], ?_⟩
  rw [core_setConn (g := fun line => { line with log := line.log ++ [.other] }), same]
  · rfl
  · intro conn found
    rw [kept] at found
    exact seen conn (known.here found)

theorem seen_barrier {conn : InboundConn} (found : s.conns[c]? = some conn) (idle : conn.reader = .reading)
    (e : Envelope) : Seen s (s.setConn c fun conn => conn.barrier e) := by
  have known : At s.conns c fun conn => conn.reader = .reading := at_iff.mpr ⟨conn, found, idle⟩
  cases pending : conn.barrierPending with
  | true =>
    have busy : s.setConn c (fun conn => conn.barrier e) = s.setConn c fun conn =>
        { conn.skip with pongs := conn.pongs ++ [{ requestID := e.requestID, protocol := "barrier_busy" }] } := by
      unfold setConn
      rw [modify_const found, modify_const (f := fun conn => { conn.skip with
        pongs := conn.pongs ++ [{ requestID := e.requestID, protocol := "barrier_busy" }] }) found]
      simp [InboundConn.barrier, pending, InboundConn.skip]
    rw [busy]
    exact seen_skip known rfl (fun _ _ => rfl) rfl
  | false =>
    refine .inr ⟨.barrier c e.requestID, at_line known fun conn idle => by simp [InboundConn.line, idle, Reader.hand], ?_⟩
    refine core_setConn fun other there => ?_
    obtain rfl : conn = other := Option.some.inj (found.symm.trans there)
    simp [InboundConn.barrier, InboundConn.line, pending]

theorem seen_read (known : At s.conns c fun conn => conn.reader = .reading) (e : Envelope) : Seen s (s.read c e) := by
  obtain ⟨conn, found, idle⟩ := at_iff.mp known
  simp only [read, found]
  split
  · exact seen_skip known rfl (fun conn idle => by simp [InboundConn.line, InboundConn.skip, idle, Reader.hand]) rfl
  · split
    · exact seen_beginAdmission found idle e fun _ => rfl
    · exact seen_beginAdmission found idle e fun _ => rfl
    · split
      · exact seen_skip known (core_cancel ..) (fun _ _ => rfl) rfl
      · exact seen_skip known rfl (fun _ _ => rfl) rfl
    · split
      · exact seen_barrier found idle e
      · exact seen_skip known rfl (fun _ _ => rfl) rfl
    · exact seen_skip known rfl (fun _ _ => rfl) rfl

variable {job : InboundJob}

theorem shardOf_lane {w : Nat} (sharded : s.shardOf job.envelope = some w) :
    (job.ticket s.shards.length).lane = w ∧ w < s.shards.length := by
  unfold shardOf at sharded
  split at sharded
  · next target found =>
    split at sharded
    · cases sharded
    · next some =>
      cases sharded
      exact ⟨by simp [InboundJob.ticket, found], Nat.mod_lt _ (Nat.pos_of_ne_zero some)⟩
  · cases sharded

theorem seen_push (found : s.jobs[j]? = some job)
    (known : At s.conns c fun conn => conn.reader = .pushing j) : Seen s (s.push c j job) := by
  unfold push
  split
  · exact seen_setReader _ (known.mono fun conn holds => by rw [holds]; rfl)
  · next w sharded =>
    split
    · obtain ⟨lane, bound⟩ := shardOf_lane sharded
      refine .inr ⟨.enqueue c j w, ⟨at_line known fun conn holds => by simp [InboundConn.line, holds, Reader.hand],
        at_iff.mpr ⟨_, by simp [core, found], lane⟩, by simpa [core] using bound⟩, ?_⟩
      rw [core_setShard (g := fun lane => { lane with queue := lane.queue ++ [j] }) fun _ _ => rfl]
      congr 1
      exact core_setConn fun _ _ => rfl
    · exact seen_setReader _ (known.mono fun conn holds => by rw [holds]; rfl)

theorem seen_submit (known : At s.conns c fun conn => conn.reader = .submitting j) :
    Seen s (s.submit c j job) := by
  unfold submit
  split
  · exact seen_setReader _ (known.mono fun conn holds => by rw [holds]; rfl)
  · split
    · exact seen_setReader (.pushing j) (known.mono fun conn holds => by rw [holds]; rfl)
    · exact seen_setReader _ (known.mono fun conn holds => by rw [holds]; rfl)

theorem seen_acquire (found : s.jobs[j]? = some job)
    (known : At s.shards w fun shard => shard.worker = .accepting j) : Seen s (s.acquire w j job) := by
  have holds : At s.shards w fun shard => shard.worker.grip = .holding j :=
    known.mono fun shard here => by rw [here]; rfl
  unfold acquire
  split
  · exact seen_drop holds (core_turnAway found _)
  · split
    · split
      · exact seen_setWorker (.dispatching j) holds
      · exact seen_drop holds (core_turnAway found _)
    · exact seen_setWorker (.dispatching j) holds

theorem seen_next (s : Inbound) (a : Action) (enabled : s.Enabled a) : Seen s (s.next a) := by
  cases a with
  | accept remoteNode =>
    refine .inr ⟨.connect, trivial, ?_⟩
    simp [next, core, Admission.next, InboundConn.line, Reader.hand]
  | read c e => exact seen_read (At.mono enabled fun _ holds => holds.1) e
  | readFailed c => exact seen_setReader .leaving (At.mono enabled fun _ holds => by rw [holds]; rfl)
  | store c j =>
    refine seen_withJob fun job found => .inl ?_
    have stored : (s.setReader c (.submitting j)).core = s.core := by
      refine core_setConn_same fun conn there => ?_
      simp [InboundConn.line, At.here enabled there, Reader.hand]
    rw [← stored]
    exact core_setConn_same fun _ _ => rfl
  | submit c j => exact seen_withJob fun job _ => seen_submit enabled
  | push c j => exact seen_withJob fun job found => seen_push found enabled
  | restore c j => exact seen_setReader (.refused j) (At.mono enabled fun _ holds => by rw [holds]; rfl)
  | refuse c j =>
    refine .inr ⟨.refuse c j, at_line enabled fun conn holds => by simp [InboundConn.line, holds, Reader.hand], ?_⟩
    dsimp only [next]
    rw [core_finishAdmission]
    exact congrArg (Admission.finish · j) (core_setConn fun _ _ => rfl)
  | reject c j =>
    refine seen_withJob fun job found => .inr ⟨.tell c j, at_line enabled fun conn holds => by
      simp [InboundConn.line, holds, Reader.hand], ?_⟩
    have kept : (s.setReader c .reading).jobs[j]? = some job := found
    rw [core_turnAway kept]
    exact congrArg (Admission.next · (.answer j)) (core_setConn (g := fun line => { line with hand := .empty })
      fun _ _ => rfl)
  | leave c =>
    exact seen_setReader .exited (At.mono enabled fun _ holds => by rw [holds.1]; rfl)
  | close c => exact .inl (core_setConn_same fun _ _ => rfl)
  | cancelCall c requestID j => exact .inl (core_cancel ..)
  | disconnect c => exact .inl (core_setConn_same fun _ _ => rfl)
  | look c b => exact seen_setBarrier (a := .look c b) (at_barrier enabled fun _ _ holds => holds) rfl fun _ => rfl
  | wake c b => exact seen_setBarrier (a := .wake c b) (at_barrier enabled fun _ _ holds => holds) rfl fun _ => rfl
  | pong c b =>
    refine .inr ⟨.pong c b, at_barrier enabled fun _ _ holds => holds, ?_⟩
    exact core_setConn fun _ _ => rfl
  | giveUp c b => exact seen_setBarrier (a := .giveUp c b) (at_barrier enabled fun _ _ holds => holds) rfl fun _ => rfl
  | clear c b =>
    refine .inr ⟨.clear c b, at_barrier enabled fun _ _ holds => holds, ?_⟩
    exact core_setConn fun _ _ => rfl
  | take w j =>
    refine .inr ⟨.take w j, at_lane enabled fun shard holds => by simp [Shard.lane, holds.1, holds.2, Worker.grip], ?_⟩
    exact core_setShard fun _ _ => rfl
  | release w j => exact seen_setWorker (.checking j) (At.mono enabled fun _ holds => by rw [holds]; rfl)
  | check w j =>
    have holds : At s.shards w fun shard => shard.worker.grip = .holding j :=
      At.mono enabled fun shard here => by rw [here]; rfl
    refine seen_withJob fun job _ => ?_
    split
    · exact seen_drop holds (by rw [core_notify, core_forgetCall]; rfl)
    · exact seen_setWorker _ holds
  | acquire w j => exact seen_withJob fun job found => seen_acquire found enabled
  | deliver w j =>
    refine seen_withJob fun job _ => .inr ⟨.deliver w j, at_lane enabled fun shard holds => by
      simp [Shard.lane, holds, Worker.grip], ?_⟩
    exact congrArg (fun t : Admission => { t with received := s.received ++ [j] }) (core_conclude s w j)
  | fail w j err =>
    have holds : At s.shards w fun shard => shard.worker.grip = .holding j :=
      At.mono enabled fun shard here => by rw [here]; rfl
    exact seen_withJob fun job found => seen_drop holds (core_turnAway found err)
  | finish w j =>
    refine .inr ⟨.finish w j, at_lane enabled fun shard holds => by simp [Shard.lane, holds, Worker.grip], ?_⟩
    dsimp only [next]
    rw [core_finishAdmission]
    exact congrArg (Admission.finish · j) (core_setShard fun _ _ => rfl)
  | exit w => exact seen_setWorker .exited (At.mono enabled.1 fun _ holds => by rw [holds]; rfl)
  | complete r j err => exact seen_withJob fun job _ => .inl (core_forgetCall ..)
  | cutOff r j =>
    refine seen_withJob fun job _ => .inl ?_
    exact (core_forgetCall ..).trans (core_cancel ..)
  | respond r j err =>
    refine seen_withJob fun job _ => ?_
    split
    · exact .inl rfl
    · exact .inr ⟨.answer j, trivial, core_notify s (.response j job.envelope.requestID err)⟩
  | free r => exact .inl rfl
  | stop => exact .inl rfl

/-- Whatever holds of every reachable admission holds of the inbound side of a node. -/
theorem reachable_core {start : Inbound} (reach : machine.Reachable start s) :
    Admission.machine.Reachable start.core s.core :=
  reach.view core seen_next

end Steps

end Inbound

end Skygo.Transport
