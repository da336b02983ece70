import Skygo.Transport.AdmissionOrder
import Skygo.Transport.InboundCore

/-! The admission of the requests a node reads: the counters of a connection, its barriers, and that
every request is finished once.

A request is finished at most once in every run. While the node runs, the goroutines that hold it can
always go on until it is finished. Once the node's context has ended a worker may leave with requests
in its queue, and these are never finished.
-/

set_option autoImplicit false

attribute [-instance] instBooleanRingBool

namespace Skygo.Transport

open Semantics

namespace Inbound

variable {s t : Inbound} {c j w : Nat} {nodeID incarnation : String} {inboundShards inboundQueue maxInboundCalls : Nat}

theorem core_initial : (initial nodeID incarnation inboundShards inboundQueue maxInboundCalls).core =
    { lanes := List.replicate inboundShards {} } := by
  simp [core, initial, Shard.lane, Worker.grip]

section Frames

theorem withJob_of {f : InboundJob → Inbound} {job : InboundJob} (found : s.jobs[j]? = some job) :
    s.withJob j f = f job := by
  simp [withJob, found]

end Frames

end Inbound

def Worker.job? : Worker → Option Nat
  | .releasing j | .checking j | .accepting j | .dispatching j | .ended j => some j
  | .idle | .exited => none

def Worker.rank : Worker → Nat
  | .releasing _ => 5
  | .checking _ => 4
  | .accepting _ => 3
  | .dispatching _ => 2
  | .ended _ => 1
  | .idle | .exited => 0

def Reader.job? : Reader → Option Nat
  | .storing j | .submitting j | .pushing j | .full j | .refused j => some j
  | .reading | .rejected _ | .leaving | .exited => none

def Reader.rank : Reader → Nat
  | .storing _ => 5
  | .submitting _ => 4
  | .pushing _ => 3
  | .full _ => 2
  | .refused _ => 1
  | .reading | .rejected _ | .leaving | .exited => 0

attribute [grind] Worker.job? Worker.rank Reader.job? Reader.rank

namespace Inbound

variable {s t : Inbound} {c j w : Nat} {nodeID incarnation : String} {inboundShards inboundQueue maxInboundCalls : Nat}

section Progress

theorem reachable_next {a : Action} (enabled : s.Enabled a) : machine.Reachable s (s.next a) :=
  (Machine.Reachable.refl s).next (a := a) enabled

variable {shard : Shard}

/-- The worker's next step on its request. It brings the worker closer to the end of `dispatch`, or it is the
deferred `finishAdmission`. -/
theorem worker_step {job : InboundJob} (found : s.shards[w]? = some shard)
    (holds : shard.worker.job? = some j) (known : s.jobs[j]? = some job) :
    ∃ a, s.Enabled a ∧ (s.next a).jobs = s.jobs ∧ (s.next a).stopped = s.stopped ∧
      ∃ later, (s.next a).shards[w]? = some later ∧ later.queue = shard.queue ∧
        ((later.worker.job? = some j ∧ later.worker.rank < shard.worker.rank) ∨
          (later.worker = .idle ∧ j ∈ (s.next a).ended)) := by
  cases worker : shard.worker with
  | idle | exited => grind
  | releasing i =>
    refine ⟨.release w j, ?_⟩
    grind
  | checking i =>
    refine ⟨.check w j, ?_⟩
    grind
  | accepting i =>
    refine ⟨.acquire w j, ?_⟩
    simp only [next, withJob, known, acquire]
    repeat' split
    all_goals grind
  | dispatching i =>
    refine ⟨.deliver w j, ?_⟩
    simp only [next, withJob, known, deliver]
    grind
  | ended i =>
    refine ⟨.finish w j, ?_⟩
    grind

theorem worker_finishes (found : s.shards[w]? = some shard) (holds : shard.worker.job? = some j)
    (known : j < s.jobs.length) :
    ∃ t, machine.Reachable s t ∧ j ∈ t.ended ∧
      At t.shards w fun later => later.queue = shard.queue ∧ later.worker = .idle := by
  induction rank : shard.worker.rank using Nat.strong_induction_on generalizing s shard with
  | _ rank ih =>
    obtain ⟨a, enabled, jobs, _, later, there, queue, rest⟩ := worker_step found holds (List.getElem?_eq_getElem known)
    have one := reachable_next enabled
    rcases rest with ⟨still, less⟩ | ⟨idle, ended⟩
    · obtain ⟨t, reach, finished, last⟩ := ih later.worker.rank (rank ▸ less) there still (jobs ▸ known) rfl
      exact ⟨t, one.trans reach, finished, queue ▸ last⟩
    · exact ⟨s.next a, one, ended, at_iff.mpr ⟨later, there, queue, idle⟩⟩

theorem sound_core (reach : machine.Reachable (initial nodeID incarnation inboundShards inboundQueue maxInboundCalls) s) :
    s.core.Sound :=
  Admission.sound_reachable (core_initial ▸ reachable_core reach)

theorem sound_later (sound : s.core.Sound) (reach : machine.Reachable s t) : t.core.Sound :=
  (reachable_core reach).invariant sound fun _ _ sound enabled => Admission.sound_next sound enabled

theorem lane_found (found : s.shards[w]? = some shard) : s.core.lanes[w]? = some shard.lane := by
  simp [core, found]

theorem idle_drains (sound : s.core.Sound)
    (found : s.shards[w]? = some shard) (idle : shard.worker = .idle) (member : j ∈ shard.queue) :
    ∃ t, machine.Reachable s t ∧ j ∈ t.ended := by
  induction queue : shard.queue generalizing s shard with
  | nil => rw [queue] at member; cases member
  | cons i rest ih =>
    have taken : s.Enabled (.take w i) := at_iff.mpr ⟨shard, found, idle, by simp [queue]⟩
    have there : (s.next (.take w i)).shards[w]? = some { shard with queue := shard.queue.tail, worker := .releasing i } :=
      lookup_modify_self found
    have known : i < s.jobs.length := by
      have inside := Admission.lane_count_le_held (lane_found found) i
      have := (sound.known (j := i) (by simp [Shard.lane, queue] at inside; omega)).1
      simpa [core] using this
    obtain ⟨t, steps, finished, later⟩ := worker_finishes there rfl known
    have one : machine.Reachable s t := (reachable_next taken).trans steps
    rcases List.mem_cons.mp (queue ▸ member) with rfl | behind
    · exact ⟨t, one, finished⟩
    · obtain ⟨shard', here, tail, free⟩ := at_iff.mp later
      have left : shard'.queue = rest := by rw [tail, queue, List.tail_cons]
      obtain ⟨u, more, ended⟩ := ih (sound_later sound one) here free (left ▸ behind) left
      exact ⟨u, one.trans more, ended⟩

/-- A request in the hands or in the queue of a worker that has not left can be finished. -/
theorem shard_finishes (sound : s.core.Sound)
    (found : s.shards[w]? = some shard) (stays : shard.worker ≠ .exited)
    (inside : j ∈ shard.queue ∨ shard.worker.job? = some j) : ∃ t, machine.Reachable s t ∧ j ∈ t.ended := by
  have known {i : Nat} (holds : shard.worker.job? = some i) : i < s.jobs.length := by
    have inside := Admission.lane_count_le_held (lane_found found) i
    have counted : 0 < s.core.held i := by
      cases worker : shard.worker <;> rw [worker] at holds <;>
        simp_all [Worker.job?, Shard.lane, Worker.grip, Grip.count] <;> omega
    simpa [core] using (sound.known counted).1
  rcases inside with queued | holds
  · cases holds : shard.worker.job? with
    | none =>
      have idle : shard.worker = .idle := by
        cases worker : shard.worker <;> simp_all [Worker.job?]
      exact idle_drains sound found idle queued
    | some i =>
      obtain ⟨t, steps, _, later⟩ := worker_finishes found holds (known holds)
      obtain ⟨shard', here, same, idle⟩ := at_iff.mp later
      obtain ⟨u, more, ended⟩ := idle_drains (sound_later sound steps) here idle (same ▸ queued)
      exact ⟨u, steps.trans more, ended⟩
  · obtain ⟨t, steps, ended, _⟩ := worker_finishes found holds (known holds)
    exact ⟨t, steps, ended⟩

/-- The reader's next step on its request: it goes on, finishes the request, or leaves it to a shard. -/
theorem reader_step {conn : InboundConn} {job : InboundJob} (found : s.conns[c]? = some conn)
    (holds : conn.reader.job? = some j) (known : s.jobs[j]? = some job) :
    ∃ a, s.Enabled a ∧ (s.next a).jobs = s.jobs ∧ (s.next a).stopped = s.stopped ∧
      ((∃ later, (s.next a).conns[c]? = some later ∧ later.reader.job? = some j ∧ later.reader.rank < conn.reader.rank) ∨
        j ∈ (s.next a).ended ∨ ∃ w, At (s.next a).shards w fun shard => j ∈ shard.queue) := by
  cases reader : conn.reader with
  | reading | rejected i | leaving | exited => grind
  | storing i =>
    refine ⟨.store c j, ?_⟩
    grind
  | submitting i =>
    refine ⟨.submit c j, ?_⟩
    simp only [next, withJob, known, submit]
    repeat' split
    all_goals grind
  | pushing i =>
    refine ⟨.push c j, ?_⟩
    simp only [next, withJob, known, push]
    split
    · grind
    · next w _ =>
      split
      · exact ⟨by grind, rfl, rfl, .inr (.inr ⟨w, by grind⟩)⟩
      · grind
  | full i =>
    refine ⟨.restore c j, ?_⟩
    grind
  | refused i =>
    refine ⟨.refuse c j, ?_⟩
    grind

def Staffed (s : Inbound) : Prop :=
  s.stopped = false → ∀ (w : Nat) (shard : Shard), s.shards[w]? = some shard → shard.worker ≠ .exited

theorem stopped_next (s : Inbound) (a : Action) (ended : s.stopped = true) : (s.next a).stopped = true := by
  cases a with
  | submit c j | push c j | acquire w j | fail w j err =>
    dsimp only [next, withJob, submit, push, acquire, fail]
    repeat' split
    all_goals first | exact ended | grind
  | _ => first | exact ended | grind

theorem staffed_next {a : Action} (staffed : s.Staffed) (enabled : s.Enabled a) : (s.next a).Staffed := by
  intro running
  have before : s.stopped = false := by
    by_contra ended
    exact absurd (running.symm.trans (stopped_next s a (by simpa using ended))) (by simp)
  have staffed := staffed before
  clear running
  cases a with
  | submit c j | push c j | acquire w j | deliver w j | fail w j err =>
    dsimp only [next, withJob, submit, push, acquire, deliver, fail]
    repeat' split
    all_goals first | exact staffed | grind
  | _ => first | exact staffed | grind

theorem staffed_later (staffed : s.Staffed) (reach : machine.Reachable s t) : t.Staffed :=
  reach.invariant staffed fun _ _ staffed enabled => staffed_next staffed enabled

theorem staffed_initial : (initial nodeID incarnation inboundShards inboundQueue maxInboundCalls).Staffed := by
  intro _ w shard found
  rw [(List.mem_replicate.mp (List.mem_of_getElem? found)).2]
  simp

theorem abandoned_next {a : Action} (left : At s.shards w fun shard => shard.worker = .exited ∧ j ∈ shard.queue)
    (enabled : s.Enabled a) : At (s.next a).shards w fun shard => shard.worker = .exited ∧ j ∈ shard.queue := by
  cases a with
  | submit c j | push c j | acquire w j | deliver w j | fail w j err =>
    dsimp only [next, withJob, submit, push, acquire, deliver, fail]
    repeat' split
    all_goals first | exact left | grind
  | _ => first | exact left | grind

theorem abandoned (found : s.shards[w]? = some shard) (gone : shard.worker = .exited)
    (queued : j ∈ shard.queue) (reach : machine.Reachable s t) :
    At t.shards w fun later => later.worker = .exited ∧ j ∈ later.queue :=
  reach.invariant (I := fun t => At t.shards w fun later => later.worker = .exited ∧ j ∈ later.queue)
    (at_iff.mpr ⟨shard, found, gone, queued⟩) fun _ _ left enabled => abandoned_next left enabled

theorem reader_finishes {conn : InboundConn} (sound : s.core.Sound) (staffed : s.Staffed)
    (running : s.stopped = false) (found : s.conns[c]? = some conn) (holds : conn.reader.job? = some j)
    (known : j < s.jobs.length) : ∃ t, machine.Reachable s t ∧ j ∈ t.ended := by
  induction rank : conn.reader.rank using Nat.strong_induction_on generalizing s conn with
  | _ rank ih =>
    obtain ⟨a, enabled, jobs, stopped, rest⟩ := reader_step found holds (List.getElem?_eq_getElem known)
    have one := reachable_next enabled
    rcases rest with ⟨later, there, still, less⟩ | ended | ⟨w, queued⟩
    · obtain ⟨t, steps, ended⟩ := ih later.reader.rank (rank ▸ less) (sound_later sound one) (staffed_later staffed one)
        (stopped ▸ running) there still (jobs ▸ known) rfl
      exact ⟨t, one.trans steps, ended⟩
    · exact ⟨s.next a, one, ended⟩
    · obtain ⟨shard, there, inside⟩ := at_iff.mp queued
      have stays := staffed_later staffed one (stopped ▸ running) w shard there
      obtain ⟨t, steps, ended⟩ := shard_finishes (sound_later sound one) there stays (.inl inside)
      exact ⟨t, one.trans steps, ended⟩

end Progress

/-- `finishAdmission` ran for the request with this number on the connection. -/
def Finished (s : Inbound) (c n : Nat) : Prop :=
  ∃ j ∈ s.ended, At s.jobs j fun job => job.conn = c ∧ job.admissionSeq = n

def Pending (s : Inbound) (j : Nat) : Prop :=
  (∃ c, At s.conns c fun conn => conn.reader.job? = some j) ∨
    ∃ w, At s.shards w fun shard => j ∈ shard.queue ∨ shard.worker.job? = some j

theorem at_ticket {p : Ticket → Prop} :
    At s.core.tickets j p ↔ At s.jobs j fun job => p (job.ticket s.shards.length) := by
  simp only [at_iff, core, List.getElem?_map, Option.map_eq_some_iff]
  constructor
  · rintro ⟨_, ⟨job, found, rfl⟩, holds⟩
    exact ⟨job, found, holds⟩
  · rintro ⟨job, found, holds⟩
    exact ⟨_, ⟨job, found, rfl⟩, holds⟩

theorem finished_iff (n : Nat) : s.Finished c n ↔ n ∈ s.core.endedOn c := by
  refine exists_congr fun j => and_congr_right fun _ => ?_
  rw [at_ticket]
  rfl

theorem pending_of_held (holds : 0 < s.core.held j) : s.Pending j := by
  rcases Admission.held_pos holds with ⟨c, known⟩ | ⟨w, known⟩
  · obtain ⟨line, found, hand⟩ := at_iff.mp known
    obtain ⟨conn, there, rfl⟩ := Option.map_eq_some_iff.mp ((List.getElem?_map ..).symm.trans found)
    refine .inl ⟨c, at_iff.mpr ⟨conn, there, ?_⟩⟩
    cases reader : conn.reader <;> simp_all [InboundConn.line, Reader.hand, Reader.job?]
  · obtain ⟨lane, found, inside⟩ := at_iff.mp known
    obtain ⟨shard, there, rfl⟩ := Option.map_eq_some_iff.mp ((List.getElem?_map ..).symm.trans found)
    refine .inr ⟨w, at_iff.mpr ⟨shard, there, inside.imp_right fun gripped => ?_⟩⟩
    cases worker : shard.worker <;> simp_all [Shard.lane, Worker.grip, Worker.job?]

theorem held_of_pending (pending : s.Pending j) : 0 < s.core.held j := by
  rcases pending with ⟨c, known⟩ | ⟨w, known⟩
  · obtain ⟨conn, found, holds⟩ := at_iff.mp known
    have here : s.core.lines[c]? = some conn.line := by simp [core, found]
    have inside := Admission.count_le_held here j
    have counted : conn.line.hand.count j = 1 := by
      cases reader : conn.reader <;> simp_all [InboundConn.line, Reader.hand, Reader.job?, Hand.count]
    omega
  · obtain ⟨shard, found, holds⟩ := at_iff.mp known
    have inside := Admission.lane_count_le_held (lane_found found) j
    rcases holds with queued | gripped
    · have counted : 0 < shard.lane.queue.count j := List.count_pos_iff.mpr queued
      omega
    · have counted : shard.lane.grip.count j = 1 := by
        cases worker : shard.worker <;> simp_all [Shard.lane, Worker.grip, Worker.job?, Grip.count]
      omega

theorem can_finish (sound : s.core.Sound) (staffed : s.Staffed)
    (running : s.stopped = false) (pending : s.Pending j) : ∃ t, machine.Reachable s t ∧ j ∈ t.ended := by
  have known : j < s.jobs.length := by
    simpa [core] using (sound.known (held_of_pending pending)).1
  rcases pending with ⟨c, holds⟩ | ⟨w, holds⟩
  · obtain ⟨conn, found, holds⟩ := at_iff.mp holds
    exact reader_finishes sound staffed running found holds known
  · obtain ⟨shard, found, inside⟩ := at_iff.mp holds
    exact shard_finishes sound found (staffed running w shard found) inside

section

variable (reach : machine.Reachable (initial nodeID incarnation inboundShards inboundQueue maxInboundCalls) s)
include reach

theorem count_ended
    (known : j < s.jobs.length) : (s.ended.count j = 1 ∧ ¬ s.Pending j) ∨ (s.ended.count j = 0 ∧ s.Pending j) := by
  have conserved := (sound_core reach).conserved j
  rw [if_pos (by simpa [core] using known)] at conserved
  have same : s.core.ended = s.ended := rfl
  rw [same] at conserved
  rcases Nat.eq_zero_or_pos (s.core.held j) with none | held
  · exact .inl ⟨by omega, fun pending => absurd (held_of_pending pending) (by omega)⟩
  · exact .inr ⟨by omega, pending_of_held held⟩

theorem mem_log {conn : InboundConn} (found : s.conns[c]? = some conn) (j : Nat) :
    .request j ∈ conn.log ↔ At s.jobs j fun job => job.conn = c := by
  have here : s.core.lines[c]? = some conn.line := by simp [core, found]
  exact ((Admission.logged_reachable (core_initial ▸ reachable_core reach) c conn.line here).requests j).trans at_ticket

theorem never_finished {shard : Shard}
    (found : s.shards[w]? = some shard) (gone : shard.worker = .exited) (queued : j ∈ shard.queue)
    (steps : machine.Reachable s t) : t.ended.count j = 0 := by
  obtain ⟨later, there, _, inside⟩ := at_iff.mp (abandoned found gone queued steps)
  have pending : t.Pending j := .inr ⟨w, at_iff.mpr ⟨later, there, .inl inside⟩⟩
  exact ((sound_core (reach.trans steps)).known (held_of_pending pending)).2.2

end

/-- The counters of every connection, its barriers, and what becomes of every request read. -/
theorem admission_watermark
    (reach : machine.Reachable (initial nodeID incarnation inboundShards inboundQueue maxInboundCalls) s) :
    (∀ (c : Nat) (conn : InboundConn), s.conns[c]? = some conn →
      (∀ n, 0 < n → n ≤ conn.admission.done → s.Finished c n) ∧
      ¬ s.Finished c (conn.admission.done + 1) ∧
      (∀ n, conn.admission.finished n = true ↔ s.Finished c n ∧ conn.admission.done < n) ∧
      (∀ (b : Nat) (bar : Barrier), conn.barriers[b]? = some bar →
        (bar.answered = true → ∀ j, Precedes conn.log (.request j) (.barrier b) → s.ended.count j = 1) ∧
        (∀ seen, bar.place = .waiting seen → bar.sequence ≤ conn.admission.done → seen < conn.admissionChanged)) ∧
      (∀ j, .request j ∈ conn.log ↔ At s.jobs j fun job => job.conn = c)) ∧
    (∀ j < s.jobs.length,
      ((s.ended.count j = 1 ∧ ¬ s.Pending j) ∨ (s.ended.count j = 0 ∧ s.Pending j)) ∧
      (s.stopped = false → ∃ t, machine.Reachable s t ∧ t.ended.count j = 1)) ∧
    (∀ (w : Nat) (shard : Shard) (j : Nat), s.shards[w]? = some shard → shard.worker = .exited → j ∈ shard.queue →
      ∀ t, machine.Reachable s t → t.ended.count j = 0) := by
  have sound := sound_core reach
  have logged := Admission.logged_reachable (core_initial ▸ reachable_core reach)
  have awake := Admission.awake_reachable (core_initial ▸ reachable_core reach)
  refine ⟨fun c conn found => ?_, fun j known => ⟨count_ended reach known, fun running => ?_⟩,
    fun w shard j found gone queued t steps => ?_⟩
  · have here : s.core.lines[c]? = some conn.line := by simp [core, found]
    have tracks := sound.tracks c conn.admission (by simp [Admission.marks, core, found, InboundConn.line])
    simp only [finished_iff]
    refine ⟨tracks.low, tracks.stuck, tracks.high, fun b bar there => ⟨fun answered j before => ?_, ?_⟩, fun j => ?_⟩
    · exact Admission.answered_behind sound awake logged here there answered before
    · intro seen waits complete
      obtain ⟨known, short⟩ := (awake c conn.line here bar (List.mem_of_getElem? there)).awake seen waits
      rcases Nat.lt_or_eq_of_le known with less | same
      · exact less
      · exact absurd (short same) (Nat.not_lt.mpr complete)
    · exact mem_log reach found j
  · rcases count_ended reach known with ⟨once, _⟩ | ⟨_, pending⟩
    · exact ⟨s, .refl s, once⟩
    · obtain ⟨t, steps, ended⟩ := can_finish sound (staffed_later staffed_initial reach) running pending
      have atMost := (sound_core (reach.trans steps)).count_ended_le j
      exact ⟨t, steps, le_antisymm atMost (List.count_pos_iff.mpr ended)⟩
  · exact never_finished reach found gone queued steps

def notification (address : Nat) : Envelope where
  kind := .send
  sourceNode := "a"
  target := some ⟨"b", "1", "echo", address, 1⟩

def barrierPing (requestID : Nat) : Envelope where
  kind := .ping
  requestID := requestID
  sourceNode := "a"
  protocol := admissionBarrierProtocol

def crossed : List Action :=
  [.accept "a", .read 0 (notification 0), .submit 0 0, .push 0 0, .read 0 (notification 1), .submit 0 1, .push 0 1,
    .read 0 (barrierPing 7), .take 1 1, .release 1 1, .check 1 1, .acquire 1 1, .deliver 1 1, .finish 1 1, .look 0 0,
    .take 0 0, .release 0 0, .check 0 0, .acquire 0 0, .fail 0 0 (.bare .mailboxTimeout), .finish 0 0, .wake 0 0,
    .look 0 0, .pong 0 0]

theorem admission_watermark_crossed :
    ∃ s, machine.run (initial "b" "1" 2 4 4) crossed = some s ∧ s.ended = [1, 0] ∧ s.received = [1] ∧
      s.ended.count 0 = 1 ∧ At s.conns 0 fun conn => conn.admission.done = 2 ∧
        conn.pongs = [⟨7, admissionBarrierProtocol⟩] ∧ conn.admission.finished 2 = false := by
  have ran : machine.run (initial "b" "1" 2 4 4) crossed = some (machine.after (initial "b" "1" 2 4 4) crossed) :=
    Machine.run_after (by decide +kernel)
  obtain ⟨counters, _, _⟩ := admission_watermark ⟨crossed, ran⟩
  obtain ⟨conn, found, answered⟩ : ∃ conn, (machine.after (initial "b" "1" 2 4 4) crossed).conns[0]? = some conn ∧
      conn.barriers = [⟨7, 2, .clearing, true⟩] ∧ conn.log = [.request 0, .request 1, .barrier 0] ∧
      conn.admission.done = 2 ∧ conn.pongs = [⟨7, admissionBarrierProtocol⟩] := by
    refine at_iff.mp ?_
    decide +kernel
  obtain ⟨barriers, log, done, pongs⟩ := answered
  obtain ⟨_, _, high, answers, _⟩ := counters 0 conn found
  refine ⟨_, ran, by decide +kernel, by decide +kernel, ?_, at_iff.mpr ⟨conn, found, done, pongs, ?_⟩⟩
  · refine (answers 0 ⟨7, 2, .clearing, true⟩ (by simp [barriers])).1 rfl 0 ?_
    rw [log]
    decide
  · rw [Bool.eq_false_iff]
    intro finished
    exact absurd ((high 2).mp finished).2 (by omega)

def stoppedEarly : List Action :=
  [.accept "a", .read 0 (notification 0), .submit 0 0, .push 0 0, .stop, .exit 0]

/-- This notification is never finished. -/
theorem queued_at_stop :
    ∃ s, machine.run (initial "b" "1" 1 4 4) stoppedEarly = some s ∧
      At s.jobs 0 (fun job => job.conn = 0 ∧ job.admissionSeq = 1 ∧ job.envelope = notification 0) ∧
      ∀ t, machine.Reachable s t → t.ended.count 0 = 0 := by
  have ran : machine.run (initial "b" "1" 1 4 4) stoppedEarly =
      some (machine.after (initial "b" "1" 1 4 4) stoppedEarly) :=
    Machine.run_after (by decide +kernel)
  refine ⟨_, ran, by decide +kernel, fun t steps => ?_⟩
  obtain ⟨shard, found, gone, queued⟩ : ∃ shard, (machine.after (initial "b" "1" 1 4 4) stoppedEarly).shards[0]? =
      some shard ∧ shard.worker = .exited ∧ 0 ∈ shard.queue := by
    refine at_iff.mp ?_
    decide +kernel
  exact never_finished ⟨stoppedEarly, ran⟩ found gone queued steps

end Inbound

end Skygo.Transport
