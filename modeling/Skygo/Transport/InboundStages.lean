import Skygo.Transport.InboundOutcome

/-! The life of a request on the inbound side of a node.

A request is at one stage at a time: with the reader of its connection, in a shard's queue, with the
shard's worker, or with the goroutine that waits for its result. A step of the node moves one request
from a stage to another, brings one in, lets one go, or moves none. Everything that is counted over the
node is a sum over stages, so a step changes it by what the two stages weigh.
-/

set_option autoImplicit false

attribute [-instance] instBooleanRingBool

namespace Skygo.Transport

open Semantics

inductive Stage where
  | storing
  | submitting
  | pushing
  | full
  | refused
  | rejected
  | queued
  | releasing
  | checking
  | accepting
  | dispatching
  | waiting
  | responding
  | returning
  deriving DecidableEq

def Reader.stage : Reader → Option (Stage × Nat)
  | .storing j => some (.storing, j)
  | .submitting j => some (.submitting, j)
  | .pushing j => some (.pushing, j)
  | .full j => some (.full, j)
  | .refused j => some (.refused, j)
  | .rejected j => some (.rejected, j)
  | .reading | .leaving | .exited => none

/-- A worker at the deferred `finishAdmission` has nothing left to do for the request. -/
def Worker.stage : Worker → Option (Stage × Nat)
  | .releasing j => some (.releasing, j)
  | .checking j => some (.checking, j)
  | .accepting j => some (.accepting, j)
  | .dispatching j => some (.dispatching, j)
  | .idle | .ended _ | .exited => none

def Reply.stage (reply : Reply) : Option (Stage × Nat) :=
  match reply.place with
  | .waiting => some (.waiting, reply.job)
  | .responding _ => some (.responding, reply.job)
  | .releasing => some (.returning, reply.job)
  | .returned => none

def weigh (W : Stage → Nat → Nat) : Option (Stage × Nat) → Nat
  | some (stage, j) => W stage j
  | none => 0

def Shard.weigh (W : Stage → Nat → Nat) (shard : Shard) : Nat :=
  (shard.queue.map (W .queued)).sum + Transport.weigh W shard.worker.stage

def Stage.isOpen : Stage → Bool
  | .storing | .responding | .returning => false
  | _ => true

attribute [grind] Reader.stage Worker.stage Reply.stage weigh Shard.weigh Stage.isOpen

namespace Inbound

variable {s t : Inbound} {W : Stage → Nat → Nat} {c j w r : Nat}

def census (s : Inbound) (W : Stage → Nat → Nat) : Nat :=
  (s.conns.map fun conn => weigh W conn.reader.stage).sum + (s.shards.map (Shard.weigh W)).sum +
    (s.replies.map fun reply => weigh W reply.stage).sum

def slotAt : Option (Stage × Nat) → Nat
  | some (.pushing, _) | some (.full, _) | some (.queued, _) | some (.releasing, _) => 1
  | _ => 0

def callAt (s : Inbound) : Option (Stage × Nat) → Nat
  | some (.dispatching, j) => if At s.jobs j fun job => job.envelope.kind = .call then 1 else 0
  | some (.waiting, _) | some (.responding, _) | some (.returning, _) => 1
  | _ => 0

/-- What `conn.calls` holds for a request ID. -/
def entry (s : Inbound) (c id : Nat) : Option Nat := (s.conns[c]?).bind fun conn => conn.calls id

def Turned (s : Inbound) (j : Nat) (notice : Notice) : Prop :=
  notice.job = j ∧ At s.jobs j fun job =>
    job.envelope.kind ≠ .send → ∃ err, notice = .response j job.envelope.requestID (some err)

inductive Passage (s : Inbound) : Option (Stage × Nat) → Option (Stage × Nat) → List Notice → Prop where
  | stays : Passage s none none []
  | readCall : Passage s none (some (.storing, s.jobs.length)) []
  | readSend : Passage s none (some (.submitting, s.jobs.length)) []
  | store (j : Nat) : Passage s (some (.storing, j)) (some (.submitting, j)) []
  | slot (j w : Nat) : At s.jobs j (fun job => s.shardOf job.envelope = some w) → s.slots < s.inboundQueue →
      Passage s (some (.submitting, j)) (some (.pushing, j)) []
  | noSlot (j : Nat) : Passage s (some (.submitting, j)) (some (.refused, j)) []
  | enqueue (j : Nat) : Passage s (some (.pushing, j)) (some (.queued, j)) []
  | noRoom (j : Nat) :
      At s.jobs j (fun job => ∀ w, s.shardOf job.envelope = some w →
        ¬ At s.shards w fun shard => shard.queue.length < s.inboundQueue) →
      Passage s (some (.pushing, j)) (some (.full, j)) []
  | restore (j : Nat) : Passage s (some (.full, j)) (some (.refused, j)) []
  | refuse (j : Nat) : Passage s (some (.refused, j)) (some (.rejected, j)) []
  | reject (j : Nat) (notice : Notice) : s.Turned j notice → Passage s (some (.rejected, j)) none [notice]
  | take (j : Nat) : Passage s (some (.queued, j)) (some (.releasing, j)) []
  | release (j : Nat) : Passage s (some (.releasing, j)) (some (.checking, j)) []
  | check (j : Nat) : Passage s (some (.checking, j)) (some (.accepting, j)) []
  | discard (j : Nat) : At s.jobs j (fun job => job.canceled = true) →
      Passage s (some (.checking, j)) none [.discard j]
  | acquire (j : Nat) : (At s.jobs j (fun job => job.envelope.kind = .call) → s.calls < s.maxInboundCalls) →
      Passage s (some (.accepting, j)) (some (.dispatching, j)) []
  | stale (j : Nat) (notice : Notice) : s.Turned j notice → Passage s (some (.accepting, j)) none [notice]
  | deliverCall (j : Nat) : At s.jobs j (fun job => job.envelope.kind = .call) →
      Passage s (some (.dispatching, j)) (some (.waiting, j)) []
  | deliverSend (j : Nat) : At s.jobs j (fun job => job.envelope.kind = .send) →
      Passage s (some (.dispatching, j)) none []
  | fail (j : Nat) (notice : Notice) : s.Turned j notice → Passage s (some (.dispatching, j)) none [notice]
  | complete (j : Nat) : Passage s (some (.waiting, j)) (some (.responding, j)) []
  | cutOff (j : Nat) : s.stopped = true → Passage s (some (.waiting, j)) (some (.returning, j)) []
  | respond (j id : Nat) (err : Option Actor.Fault) : At s.jobs j (fun job => job.envelope.requestID = id) →
      Passage s (some (.responding, j)) (some (.returning, j)) [.response j id err]
  | silent (j : Nat) : At s.jobs j (fun job => job.canceled = true) →
      Passage s (some (.responding, j)) (some (.returning, j)) []
  | free (j : Nat) : Passage s (some (.returning, j)) none []

inductive Recorded (s : Inbound) : Option (Stage × Nat) → Option (Stage × Nat) → List InboundJob → Prop where
  | same {before after : Option (Stage × Nat)} : before = none → after = none → Recorded s before after s.jobs
  | moved {before after : Option (Stage × Nat)} : before ≠ none →
      (∀ j, before = some (.waiting, j) → after ≠ some (.returning, j)) → Recorded s before after s.jobs
  | cancel (i : Nat) : Recorded s none none (s.jobs.modify i fun job => { job with canceled := true })
  | cutOff (j : Nat) : Recorded s (some (.waiting, j)) (some (.returning, j))
      (s.jobs.modify j fun job => { job with canceled := true })
  | read {stage : Stage} (job : InboundJob) : job.canceled = false →
      (job.envelope.kind = .call ∧ stage = .storing) ∨ (job.envelope.kind = .send ∧ stage = .submitting) →
      Recorded s none (some (stage, s.jobs.length)) (s.jobs ++ [job])

def openFor (j : Nat) : Option (Stage × Nat) → Bool
  | some (stage, i) => i = j && stage.isOpen
  | none => false

/-- What becomes of `conn.calls`. -/
inductive Mapped (s t : Inbound) : Option (Stage × Nat) → Option (Stage × Nat) → Prop where
  | same {before after : Option (Stage × Nat)} : (∀ c id, t.entry c id = s.entry c id) →
      (∀ j, At t.jobs j (fun job => job.envelope.kind = .call) → openFor j before = openFor j after) →
      Mapped s t before after
  | store (c j : Nat) (job : InboundJob) : s.jobs[j]? = some job → At s.conns c (fun conn => conn.reader = .storing j) →
      (∀ d id, t.entry d id = if d = c ∧ id = job.envelope.requestID then some j else s.entry d id) →
      Mapped s t (some (.storing, j)) (some (.submitting, j))
  | forget (j : Nat) (job : InboundJob) {stage : Stage} {after : Option (Stage × Nat)} : s.jobs[j]? = some job →
      job.envelope.kind ≠ .send → stage.isOpen = true → openFor j after = false →
      (∀ d id, t.entry d id = if d = job.conn ∧ id = job.envelope.requestID then none else s.entry d id) →
      Mapped s t (some (stage, j)) after

structure Passes (s t : Inbound) (before after : Option (Stage × Nat)) (told : List Notice) : Prop where
  passage : s.Passage before after told
  census : ∀ W, t.census W + weigh W before = s.census W + weigh W after
  slots : t.slots = s.slots + slotAt after - slotAt before
  calls : t.calls = s.calls + s.callAt after - s.callAt before
  inboundQueue : t.inboundQueue = s.inboundQueue
  maxInboundCalls : t.maxInboundCalls = s.maxInboundCalls
  shards : t.shards.length = s.shards.length
  notices : t.notices = s.notices ++ told
  jobs : s.Recorded before after t.jobs
  entries : Mapped s t before after

attribute [grind] Turned census slotAt callAt entry openFor

section TurnAway

@[grind =]
theorem census_finishAdmission (s : Inbound) (j : Nat) : (s.finishAdmission j).census W = s.census W := by
  unfold finishAdmission
  split
  · next job _ =>
    have same : ((s.setConn job.conn fun conn => conn.finishAdmission job.admissionSeq).conns.map
        fun conn => weigh W conn.reader.stage) = s.conns.map fun conn => weigh W conn.reader.stage :=
      map_modify_same (by grind)
    simp only [census, same]
    rfl
  · rfl

@[grind =]
theorem entry_finishAdmission (s : Inbound) (j c id : Nat) : (s.finishAdmission j).entry c id = s.entry c id := by
  unfold finishAdmission
  split
  · simp only [entry, setConn, List.getElem?_modify]
    cases s.conns[c]? <;> grind
  · rfl

theorem entry_forgetCall (s : Inbound) (job : InboundJob) (d id : Nat) :
    (s.forgetCall job).entry d id =
      if d = job.conn ∧ id = job.envelope.requestID then none else s.entry d id := by
  unfold entry forgetCall setConn
  by_cases here : d = job.conn
  · subst here
    cases found : s.conns[job.conn]? with
    | none => simp [found]
    | some conn =>
      rw [lookup_modify_self found]
      by_cases same : id = job.envelope.requestID <;> simp [same]
  · rw [List.getElem?_modify_ne _ _ (Ne.symm here)]
    simp [here]

theorem census_forgetCall (s : Inbound) (job : InboundJob) : (s.forgetCall job).census W = s.census W := by
  have same : ((s.forgetCall job).conns.map fun conn => weigh W conn.reader.stage) =
      s.conns.map fun conn => weigh W conn.reader.stage := map_modify_same fun _ _ => rfl
  unfold census
  rw [same]
  rfl

structure TurnedAway (s t : Inbound) (j : Nat) (notice : Notice) : Prop where
  notices : t.notices = s.notices ++ [notice]
  jobs : t.jobs = s.jobs
  shards : t.shards = s.shards
  replies : t.replies = s.replies
  slots : t.slots = s.slots
  calls : t.calls = s.calls
  inboundQueue : t.inboundQueue = s.inboundQueue
  maxInboundCalls : t.maxInboundCalls = s.maxInboundCalls
  census : ∀ W, t.census W = s.census W
  entries : ∀ stage : Stage, stage.isOpen = true → Mapped s t (some (stage, j)) none

theorem turnedAway {job : InboundJob} (found : s.jobs[j]? = some job) (err : Actor.Fault) :
    ∃ notice, s.Turned j notice ∧ TurnedAway s (s.turnAway j err) j notice := by
  simp only [turnAway, found]
  split
  · next send =>
    exact ⟨_, ⟨rfl, by grind⟩, rfl, rfl, rfl, rfl, rfl, rfl, rfl, rfl, fun _ => rfl,
      fun stage _ => .same (fun _ _ => rfl) (by grind)⟩
  · next other =>
    exact ⟨_, ⟨rfl, by grind⟩, rfl, rfl, rfl, rfl, rfl, rfl, rfl, rfl, fun _ => census_forgetCall ..,
      fun stage isOpen => .forget j job found other isOpen rfl fun _ _ => entry_forgetCall ..⟩

theorem discarded {job : InboundJob} (found : s.jobs[j]? = some job) (other : job.envelope.kind ≠ .send) :
    TurnedAway s ((s.forgetCall job).notify (.discard j)) j (.discard j) :=
  ⟨rfl, rfl, rfl, rfl, rfl, rfl, rfl, rfl, fun _ => census_forgetCall ..,
    fun _ isOpen => .forget j job found other isOpen rfl fun _ _ => entry_forgetCall ..⟩

theorem Mapped.transport {u : Inbound} {before after : Option (Stage × Nat)} (mapped : Mapped s u before after)
    (conns : t.conns = u.conns) (jobs : t.jobs = u.jobs) : Mapped s t before after := by
  have same (d id : Nat) : t.entry d id = u.entry d id := by rw [entry, entry, conns]
  cases mapped with
  | same kept still => exact .same (fun d id => (same d id).trans (kept d id)) (jobs ▸ still)
  | store c j job found storing stored => exact .store c j job found storing fun d id => (same d id).trans (stored d id)
  | forget j job found other isOpen closed forgot =>
    exact .forget j job found other isOpen closed fun d id => (same d id).trans (forgot d id)

end TurnAway

section Steps

theorem Passes.quiet (census : ∀ W, t.census W = s.census W) (entries : ∀ c id, t.entry c id = s.entry c id)
    (slots : t.slots = s.slots) (calls : t.calls = s.calls) (inboundQueue : t.inboundQueue = s.inboundQueue)
    (maxInboundCalls : t.maxInboundCalls = s.maxInboundCalls) (shards : t.shards.length = s.shards.length)
    (notices : t.notices = s.notices)
    (jobs : t.jobs = s.jobs ∨ ∃ i, t.jobs = s.jobs.modify i fun job => { job with canceled := true }) :
    Passes s t none none [] where
  passage := .stays
  census := census
  slots := slots
  calls := calls
  inboundQueue := inboundQueue
  maxInboundCalls := maxInboundCalls
  shards := shards
  notices := by rw [notices, List.append_nil]
  jobs := by
    rcases jobs with same | ⟨i, canceled⟩
    · rw [same]
      exact .same rfl rfl
    · rw [canceled]
      exact .cancel i
  entries := .same entries fun _ _ => rfl

theorem Passes.cancel (s : Inbound) (j : Nat) : Passes s (s.cancel j) none none [] :=
  .quiet (fun _ => rfl) (fun _ _ => rfl) rfl rfl rfl rfl rfl rfl (.inr ⟨j, rfl⟩)

def subject (s : Inbound) : Action → Option Nat
  | .store _ j | .submit _ j | .push _ j | .restore _ j | .refuse _ j | .reject _ j => some j
  | .take _ j | .release _ j | .check _ j | .acquire _ j | .deliver _ j | .fail _ j _ | .finish _ j => some j
  | .complete _ j _ | .cutOff _ j | .respond _ j _ => some j
  | .free r => (s.replies[r]?).map Reply.job
  | _ => none

def Acts (s : Inbound) (j : Option Nat) (t : Inbound) : Prop :=
  ∃ before after told, Passes s t before after told ∧ ∀ place, before = some place → j = some place.2

variable {told : List Notice}

theorem Passes.acts {before after : Option (Stage × Nat)} (passes : Passes s t before after told)
    {j : Option Nat} (about : ∀ place, before = some place → j = some place.2) : Acts s j t :=
  ⟨before, after, told, passes, about⟩

theorem Passes.acts_quiet {after : Option (Stage × Nat)} {i : Option Nat}
    (passes : Passes s t none after told) : Acts s i t := passes.acts fun _ is => by cases is

theorem Passes.acts_on {stage : Stage} {after : Option (Stage × Nat)}
    (passes : Passes s t (some (stage, j)) after told) : Acts s (some j) t :=
  passes.acts fun place is => by cases is; rfl

theorem acts_withJob {f : InboundJob → Inbound} {i : Option Nat}
    (acts : ∀ job, s.jobs[j]? = some job → Acts s i (f job)) : Acts s i (s.withJob j f) := by
  unfold withJob
  split
  · next job found => exact acts job found
  · exact Passes.acts_quiet (.quiet (fun _ => rfl) (fun _ _ => rfl) rfl rfl rfl rfl rfl rfl (.inl rfl))

theorem acts_read (known : At s.conns c fun conn => conn.reader = .reading) (e : Envelope) :
    Acts s none (s.read c e) := by
  obtain ⟨conn, found, idle⟩ := at_iff.mp known
  -- a CALL or a SEND is a new request; no other frame moves one
  simp only [read, found]
  split
  · exact Passes.acts_quiet (by apply Passes.quiet <;> grind)
  · split
    · next call =>
      refine Passes.acts_quiet ⟨.readCall, ?_, ?_, ?_, ?_, ?_, ?_, ?_, .read _ rfl (.inl ⟨call, rfl⟩), .same ?_ ?_⟩ <;> grind
    · next send =>
      refine Passes.acts_quiet ⟨.readSend, ?_, ?_, ?_, ?_, ?_, ?_, ?_, .read _ rfl (.inr ⟨send, rfl⟩), .same ?_ ?_⟩ <;> grind
    · split
      · next j _ => refine Passes.acts_quiet (.quiet ?_ ?_ ?_ ?_ ?_ ?_ ?_ ?_ (.inr ⟨j, rfl⟩)) <;> grind
      · exact Passes.acts_quiet (by apply Passes.quiet <;> grind)
    · split
      · exact Passes.acts_quiet (by apply Passes.quiet <;> grind)
      · exact Passes.acts_quiet (by apply Passes.quiet <;> grind)
    · exact Passes.acts_quiet (by apply Passes.quiet <;> grind)

theorem Passes.conclude {u : Inbound} {stage : Stage} {notice : Notice} {calls : Nat}
    (known : At s.shards w fun shard => shard.worker.stage = some (stage, j))
    (passage : s.Passage (some (stage, j)) none [notice]) (isOpen : stage.isOpen = true)
    (turned : TurnedAway s u j notice) (slots : slotAt (some (stage, j)) = 0)
    (less : calls = u.calls - s.callAt (some (stage, j))) :
    Passes s { u.conclude w j with calls := calls } (some (stage, j)) none [notice] where
  passage := passage
  census W := by
    have same := turned.census W
    have shards := turned.shards
    grind
  slots := by rw [slots]; exact turned.slots
  calls := by rw [less, turned.calls]; rfl
  inboundQueue := turned.inboundQueue
  maxInboundCalls := turned.maxInboundCalls
  shards := by
    have shards := turned.shards
    grind
  notices := turned.notices
  jobs := by
    have jobs := turned.jobs
    exact jobs ▸ .moved (by simp) (by simp)
  entries := (turned.entries stage isOpen).transport rfl rfl

variable {job : InboundJob}

section

variable (found : s.jobs[j]? = some job)
include found

theorem acts_submit
    (known : At s.conns c fun conn => conn.reader = .submitting j) : Acts s (some j) (s.submit c j job) := by
  have refused : Acts s (some j) (s.setReader c (.refused j)) := by
    refine Passes.acts_on ⟨.noSlot j, ?_, ?_, ?_, ?_, ?_, ?_, ?_, .moved (by simp) (by simp), .same ?_ ?_⟩ <;> grind
  unfold submit
  split
  · exact refused
  · next w sharded =>
    split
    · next room =>
      have passage := Passage.slot j w (at_iff.mpr ⟨job, found, sharded⟩) room
      refine Passes.acts_on ⟨passage, ?_, ?_, ?_, ?_, ?_, ?_, ?_, .moved (by simp) (by simp), .same ?_ ?_⟩ <;> grind
    · exact refused

theorem acts_push (known : At s.conns c fun conn => conn.reader = .pushing j) : Acts s (some j) (s.push c j job) := by
  have full (crowded : ∀ w, s.shardOf job.envelope = some w →
      ¬ At s.shards w fun shard => shard.queue.length < s.inboundQueue) : Acts s (some j) (s.setReader c (.full j)) := by
    have passage := Passage.noRoom j (at_iff.mpr ⟨job, found, crowded⟩)
    refine Passes.acts_on ⟨passage, ?_, ?_, ?_, ?_, ?_, ?_, ?_, .moved (by simp) (by simp), .same ?_ ?_⟩ <;> grind
  unfold push
  split
  · exact full (by grind)
  · next w sharded =>
    split
    · -- it leaves the reader and enters the queue, each a change of the census
      refine Passes.acts_on ⟨.enqueue j, ?_, ?_, ?_, ?_, ?_, ?_, ?_, .moved (by simp) (by simp), .same ?_ ?_⟩ <;> grind
    · exact full (by grind)

theorem acts_reject (known : At s.conns c fun conn => conn.reader = .rejected j) (err : Actor.Fault) :
    Acts s (some j) ((s.setReader c .reading).turnAway j err) := by
  -- the reader has gone on when the request is turned away
  obtain ⟨notice, turned, away⟩ := turnedAway (s := s.setReader c .reading) (j := j) found err
  have entries : ∀ d id, (s.setReader c .reading).entry d id = s.entry d id := by grind
  refine Passes.acts_on ⟨.reject j notice turned, fun W => ?_, away.slots, away.calls, away.inboundQueue,
    away.maxInboundCalls, congrArg _ away.shards, away.notices, ?_, ?_⟩
  · rw [away.census]
    grind
  · rw [away.jobs]
    exact .moved (by simp) (by simp)
  · cases away.entries .rejected rfl with
    | same kept still => exact .same (fun d id => (kept d id).trans (entries d id)) still
    | forget _ job found other isOpen closed forgot =>
      refine .forget j job found other isOpen closed fun d id => (forgot d id).trans ?_
      rw [entries]

theorem acts_acquire
    (known : At s.shards w fun shard => shard.worker = .accepting j) : Acts s (some j) (s.acquire w j job) := by
  have away (err : Actor.Fault) : Acts s (some j) ((s.turnAway j err).conclude w j) := by
    obtain ⟨notice, turned, away⟩ := turnedAway found err
    exact Passes.acts_on (.conclude (by grind) (.stale j notice turned) rfl away rfl rfl)
  have dispatched (room : job.envelope.kind = .call → s.calls < s.maxInboundCalls) :
      s.Passage (some (.accepting, j)) (some (.dispatching, j)) [] := .acquire j (by grind)
  unfold acquire
  split
  · exact away _
  · split
    · split
      · next room =>
        refine Passes.acts_on ⟨dispatched fun _ => room, ?_, ?_, ?_, ?_, ?_, ?_, ?_,
          .moved (by simp) (by simp), .same ?_ ?_⟩ <;> grind
      · exact away _
    · next other =>
      refine Passes.acts_on ⟨dispatched fun call => absurd call other, ?_, ?_, ?_, ?_, ?_, ?_, ?_,
        .moved (by simp) (by simp), .same ?_ ?_⟩ <;> grind

end

theorem acts_deliver (found : s.jobs[j]? = some job)
    (kind : job.envelope.kind = .call ∨ job.envelope.kind = .send)
    (known : At s.shards w fun shard => shard.worker = .dispatching j) : Acts s (some j) (s.deliver w j job) := by
  -- the worker has nothing left to do for it; a call goes on with a goroutine of its own
  rcases kind with call | send
  · have passage := Passage.deliverCall j (at_iff.mpr ⟨job, found, call⟩)
    refine Passes.acts_on ⟨passage, ?_, ?_, ?_, ?_, ?_, ?_, ?_, .moved (by simp) (by simp), .same ?_ ?_⟩ <;> grind
  · have passage := Passage.deliverSend j (at_iff.mpr ⟨job, found, send⟩)
    refine Passes.acts_on ⟨passage, ?_, ?_, ?_, ?_, ?_, ?_, ?_, .moved (by simp) (by simp), .same ?_ ?_⟩ <;> grind

theorem acts_fail (found : s.jobs[j]? = some job)
    (kind : job.envelope.kind = .call ∨ job.envelope.kind = .send)
    (known : At s.shards w fun shard => shard.worker = .dispatching j) (err : Actor.Fault) :
    Acts s (some j) (s.fail w j job err) := by
  obtain ⟨notice, turned, away⟩ := turnedAway found err
  refine Passes.acts_on (.conclude (by grind) (.fail j notice turned) rfl away rfl ?_)
  rw [away.calls]
  grind

theorem acts_store (found : s.jobs[j]? = some job) (enabled : s.Enabled (.store c j)) :
    Acts s (some j) ((s.setReader c (.submitting j)).setConn c fun conn =>
      { conn with calls := Function.update conn.calls job.envelope.requestID (some j) }) := by
  obtain ⟨conn, there, at_⟩ := at_iff.mp enabled
  refine Passes.acts_on ⟨.store j, ?_, rfl, rfl, rfl, rfl, rfl, (List.append_nil _).symm, .moved (by simp) (by simp),
    .store c j job found enabled fun d id => ?_⟩
  · grind
  · unfold entry setReader setConn
    by_cases here : d = c
    · subst here
      rw [lookup_modify_self (lookup_modify_self there), there]
      by_cases same : id = job.envelope.requestID <;> simp [same]
    · rw [List.getElem?_modify_ne _ _ (Ne.symm here), List.getElem?_modify_ne _ _ (Ne.symm here)]
      simp [here]

theorem acts_complete (told : s.Told) (found : s.jobs[j]? = some job) {err : Option Actor.Fault}
    (enabled : s.Enabled (.complete r j err)) : Acts s (some j) ((s.forgetCall job).setReply r (.responding err)) := by
  obtain ⟨reply, there, rfl, at_⟩ := at_iff.mp enabled
  have answers := (told.replies reply (List.mem_of_getElem? there)).here found
  have passage : s.Passage (some (.waiting, reply.job)) (some (.responding, reply.job)) [] := .complete reply.job
  refine Passes.acts_on ⟨passage, fun W => ?_, ?_, ?_, ?_, ?_, ?_, ?_, .moved (by simp) (by simp),
    .forget reply.job job found answers rfl (by simp [openFor, Stage.isOpen]) (entry_forgetCall s job)⟩
  · have same := census_forgetCall (W := W) s job
    grind
  all_goals grind

theorem acts_cutOff (told : s.Told) (found : s.jobs[j]? = some job) (enabled : s.Enabled (.cutOff r j)) :
    Acts s (some j) (((s.cancel j).forgetCall job).setReply r .releasing) := by
  obtain ⟨reply, there, rfl, at_⟩ := at_iff.mp enabled.1
  have answers := (told.replies reply (List.mem_of_getElem? there)).here found
  refine Passes.acts_on ⟨.cutOff reply.job enabled.2, fun W => ?_, ?_, ?_, ?_, ?_, ?_, ?_, .cutOff reply.job,
    .forget reply.job job found answers rfl (by simp [openFor, Stage.isOpen]) (entry_forgetCall s job)⟩
  · have same := census_forgetCall (W := W) s job
    grind
  all_goals grind

theorem acts_respond (found : s.jobs[j]? = some job) {err : Option Actor.Fault}
    (enabled : s.Enabled (.respond r j err)) : Acts s (some j) (if job.canceled then s.setReply r .releasing
      else (s.notify (.response j job.envelope.requestID err)).setReply r .releasing) := by
  split
  · next canceled =>
    have passage := Passage.silent j (at_iff.mpr ⟨job, found, canceled⟩)
    refine Passes.acts_on ⟨passage, ?_, ?_, ?_, ?_, ?_, ?_, ?_, .moved (by simp) (by simp), .same ?_ ?_⟩ <;> grind
  · have passage := Passage.respond j _ err (at_iff.mpr ⟨job, found, rfl⟩)
    refine Passes.acts_on ⟨passage, ?_, ?_, ?_, ?_, ?_, ?_, rfl, .moved (by simp) (by simp), .same ?_ ?_⟩ <;> grind

theorem acts_free (enabled : s.Enabled (.free r)) : Acts s (s.subject (.free r)) (s.next (.free r)) := by
  obtain ⟨reply, there, at_⟩ := at_iff.mp enabled
  have subject : s.subject (.free r) = some reply.job := by simp [Inbound.subject, there]
  rw [subject]
  refine Passes.acts_on ⟨.free reply.job, ?_, ?_, ?_, ?_, ?_, ?_, ?_, .moved (by simp) (by simp), .same ?_ ?_⟩ <;> grind

theorem acts_next {a : Action} (kinds : ∀ job ∈ s.jobs, job.envelope.kind = .call ∨ job.envelope.kind = .send)
    (told : s.Told) (enabled : s.Enabled a) : Acts s (s.subject a) (s.next a) := by
  have known {j : Nat} {job : InboundJob} (found : s.jobs[j]? = some job) := kinds job (List.mem_of_getElem? found)
  cases a with
  | read c e => exact acts_read (At.mono enabled fun _ holds => holds.1) e
  | store c j => exact acts_withJob fun job found => acts_store found enabled
  | submit c j => exact acts_withJob fun job found => acts_submit found enabled
  | push c j => exact acts_withJob fun job found => acts_push found enabled
  | restore c j =>
    refine Passes.acts_on ⟨.restore j, ?_, ?_, ?_, ?_, ?_, ?_, ?_, .moved (by simp) (by simp), .same ?_ ?_⟩ <;> grind
  | refuse c j =>
    have jobs : (s.next (.refuse c j)).jobs = s.jobs := by grind
    refine Passes.acts_on ⟨.refuse j, ?_, ?_, ?_, ?_, ?_, ?_, ?_, jobs ▸ .moved (by simp) (by simp), .same ?_ ?_⟩ <;> grind
  | reject c j => exact acts_withJob fun job found => acts_reject found enabled _
  | cancelCall c requestID j => exact Passes.acts_quiet (.cancel s j)
  | take w j =>
    obtain ⟨shard, there, idle, head⟩ := at_iff.mp enabled
    obtain ⟨rest, queue⟩ := List.head?_eq_some_iff.mp head
    refine Passes.acts_on ⟨.take j, ?_, ?_, ?_, ?_, ?_, ?_, ?_, .moved (by simp) (by simp), .same ?_ ?_⟩ <;> grind
  | release w j =>
    refine Passes.acts_on ⟨.release j, ?_, ?_, ?_, ?_, ?_, ?_, ?_, .moved (by simp) (by simp), .same ?_ ?_⟩ <;> grind
  | check w j =>
    refine acts_withJob fun job found => ?_
    split
    · next canceled =>
      exact Passes.acts_on (.conclude (by grind) (.discard j (at_iff.mpr ⟨job, found, canceled⟩)) rfl
        (discarded found (told.canceled j job found canceled)) rfl rfl)
    · refine Passes.acts_on ⟨.check j, ?_, ?_, ?_, ?_, ?_, ?_, ?_, .moved (by simp) (by simp), .same ?_ ?_⟩ <;> grind
  | acquire w j => exact acts_withJob fun job found => acts_acquire found enabled
  | deliver w j => exact acts_withJob fun job found => acts_deliver found (known found) enabled
  | fail w j err => exact acts_withJob fun job found => acts_fail found (known found) enabled err
  | complete r j err => exact acts_withJob fun job found => acts_complete told found enabled
  | cutOff r j => exact acts_withJob fun job found => acts_cutOff told found enabled
  | respond r j err => exact acts_withJob fun job found => acts_respond found enabled
  | free r => exact acts_free enabled
  | _ => exact Passes.acts_quiet (by apply Passes.quiet <;> grind)

end Steps

end Inbound

end Skygo.Transport
