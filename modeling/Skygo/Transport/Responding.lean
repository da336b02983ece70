import Skygo.Frame.Frame
import Skygo.Transport.InboundResponse

/-! The response frames of the inbound side.

A response goes out if `WriteLimit` accepts it and the socket is open. The goroutine of an admitted call closes the
connection on any error of its write, and so does the reader with the response to a RESOLVE request; the other writers
of responses ignore the error.
-/

set_option autoImplicit false

namespace Skygo.Transport

open Semantics
open scoped List

structure InboundConn.Shuts (before after : InboundConn) : Prop where
  closing : before.closing = true → after.closing = true
  closed : before.closed = true → after.closed = true

theorem InboundConn.shuts_refl (conn : InboundConn) : conn.Shuts conn := ⟨id, id⟩

def Notice.response? : Notice → Option Nat
  | .response j _ _ => some j
  | _ => none

namespace Inbound

variable {s t : Inbound} {c j : Nat}

theorem shuts_read (s : Inbound) (c : Nat) (e : Envelope) : Grows InboundConn.Shuts s.conns (s.read c e).conns := by
  have moved {f : InboundConn → InboundConn} (same : ∀ conn, conn.Shuts (f conn)) :
      Grows InboundConn.Shuts s.conns (s.conns.modify c f) :=
    .modify InboundConn.shuts_refl c fun conn _ => same conn
  unfold read
  split
  · exact .refl InboundConn.shuts_refl _
  · repeat' split
    case h_4.isTrue =>
      refine moved fun conn => ?_
      unfold InboundConn.barrier
      split <;> exact ⟨id, id⟩
    all_goals exact moved fun _ => ⟨id, id⟩

theorem shuts_next (s : Inbound) (a : Action) : Grows InboundConn.Shuts s.conns (s.next a).conns := by
  have moved (c : Nat) {f : InboundConn → InboundConn} (same : ∀ conn, conn.Shuts (f conn)) :
      Grows InboundConn.Shuts s.conns (s.conns.modify c f) :=
    .modify InboundConn.shuts_refl c fun conn _ => same conn
  cases idle : a.onGate with
  | false =>
    intro i conn found
    obtain ⟨later, there, same⟩ := (quiet_next (s := s) idle).symm.was found
    have closing : later.closing = conn.closing := congrArg Gate.closing same
    have closed : later.closed = conn.closed := congrArg Gate.closed same
    exact ⟨later, there, fun is => closing ▸ is, fun is => closed ▸ is⟩
  | true =>
    cases a with
    | accept remoteNode => exact .append InboundConn.shuts_refl _
    | read c e => exact shuts_read s c e
    | close c => exact moved c fun _ => ⟨fun _ => rfl, id⟩
    | disconnect c => exact moved c fun _ => ⟨id, fun _ => rfl⟩
    | look c b | wake c b | pong c b | giveUp c b | clear c b => exact moved c fun _ => ⟨id, id⟩
    | _ => cases idle

theorem received_grows (s : Inbound) (a : Action) : s.received <+: (s.next a).received := by
  cases a with
  | deliver w j =>
    dsimp only [next, withJob]
    split
    · exact List.prefix_append ..
    · exact List.prefix_rfl
  | _ =>
    dsimp only [next, withJob, read, beginAdmission, submit, push, acquire, fail, turnAway, finishAdmission]
    repeat' split
    all_goals exact List.prefix_rfl

theorem conn_next {a : Action} (enabled : s.Enabled a) (known : At s.jobs j fun job => job.conn = c) :
    At (s.next a).jobs j fun job => job.conn = c := by
  obtain ⟨job, found, is⟩ := at_iff.mp known
  have face : (s.jobs.map InboundJob.face)[j]? = some job.face := by rw [List.getElem?_map, found]; rfl
  have later := lookup_prefix (jobs_grow enabled) face
  rw [List.getElem?_map] at later
  obtain ⟨after, there, same⟩ := Option.map_eq_some_iff.mp later
  exact at_iff.mpr ⟨after, there, (congrArg Prod.fst same).trans is⟩

end Inbound

/-- A response of the inbound side: to a call, or to a RESOLVE request that the reader of a connection has got. -/
inductive Answer where
  | response (j : Nat)
  | resolved (c : Nat) (e : Envelope)
  deriving DecidableEq

def Answer.reader : Answer → Option Nat
  | .response _ => none
  | .resolved c _ => some c

structure Responding where
  inbound : Inbound
  /-- The calls whose response went out, in order. -/
  written : List Nat := []
  /-- Whoever failed to write one of these has not returned from `close`. -/
  failing : List Answer := []

namespace Responding

def isOpen (s : Responding) (j : Nat) : Bool :=
  At s.inbound.jobs j fun job => At s.inbound.conns job.conn fun conn => conn.closed = false

/-- `close` has ended the connection's context and closed its socket. -/
def Closed (s : Responding) (c : Nat) : Prop :=
  At s.inbound.conns c fun conn => conn.closing = true ∧ conn.closed = true

instance (s : Responding) (c : Nat) : Decidable (s.Closed c) := by
  unfold Closed
  infer_instance

def responds (s : Responding) (a : Inbound.Action) : List Nat :=
  ((s.inbound.next a).notices.drop s.inbound.notices.length).filterMap Notice.response?

/-- What the services receive with the step. -/
def receives (s : Responding) (a : Inbound.Action) : List Nat := (s.inbound.next a).received.drop s.inbound.received.length

/-- The envelope makes the reader call `resolve`. -/
def Resolves (s : Responding) (c : Nat) (e : Envelope) : Prop :=
  e.kind = .resolveRequest ∧ e.version = protocolVersion ∧ At s.inbound.conns c fun conn => e.sourceNode = conn.remoteNode

instance (s : Responding) (c : Nat) (e : Envelope) : Decidable (s.Resolves c e) := by
  unfold Resolves
  infer_instance

inductive Action where
  | inbound (a : Inbound.Action)
  | closed (answer : Answer)
  deriving DecidableEq

/-- A goroutine that has to close the connection does not end before, and a reader does not read on. -/
def mayEnd (s : Responding) : Inbound.Action → Bool
  | .free r => At s.inbound.replies r fun reply => .response reply.job ∉ s.failing
  | .read c _ | .readFailed c => s.failing.all fun answer => answer.reader ≠ some c
  | _ => true

def On (s : Responding) (c j : Nat) : Prop := At s.inbound.jobs j fun job => job.conn = c

instance (s : Responding) (c j : Nat) : Decidable (s.On c j) := by
  unfold On
  infer_instance

def Of (s : Responding) (c : Nat) : Answer → Prop
  | .response j => s.On c j
  | .resolved d _ => d = c

def Enabled (s : Responding) : Action → Prop
  | .inbound a => s.inbound.Enabled a ∧ s.mayEnd a = true
  -- `close` returns to everybody when the one that runs it has closed the socket
  | .closed answer => answer ∈ s.failing ∧
      match answer with
      | .response j => At s.inbound.jobs j fun job => s.Closed job.conn
      | .resolved c _ => s.Closed c

section Size

variable (max : UInt32) (size : Answer → Nat)

def goesOut (s : Responding) (j : Nat) : Bool := !Frame.oversized max (size (.response j)) && s.isOpen j

/-- The response whose writer has to close the connection. -/
def fails (s : Responding) : Inbound.Action → List Answer
  | .respond _ j _ =>
      if (At s.inbound.jobs j fun job => job.canceled = false) ∧ s.goesOut max size j = false then [.response j] else []
  | .read c e => if s.Resolves c e ∧ Frame.oversized max (size (.resolved c e)) = true then [.resolved c e] else []
  | _ => []

def next (s : Responding) : Action → Responding
  | .inbound a =>
      { inbound := s.inbound.next a
        written := s.written ++ (s.responds a).filter (s.goesOut max size)
        failing := s.failing ++ s.fails max size a }
  | .closed answer => { s with failing := s.failing.erase answer }

def machine : Machine Responding Action where
  Enabled := Enabled
  next := next max size
  decideEnabled s a := by
    cases a with
    | inbound a =>
      exact inferInstanceAs (Decidable (Inbound.machine.Enabled s.inbound a ∧ s.mayEnd a = true))
    | closed answer => cases answer <;> unfold Enabled <;> infer_instance

end Size

variable {s t u : Responding} {max : UInt32} {size : Answer → Nat} {c j : Nat} {answer : Answer}

theorem on_next {a : Action} (on : s.On c j) (enabled : s.Enabled a) : (s.next max size a).On c j := by
  cases a with
  | inbound a => exact Inbound.conn_next enabled.1 on
  | closed k => exact on

theorem of_next {a : Action} (of : s.Of c answer) (enabled : s.Enabled a) : (s.next max size a).Of c answer := by
  cases answer with
  | response j => exact on_next of enabled
  | resolved d e => exact of

theorem closed_next {a : Action} (closed : s.Closed c) : (s.next max size a).Closed c := by
  cases a with
  | inbound a =>
    exact (Inbound.shuts_next s.inbound a).at_mono closed fun _ _ shuts is => ⟨shuts.closing is.1, shuts.closed is.2⟩
  | closed k => exact closed

theorem Closed.silent (closed : s.Closed c) (on : s.On c j) : s.goesOut max size j = false := by
  obtain ⟨conn, there, _, shut⟩ := at_iff.mp closed
  obtain ⟨job, found, rfl⟩ := at_iff.mp on
  have gone : s.isOpen j = false := by simp [isOpen, At, found, there, shut]
  rw [goesOut, gone, Bool.and_false]

def Silent (s : Responding) (k : Nat) (u : Responding) : Prop := ∃ rest, u.written = s.written ++ rest ∧ k ∉ rest

theorem Silent.refl (s : Responding) (k : Nat) : s.Silent k s := ⟨[], by rw [List.append_nil], by simp⟩

theorem Silent.not_mem {k : Nat} (silent : s.Silent k u) : k ∉ u.written.drop s.written.length := by
  obtain ⟨rest, grown, silent⟩ := silent
  rw [grown, List.drop_left]
  exact silent

theorem silent_next {a : Action} {k : Nat} (silent : s.Silent k u)
    (kept : ∀ b, a = .inbound b → k ∈ u.responds b → u.goesOut max size k = false) : s.Silent k (u.next max size a) := by
  obtain ⟨rest, grown, silent⟩ := silent
  cases a with
  | inbound a =>
    refine ⟨rest ++ (u.responds a).filter (u.goesOut max size), ?_, fun member => ?_⟩
    · show u.written ++ _ = _
      rw [grown, List.append_assoc]
    · rcases List.mem_append.mp member with old | fresh
      · exact silent old
      · obtain ⟨answered, out⟩ := List.mem_filter.mp fresh
        rw [kept a rfl answered] at out
        cases out
  | closed answer => exact ⟨rest, grown, silent⟩

theorem Closed.forever (closed : u.Closed c) (on : u.On c j) (silent : s.Silent j u)
    (reach : (machine max size).Reachable u t) : s.Silent j t := by
  refine (reach.invariant (I := fun v => s.Silent j v ∧ v.Closed c ∧ v.On c j) ⟨silent, closed, on⟩ ?_).1
  rintro v a ⟨silent, closed, on⟩ enabled
  exact ⟨silent_next silent fun _ _ _ => closed.silent on, closed_next closed, on_next on enabled⟩

/-- The step is the write of a response that `WriteLimit` rejects, by a writer that closes the connection on an error. -/
inductive Hits (max : UInt32) (size : Answer → Nat) (c : Nat) (s : Responding) : Inbound.Action → Answer → Prop where
  | response (r j : Nat) (err : Option Actor.Fault) : s.inbound.Enabled (.respond r j err) →
      (At s.inbound.jobs j fun job => job.canceled = false) → s.On c j →
      Frame.oversized max (size (.response j)) = true → Hits max size c s (.respond r j err) (.response j)
  | resolved (e : Envelope) : s.inbound.Enabled (.read c e) → s.mayEnd (.read c e) = true → s.Resolves c e →
      Frame.oversized max (size (.resolved c e)) = true → Hits max size c s (.read c e) (.resolved c e)

section Hits

variable {a : Inbound.Action} {actions : List Action}

theorem Hits.enabled (hits : s.Hits max size c a answer) : s.Enabled (.inbound a) := by
  cases hits with
  | response r j err responding => exact ⟨responding, rfl⟩
  | resolved e reading free => exact ⟨reading, free⟩

theorem Hits.of (hits : s.Hits max size c a answer) : s.Of c answer := by
  cases hits with
  | response r j err _ _ on => exact on
  | resolved e => exact rfl

/-- The rejected response and no other fails, nothing goes out, and nothing is received. -/
theorem Hits.first (hits : s.Hits max size c a answer) :
    answer ∈ (s.next max size (.inbound a)).failing ∧ (s.next max size (.inbound a)).written = s.written ∧
      (s.next max size (.inbound a)).inbound.received = s.inbound.received := by
  cases hits with
  | response r j err _ live _ large =>
    have out : s.goesOut max size j = false := by rw [goesOut, large]; rfl
    obtain ⟨job, found, going⟩ := at_iff.mp live
    refine ⟨List.mem_append_right _ ?_, ?_, ?_⟩
    · rw [fails, if_pos ⟨live, out⟩]
      exact List.mem_singleton_self _
    · simp [next, responds, Inbound.next, Inbound.withJob, found, going, Inbound.notify, Inbound.setReply, Notice.response?, out]
    · simp [next, Inbound.next, Inbound.withJob, found, going, Inbound.notify, Inbound.setReply]
  | resolved e _ _ resolves large =>
    obtain ⟨kind, version, source⟩ := id resolves
    obtain ⟨conn, found, same⟩ := at_iff.mp source
    refine ⟨List.mem_append_right _ ?_, ?_, ?_⟩
    · rw [fails, if_pos ⟨resolves, large⟩]
      exact List.mem_singleton_self _
    · simp [next, responds, Inbound.next, Inbound.read, found, version, same, kind, Inbound.setConn]
    · simp [next, Inbound.next, Inbound.read, found, version, same, kind, Inbound.setConn]

/-- The connection is closed when the writer has returned from `close`. -/
theorem Hits.closes (hits : s.Hits max size c a answer)
    (ran : (machine max size).run (s.next max size (.inbound a)) actions = some t) :
    t.Of c answer ∧ (answer ∈ t.failing ∨ t.Closed c) := by
  refine Machine.run_keeps (I := fun u => u.Of c answer ∧ (answer ∈ u.failing ∨ u.Closed c))
    (fun u b known enabled => ⟨of_next known.1 enabled, ?_⟩) ran ⟨of_next hits.of hits.enabled, .inl hits.first.1⟩
  rcases known.2 with failing | closed
  · cases b with
    | inbound b => exact .inl (List.mem_append_left _ failing)
    | closed other =>
      by_cases own : answer = other
      · subst own
        cases answer with
        | response j =>
          obtain ⟨job, found, closed⟩ := at_iff.mp enabled.2
          obtain rfl : job.conn = c := known.1.here found
          exact .inr closed
        | resolved d e =>
          obtain rfl : d = c := known.1
          exact .inr enabled.2
      · exact .inl ((List.mem_erase_of_ne own).mpr failing)
  · exact .inr (closed_next closed)

end Hits

/-- The request has come out well since, or still can: a notification was received or its context has not ended, and a
response to a call went out or still can. -/
def Unharmed (max : UInt32) (size : Answer → Nat) (s t : Responding) (k : Nat) : Prop :=
  At t.inbound.jobs k fun job =>
    if job.envelope.kind = .send then
      k ∈ t.inbound.received.drop s.inbound.received.length ∨ At t.inbound.conns job.conn fun conn => conn.closing = false
    else ∃ u, (machine max size).Reachable t u ∧ k ∈ u.written.drop s.written.length

/-- The other requests that were under way on the connection are unharmed. -/
def Isolated (max : UInt32) (size : Answer → Nat) (c : Nat) (answer : Answer) (s t : Responding) : Prop :=
  ∀ k, s.On c k → 0 < s.inbound.handling k → answer ≠ .response k → s.Unharmed max size t k

/-- No other request is under way on the connection. -/
def Alone (c : Nat) (answer : Answer) (s : Responding) : Prop :=
  ∀ k, s.On c k → 0 < s.inbound.handling k → answer = .response k

/-- The step neither gives a request of the connection to its service nor writes a response to another one. -/
def Undisturbed (c : Nat) (answer : Answer) (u : Responding) : Action → Prop
  | .inbound a => (∀ k ∈ u.receives a, ¬ u.On c k) ∧ ∀ k ∈ u.responds a, u.On c k → answer = .response k
  | .closed _ => True

instance (c : Nat) (answer : Answer) (u : Responding) (a : Action) : Decidable (u.Undisturbed c answer a) := by
  rcases a with _ | _ <;> dsimp only [Undisturbed] <;> infer_instance

structure Untouched (s : Responding) (c k : Nat) (u : Responding) : Prop where
  on : u.On c k
  unwritten : s.Silent k u
  unreceived : ∃ rest, u.inbound.received = s.inbound.received ++ rest ∧ k ∉ rest

theorem untouched_next {a : Action} {k : Nat} (untouched : s.Untouched c k u) (other : answer ≠ .response k)
    (undisturbed : u.Undisturbed c answer a) (enabled : u.Enabled a) : s.Untouched c k (u.next max size a) := by
  obtain ⟨on, unwritten, received, got, unreceived⟩ := untouched
  refine ⟨on_next on enabled, silent_next unwritten ?_, ?_⟩
  · rintro b rfl answered
    exact absurd (undisturbed.2 k answered on) other
  · cases a with
    | inbound a =>
      refine ⟨received ++ u.receives a, ?_, fun member => ?_⟩
      · show (u.inbound.next a).received = _
        rw [← List.append_assoc, ← got]
        exact (List.prefix_iff_eq_append.mp (Inbound.received_grows u.inbound a)).symm
      · rcases List.mem_append.mp member with old | fresh
        · exact unreceived old
        · exact undisturbed.1 k fresh on
    | closed answer => exact ⟨received, got, unreceived⟩

theorem Untouched.harmed {k : Nat} (untouched : s.Untouched c k t) (closed : t.Closed c) :
    ¬ s.Unharmed max size t k := by
  intro unharmed
  obtain ⟨on, unwritten, received, got, unreceived⟩ := untouched
  obtain ⟨job, found, rfl⟩ := at_iff.mp (id on)
  have well := unharmed.here found
  split at well
  · rcases well with taken | going
    · rw [got, List.drop_left] at taken
      exact unreceived taken
    · obtain ⟨conn, there, closing, _⟩ := at_iff.mp closed
      rw [going.here there] at closing
      cases closing
  · obtain ⟨u, reach, out⟩ := well
    exact (closed.forever on unwritten reach).not_mem out

theorem Hits.isolated_iff {a : Inbound.Action} {actions : List Action} (hits : s.Hits max size c a answer)
    (ran : (machine max size).run (s.next max size (.inbound a)) actions = some t)
    (met : (machine max size).Meets (Undisturbed c answer) (s.next max size (.inbound a)) actions)
    (done : answer ∉ t.failing) : s.Isolated max size c answer t ↔ s.Alone c answer := by
  have closed : t.Closed c := (hits.closes ran).2.resolve_left done
  constructor
  · intro isolated k on busy
    by_contra other
    have start : s.Untouched c k (s.next max size (.inbound a)) := by
      obtain ⟨-, written, received⟩ := hits.first
      exact ⟨on_next on hits.enabled, ⟨[], by rw [written, List.append_nil], by simp⟩,
        [], by rw [received, List.append_nil], by simp⟩
    have untouched : s.Untouched c k t :=
      Machine.run_keeps_where (I := s.Untouched c k)
        (fun u b known undisturbed enabled => untouched_next known other undisturbed enabled) ran met start
    exact untouched.harmed closed (isolated k on busy other)
  · intro alone k on busy other
    exact absurd (alone k on busy) other

/-- The response to the call itself does not go out. -/
theorem Hits.unwritten {a : Inbound.Action} {actions : List Action} (hits : s.Hits max size c a answer)
    (ran : (machine max size).run (s.next max size (.inbound a)) actions = some t) (own : answer = .response j) :
    j ∉ t.written.drop s.written.length := by
  subst own
  have large : Frame.oversized max (size (.response j)) = true := by
    cases hits
    assumption
  have out (u : Responding) : u.goesOut max size j = false := by rw [goesOut, large]; rfl
  have silent : s.Silent j t := Machine.run_keeps (I := s.Silent j)
    (fun u _ silent _ => silent_next silent fun _ _ _ => out u) ran (silent_next (.refl s j) fun _ _ _ => out s)
  exact silent.not_mem

attribute [grind] isOpen Closed responds mayEnd Enabled goesOut fails next On Unharmed Isolated Alone

end Responding

attribute [grind] Notice.response?

end Skygo.Transport
