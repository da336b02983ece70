import Skygo.Actor.Interleaving
import Skygo.Semantics.Queue

/-! The order in which a service starts and resumes its handlers.

The ready queue of the loop is a queue whose items come back: an envelope arrives with its
`eventEnqueue`, an activation returns with its `eventResume`, `schedule` serves the head, and a stop
drops what was never granted.
-/

set_option autoImplicit false

attribute [-instance] instBooleanRingBool

namespace Skygo.Actor

open Semantics

variable {Msg : Type} {m m' : ServiceRuntime Msg} {id : Nat} {r r' : Request Msg}

namespace Runtime

open ServiceRuntime

/-- What an action of the loop does to the ready queue. An envelope that finds the service stopping is dropped at once. -/
def turnEvents (m : ServiceRuntime Msg) : Action Msg → List (Queue.Event Nat)
  | .enqueue id => if m.stopping then [.arrives id, .drops id] else [.arrives id]
  | .resumeEvent id _ => if id ∈ m.suspended then [.returns id] else []
  | .schedule =>
      match m.picked with
      | none => []
      | some act => if m.stopping ∧ m.isStarted act = false then [.drops act] else [.serves act]
  | .observeStop => (m.ready.filter fun act => !m.isStarted act).map .drops
  | _ => []

structure Follows (m : ServiceRuntime Msg) (q : Queue Nat) : Prop where
  sound : m.Sound
  ready : q.ready = m.ready
  served : ∀ id, id ∈ q.served ↔ m.isStarted id = true
  arrived : ∀ id ∈ q.arrived, ∃ r, m.requests[id]? = some r ∧ r.Received
  dropped : m.stopping = false → q.dropped = []

variable {a : Action Msg}

theorem received_stays (sound : m.Sound) (enabled : Enabled m a) (found : m.requests[id]? = some r)
    (received : r.Received) : ∃ r', (next m a).requests[id]? = some r' ∧ r'.Received := by
  by_cases acts : subject m a = some id
  case neg => exact ⟨r, next_other acts found, received⟩
  obtain ⟨r', after, applies⟩ := next_applies sound enabled acts found
  refine ⟨r', after, ?_⟩
  rcases applies.admission with same | ⟨open_, -⟩
  · exact same.trans received
  · exact absurd received (open_ none)

theorem isStarted_next (enabled : Enabled m a) (other : a = .schedule → m.picked = none) (id : Nat) :
    (next m a).isStarted id = m.isStarted id := by
  rw [Bool.eq_iff_iff, isStarted_iff, isStarted_iff]
  cases found : m.requests[id]? with
  | none =>
    constructor
    · rintro ⟨r', after, started⟩
      obtain ⟨_, _, _, _, _, _, _, rfl⟩ := next_fresh m a id r' after found
      cases started
    · rintro ⟨r, there, -⟩
      cases there
  | some r =>
    obtain ⟨r', after⟩ := next_kept a found
    have same : r'.started = r.started := by
      cases a with
      | track id admitted | complete id admitted => cases admitted <;> grind
      | _ => grind
    simp [after, same]

theorem isStarted_grantTurn (found : m.requests[id]? = some r) (j : Nat) :
    (m.grantTurn id).isStarted j = true ↔ j = id ∨ m.isStarted j = true := by
  rw [grantTurn_eq found, isStarted_iff, isStarted_iff]
  by_cases here : j = id
  · subst here
    exact iff_of_true ⟨_, lookup_modify_self found, rfl⟩ (.inl rfl)
  · rw [List.getElem?_modify_ne _ _ (Ne.symm here)]
    simp [here]

theorem locals_next (quiet : turnEvents m a = []) (other : a ≠ .observeStop) :
    (next m a).ready = m.ready ∧ (next m a).stopping = m.stopping := by
  cases a with
  | track id admitted | complete id admitted => cases admitted <;> grind
  | _ => grind [turnEvents]

variable {q : Queue Nat}

section

variable (follows : Follows m q)
include follows

theorem Follows.next {q' : Queue Nat} (enabled : Enabled m a)
    (ready : q'.ready = (next m a).ready) (served : ∀ id, id ∈ q'.served ↔ (next m a).isStarted id = true)
    (arrived : ∀ id ∈ q'.arrived, id ∈ q.arrived ∨ ∃ r, (next m a).requests[id]? = some r ∧ r.Received)
    (dropped : (next m a).stopping = false → q'.dropped = []) : Follows (next m a) q' where
  sound := sound_next follows.sound a enabled
  ready := ready
  served := served
  arrived id member := by
    rcases arrived id member with old | received
    · obtain ⟨r, found, received⟩ := follows.arrived id old
      exact received_stays follows.sound enabled found received
    · exact received
  dropped := dropped

theorem follows_quiet (enabled : Enabled m a) (quiet : turnEvents m a = [])
    (other : a ≠ .observeStop) (unscheduled : a = .schedule → m.picked = none) : Follows (next m a) q := by
  obtain ⟨ready, stopping⟩ := locals_next quiet other
  refine follows.next enabled (follows.ready.trans ready.symm) (fun id => ?_) (fun _ old => .inl old) fun running => ?_
  · rw [follows.served, isStarted_next enabled unscheduled]
  · exact follows.dropped (stopping.symm.trans running)

theorem follows_enqueue (enabled : Enabled m (.enqueue id)) :
    ∃ q', Queue.machine.run q (turnEvents m (.enqueue id)) = some q' ∧ Follows (Runtime.next m (.enqueue id)) q' := by
  obtain ⟨r, found, emit⟩ := at_iff.mp enabled.1
  obtain ⟨outside, unsent⟩ := (follows.sound.fits id r found).unsent (by simp [emit])
  have strange : id ∉ q.arrived := by
    intro member
    obtain ⟨_, there, received⟩ := follows.arrived id member
    rw [found] at there
    cases there
    cases emit.symm.trans received
  have absent : id ∉ m.ready := ((shares_eq_zero m id).mp ((place_eq_outside m id).mp outside)).2.1
  have fresh : id ∉ q.served := by
    rw [follows.served, isStarted_iff]
    rintro ⟨_, there, started⟩
    rw [found] at there
    cases there
    cases started.symm.trans unsent.1.started
  have served : ∀ j, j ∈ q.served ↔ (next m (.enqueue id)).isStarted j = true := fun j => by
    rw [follows.served, isStarted_next enabled (by intro same; cases same)]
  have told : (next m (.enqueue id)).requests[id]? = some { r with admission := .returned none } := by
    simp only [next]
    split <;> exact lookup_modify_self found
  have arrived : ∀ j ∈ q.arrived ++ [id], j ∈ q.arrived ∨
      ∃ r, (next m (.enqueue id)).requests[j]? = some r ∧ r.Received := by
    intro j member
    rcases List.mem_append.mp member with old | new
    · exact .inl old
    · obtain rfl := List.mem_singleton.mp new
      exact .inr ⟨_, told, rfl⟩
  cases stopping : m.stopping with
  | true =>
    -- dropped again at once: the queue is as it was
    have ready : (q.ready ++ [id]).erase id = q.ready := by
      rw [follows.ready, List.erase_append_right _ absent, List.erase_cons_head, List.append_nil]
    refine ⟨{ q with ready := (q.ready ++ [id]).erase id, arrived := q.arrived ++ [id], dropped := q.dropped ++ [id] },
      ?_, follows.next enabled ?_ served arrived ?_⟩
    · rw [turnEvents, if_pos stopping]
      refine Machine.run_cons.mpr ⟨strange, Machine.run_cons.mpr ⟨⟨?_, fresh⟩, rfl⟩⟩
      exact List.mem_append_right _ (List.mem_singleton_self id)
    · simp only [next, stopping, if_true]
      exact ready.trans follows.ready
    · intro running
      simp only [next, stopping, if_true] at running
      cases stopping.symm.trans running
  | false =>
    refine ⟨{ q with ready := q.ready ++ [id], arrived := q.arrived ++ [id] }, ?_, follows.next enabled ?_ served arrived ?_⟩
    · rw [turnEvents, stopping]
      exact Machine.run_cons.mpr ⟨strange, rfl⟩
    · simp [next, stopping, follows.ready]
    · exact fun _ => follows.dropped stopping

theorem follows_resumeEvent {depth : Nat} (enabled : Enabled m (.resumeEvent id depth)) (suspended : id ∈ m.suspended) :
    ∃ q', Queue.machine.run q (turnEvents m (.resumeEvent id depth)) = some q' ∧
      Follows (Runtime.next m (.resumeEvent id depth)) q' := by
  obtain ⟨r, found, -⟩ := at_iff.mp enabled.1
  obtain ⟨notCurrent, notReady, -, -⟩ := Sound.alone_suspended follows.sound suspended
  have started : id ∈ q.served := by
    have fits := follows.sound.fits id r found
    rw [show m.place id = .suspended by simp [place, notCurrent, notReady, suspended]] at fits
    exact (follows.served id).mpr (isStarted_iff.mpr ⟨r, found, fits.1.started⟩)
  refine ⟨{ q with ready := q.ready ++ [id] }, ?_, follows.next enabled ?_ (fun j => ?_) (fun _ old => .inl old) ?_⟩
  · rw [turnEvents, if_pos suspended]
    exact Machine.run_cons.mpr ⟨⟨started, follows.ready ▸ notReady⟩, rfl⟩
  · simp [next, suspended, follows.ready]
  · rw [follows.served, isStarted_next enabled (by intro same; cases same)]
  · intro running
    simp only [next, suspended, if_true] at running
    exact follows.dropped running

theorem follows_schedule {act : Nat} (enabled : Enabled m .schedule) (chosen : m.picked = some act) :
    ∃ q', Queue.machine.run q (turnEvents m .schedule) = some q' ∧ Follows (Runtime.next m .schedule) q' := by
  obtain ⟨idle, rest, ready⟩ := picked_eq_some.mp chosen
  obtain ⟨r, found, -⟩ := at_iff.mp (enabled.2.2 act chosen)
  -- a stopping loop has thinned its queue out to started activations
  have granted_ : ¬(m.stopping = true ∧ m.isStarted act = false) := by
    rintro ⟨stopping, fresh⟩
    cases fresh.symm.trans (follows.sound.settled stopping act (by simp [ready]))
  have after : Runtime.next m .schedule = { m with ready := m.ready.tail }.grantTurn act := by
    simp only [Runtime.next, chosen, if_neg granted_]
  refine ⟨{ q with ready := q.ready.tail, served := if act ∈ q.served then q.served else q.served ++ [act] },
    ?_, follows.next enabled ?_ (fun j => ?_) (fun _ old => .inl old) ?_⟩
  · rw [turnEvents, chosen]
    simp only [if_neg granted_]
    refine Machine.run_cons.mpr ⟨?_, rfl⟩
    show q.ready.head? = some act
    rw [follows.ready, ready, List.head?_cons]
  · rw [after, grantTurn_eq (by exact found)]
    exact congrArg List.tail follows.ready
  · rw [after, isStarted_grantTurn (by exact found)]
    have before : m.isStarted j = true ↔ j ∈ q.served := (follows.served j).symm
    rw [show ({ m with ready := m.ready.tail } : ServiceRuntime Msg).isStarted j = m.isStarted j from rfl, before]
    dsimp only
    split
    · next known => exact ⟨.inr, fun either => either.elim (fun same => same ▸ known) id⟩
    · simp [or_comm]
  · rw [after, grantTurn_eq (by exact found)]
    exact follows.dropped

theorem follows_observeStop (enabled : Enabled m .observeStop) :
    ∃ q', Queue.machine.run q (turnEvents m .observeStop) = some q' ∧ Follows (next m .observeStop) q' := by
  have once : q.ready.Nodup := follows.ready ▸ (Sound.exclusive_loop follows.sound).distinct.1
  have unserved : ∀ x ∈ m.ready, (!m.isStarted x) = true → x ∉ q.served := by
    intro x _ fresh served
    rw [(follows.served x).mp served] at fresh
    cases fresh
  refine ⟨_, Queue.run_drops (fun act => !m.isStarted act) [] follows.ready once unserved,
    follows.next enabled ?_ (fun j => ?_) (fun _ old => .inl old) ?_⟩
  · simp [next]
  · rw [follows.served, isStarted_next enabled (by intro same; cases same)]
  · intro running
    cases running

theorem follows_next (enabled : Enabled m a) :
    ∃ q', Queue.machine.run q (turnEvents m a) = some q' ∧ Follows (next m a) q' := by
  cases a with
  | enqueue id => exact follows_enqueue follows enabled
  | observeStop => exact follows_observeStop follows enabled
  | resumeEvent id depth =>
    by_cases suspended : id ∈ m.suspended
    · exact follows_resumeEvent follows enabled suspended
    · have quiet : turnEvents m (.resumeEvent id depth) = [] := if_neg suspended
      rw [quiet]
      exact ⟨q, rfl, follows_quiet follows enabled quiet (by intro same; cases same) (by intro same; cases same)⟩
  | schedule =>
    cases chosen : m.picked with
    | some act => exact follows_schedule follows enabled chosen
    | none =>
      have quiet : turnEvents m .schedule = [] := by rw [turnEvents, chosen]
      rw [quiet]
      exact ⟨q, rfl, follows_quiet follows enabled quiet (by intro same; cases same) fun _ => chosen⟩
  | _ => exact ⟨q, rfl, follows_quiet follows enabled rfl (by intro same; cases same) (by intro same; cases same)⟩

end

theorem follows_start (name : String) (opts : ServiceOptions) (drainable : Bool) :
    Follows (ServiceRuntime.start name opts drainable : ServiceRuntime Msg) {} where
  sound := sound_start name opts drainable
  ready := rfl
  served id := by simp [isStarted, At, ServiceRuntime.start]
  arrived id member := by cases member
  dropped _ := rfl

/-- Along every run the first grants are given in the order in which the envelopes were received, without those that a
stop discarded, and a resumed activation is granted before any envelope received after its resume. -/
theorem fifo_start {name : String} {opts : ServiceOptions} {drainable : Bool} {actions : List (Action Msg)}
    (ran : (machine Msg).run (ServiceRuntime.start name opts drainable) actions = some m) :
    let log := (machine Msg).trace turnEvents (ServiceRuntime.start name opts drainable) actions
    (log.filterMap Queue.Event.service?).eraseDups <+:
        (log.filterMap Queue.Event.arrival?).removeAll (log.filterMap Queue.Event.drop?) ∧
      (m.stopping = false → log.filterMap Queue.Event.drop? = []) ∧
      ∀ (early between late rest : List (Queue.Event Nat)) (id e : Nat),
        log = early ++ .returns id :: between ++ .arrives e :: late ++ .serves e :: rest →
        .serves id ∈ between ++ late := by
  obtain ⟨q, ran, follows⟩ := Machine.run_simulates (N := Queue.machine) (R := Follows)
    (fun _ _ _ follows enabled => follows_next follows enabled) ran (follows_start name opts drainable)
  refine ⟨Queue.first_turns_in_order ran, fun running => ?_, fun early between late rest id e split => ?_⟩
  · have dropped := (Queue.history_run ran).2.1
    rw [follows.dropped running] at dropped
    simpa using dropped.symm
  · rw [split] at ran
    exact Queue.return_before_arrival ran

def resumesBeforeThird : List (Action Unit) :=
  firstInHandler ++ [.yield 0 0, .yieldEvent 0 0, .hear 0 0 none, .schedule, .waitReturned 0 0, .resumeEvent 0 0, .schedule,
    .submit .background "inc" 0 false false, .track 2 true, .acquire 2, .enqueue 2, .schedule, .receiveGrant 1, .invoke 1,
    .handlerReturned 1 0 (.message ()), .finishTracked 1, .report 1, .doneEvent 1, .schedule, .regrant 0 0,
    .handlerReturned 0 0 (.message ()), .finishTracked 0, .report 0, .doneEvent 0, .schedule]

theorem fifo_start_resumes :
    ∃ m, (machine Unit).run (.start "counter" {} false) resumesBeforeThird = some m ∧
      Queue.Event.serves 0 ∈ ([] ++ [.serves 0] : List (Queue.Event Nat)) :=
  ⟨_, Machine.run_after (by decide +kernel), (fifo_start (Machine.run_after (by decide +kernel :
    ((machine Unit).run (.start "counter" {} false) resumesBeforeThird).isSome = true))).2.2
      [.arrives 0, .serves 0, .arrives 1, .serves 1] [] [.serves 0] [] 0 2 (by decide +kernel)⟩

end Runtime

end Skygo.Actor
