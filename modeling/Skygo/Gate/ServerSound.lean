import Skygo.Gate.Server

/-! `Stop` closes the connections it finds.

The accept loop registers a connection in a section of its own, after `Accept` has returned it. If `Stop` has looked at
the connections in between, nobody closes the newcomer.
-/

set_option autoImplicit false

namespace Skygo.Gate

open Semantics

namespace Server

variable {s s' : Server} {a : Action}

/-- Once the body of `Stop` has run, every registered connection is closed. -/
def StopCloses (s : Server) : Prop :=
  s.stopOnce = .done → ∀ (c : Nat) (conn : Conn), s.conns[c]? = some conn → conn.registered = true → conn.closed = true

def Conn.Waits (conn : Conn) : Prop :=
  conn.registered = true ∧ conn.closed = false ∧ conn.run = .reading ∧ conn.writer = .selecting

/-- Once the body of `Stop` has run, every registered connection gets closed: it cannot come to wait for its client. -/
def GetsClosed (s : Server) : Prop :=
  s.stopOnce = .done → ∀ (c : Nat) (conn : Conn), s.conns[c]? = some conn → conn.registered = true →
    ∀ t, machine.Reachable s t → ¬ At t.conns c Conn.Waits

/-- The action does not register a connection that the body of `Stop` has missed. -/
def RegistersBeforeStop (s : Server) : Action → Prop
  | .register _ => s.stopOnce = .done → s.maxConnections ≤ s.connections
  | _ => True

instance (s : Server) (a : Action) : Decidable (s.RegistersBeforeStop a) := by
  rcases a with _ | _ <;> dsimp only [RegistersBeforeStop] <;> infer_instance

def Bounded (s : Server) : Prop := s.connections ≤ s.maxConnections

def Settles (conn conn' : Conn) : Prop :=
  (conn'.registered = true → conn.registered = true) ∧ (conn.closed = true → conn'.closed = true)

inductive Moves (s : Server) (a : Action) : List Conn → Prop where
  | same : Moves s a s.conns
  | accept : a = .accept → Moves s a (s.conns ++ [({} : Conn)])
  | register (c : Nat) : a = .register c → s.connections < s.maxConnections →
      Moves s a (s.conns.modify c fun conn => { conn with id := s.nextID + 1, registered := true })
  | scan (k : Nat) : a = .stopScan k →
      Moves s a (s.conns.map fun conn => if conn.registered then { conn with closed := true } else conn)
  | settle (c : Nat) (conn : Conn) (f : Conn → Conn) : s.conns[c]? = some conn → conn ≠ {} → Settles conn (f conn) →
      Moves s a (s.conns.modify c f)
  | letGo (c : Nat) (f : Conn → Conn) : s.loop = .refusing c ∨ s.loop = .spawning c → (∀ conn, Settles conn (f conn)) →
      Moves s a (s.conns.modify c f)

theorem moves (enabled : Enabled s a) : s.Moves a (s.next a).conns := by
  have settle : ∀ {c : Nat} {p : Conn → Prop} {f : Conn → Conn}, At s.conns c p → (¬ p {}) →
      (∀ conn, Settles conn (f conn)) → s.Moves a (s.conns.modify c f) := by
    intro c p f at_ fresh settles
    obtain ⟨conn, found, holds⟩ := at_iff.mp at_
    refine .settle c conn f found ?_ (settles conn)
    rintro rfl
    exact fresh holds
  cases a with
  | start =>
    dsimp only [next, start]
    split <;> exact .same
  | accept => exact .accept rfl
  | register c =>
    dsimp only [next, register]
    split
    · exact .same
    · next room => exact .register c rfl (Nat.not_le.mp room)
  | refuse c => exact .letGo c _ (.inl enabled) fun _ => ⟨id, fun _ => rfl⟩
  | spawn c => exact .letGo c _ (.inr enabled) fun _ => ⟨id, id⟩
  | opened | handled | readFailed | notified | write | writeFailed => exact settle enabled nofun fun _ => ⟨id, id⟩
  | readMessage | written | writerDone => exact settle enabled (by rintro ⟨⟨⟩, _⟩) fun _ => ⟨id, id⟩
  | readerClose | writerClose => exact settle enabled nofun fun _ => ⟨id, fun _ => rfl⟩
  | remove => exact settle enabled nofun fun _ => ⟨nofun, id⟩
  | close => exact settle enabled (fun ran => ran rfl) fun _ => ⟨id, fun _ => rfl⟩
  | stopScan k => exact .scan k rfl
  | acceptFailed | acceptCheck | acceptRetry | acceptStopped | stop | stopBegin | stopPass | stopWaited | stopExpired =>
    exact .same

def Fresh (s : Server) : Prop := ∀ c, s.loop = .holding c → s.conns[c]? = some {}

theorem maxConnections_next : (s.next a).maxConnections = s.maxConnections := by
  cases a with
  | start =>
    dsimp only [next, start]
    split <;> rfl
  | register c =>
    dsimp only [next, register]
    split <;> rfl
  | _ => rfl

theorem stopOnce_next (enabled : Enabled s a) :
    (s.next a).stopOnce = s.stopOnce ∨ (s.next a).stopOnce = .running ∨ ∃ k, a = .stopScan k := by
  cases a with
  | start =>
    dsimp only [next, start]
    split <;> exact .inl rfl
  | register c =>
    dsimp only [next, register]
    split <;> exact .inl rfl
  | stopBegin k => exact .inr (.inl rfl)
  | stopScan k => exact .inr (.inr ⟨k, rfl⟩)
  | _ => exact .inl rfl

theorem bounded_next (bounded : s.Bounded) (enabled : Enabled s a) : (s.next a).Bounded := by
  unfold Bounded connections at *
  rw [maxConnections_next]
  generalize moved : (s.next a).conns = conns
  have moves := moves enabled
  rw [moved] at moves
  cases moves with
  | same => exact bounded
  | accept => simpa using bounded
  | register c _ room =>
    have grows := countP_modify_le_succ Conn.registered s.conns c
      fun conn => { conn with id := s.nextID + 1, registered := true }
    unfold connections at room
    omega
  | scan =>
    rw [List.countP_map, List.countP_congr (q := Conn.registered)]
    · exact bounded
    · intro conn _
      dsimp only [Function.comp]
      split <;> exact Iff.rfl
  | settle c conn f found _ settles =>
    refine Nat.le_trans (countP_modify_le fun entry there => ?_) bounded
    rw [found] at there
    cases there
    exact settles.1
  | letGo c f _ settles => exact Nat.le_trans (countP_modify_le fun entry _ => (settles entry).1) bounded

theorem loop_next {c : Nat} (holding : (s.next a).loop = .holding c) :
    (a = .accept ∧ c = s.conns.length) ∨ (s.loop = .holding c ∧ ∀ d, a ≠ .register d) := by
  cases a with
  | accept =>
    cases holding
    exact .inl ⟨rfl, rfl⟩
  | start =>
    dsimp only [next, start] at holding
    split at holding
    · cases holding
    · exact .inr ⟨holding, nofun⟩
  | acceptCheck =>
    dsimp only [next] at holding
    split at holding <;> cases holding
  | register d =>
    dsimp only [next, register] at holding
    split at holding <;> cases holding
  | acceptFailed | acceptRetry | acceptStopped | refuse | spawn => cases holding
  | _ => exact .inr ⟨holding, nofun⟩

theorem fresh_next (fresh : s.Fresh) (enabled : Enabled s a) : (s.next a).Fresh := by
  intro c holding
  rcases loop_next holding with ⟨rfl, rfl⟩ | ⟨held, other⟩
  · exact List.getElem?_concat_length
  -- the connection was there before, and only those that run or were let go change
  have was := fresh c held
  generalize moved : (s.next a).conns = conns
  have moves := moves enabled
  rw [moved] at moves
  cases moves with
  | same => exact was
  | accept => exact lookup_append_old was
  | register d is => exact absurd is (other d)
  | scan => simp [was]
  | settle d conn f found used _ =>
    have apart : d ≠ c := by
      rintro rfl
      rw [was] at found
      exact used (Option.some.inj found).symm
    rw [List.getElem?_modify_ne _ _ apart]
    exact was
  | letGo d f holds => simp [held] at holds

theorem stopCloses_next (closes : s.StopCloses) (before : s.RegistersBeforeStop a) (enabled : Enabled s a) :
    (s.next a).StopCloses := by
  intro done
  generalize moved : (s.next a).conns = conns
  have moves := moves enabled
  rw [moved] at moves
  by_cases scans : ∃ k, a = .stopScan k
  · obtain ⟨k, rfl⟩ := scans
    subst moved
    intro c conn found registered
    simp only [next, scan, setStop, List.getElem?_map, Option.map_eq_some_iff] at found
    obtain ⟨old, _, rfl⟩ := found
    split at registered <;> simp_all
  have was : s.stopOnce = .done := by
    rcases stopOnce_next enabled with same | running | scanning
    · exact same.symm.trans done
    · rw [running] at done
      cases done
    · exact absurd scanning scans
  have known := closes was
  cases moves with
  | same => exact known
  | accept =>
    intro c conn found registered
    rcases lookup_append found with old | ⟨_, rfl⟩
    · exact known c conn old registered
    · cases registered
  | register c is room =>
    subst is
    -- behind `Stop` there is no room, so nothing is registered
    exact absurd (before was) (Nat.not_le.mpr room)
  | scan k is => exact absurd ⟨k, is⟩ scans
  | settle c conn f found _ settles =>
    refine forall_modify_at found (fun registered => ?_) fun d entry _ there => known d entry there
    exact settles.2 (known c conn found (settles.1 registered))
  | letGo c f _ settles =>
    refine forall_modify (fun entry there registered => ?_) fun d entry _ there => known d entry there
    exact (settles entry).2 (known c entry there ((settles entry).1 registered))

theorem closed_next {c : Nat} (closed : At s.conns c (·.closed = true)) (enabled : Enabled s a) :
    At (s.next a).conns c (·.closed = true) := by
  generalize moved : (s.next a).conns = conns
  have moves := moves enabled
  rw [moved] at moves
  cases moves with
  | same => exact closed
  | accept => exact closed.append
  | register => exact closed.modify fun _ _ _ still => still
  | scan =>
    obtain ⟨conn, found, closed⟩ := at_iff.mp closed
    refine at_iff.mpr ⟨_, by rw [List.getElem?_map, found]; rfl, ?_⟩
    dsimp only
    split
    · rfl
    · exact closed
  | settle d other f there _ settles =>
    refine closed.modify fun here conn found still => ?_
    subst here
    cases there.symm.trans found
    exact settles.2 still
  | letGo d f _ settles => exact closed.modify fun _ conn _ still => (settles conn).2 still

theorem StopCloses.getsClosed (closes : s.StopCloses) : s.GetsClosed := by
  intro done c conn found registered t reach waits
  have closed : At t.conns c (·.closed = true) :=
    reach.invariant (at_iff.mpr ⟨conn, found, closes done c conn found registered⟩) fun _ _ known enabled =>
      closed_next known enabled
  obtain ⟨later, there, closed⟩ := at_iff.mp closed
  have waits := waits.here there
  rw [waits.2.1] at closed
  cases closed

theorem not_getsClosed (fresh : s.Fresh) (late : ¬ s.RegistersBeforeStop a) (enabled : Enabled s a) :
    ¬ (s.next a).GetsClosed := by
  intro closes
  unfold RegistersBeforeStop at late
  split at late
  · next c =>
    obtain ⟨done, room⟩ := Classical.not_imp.mp late
    have registered : (s.next (.register c)).conns[c]? = some { id := s.nextID + 1, registered := true } := by
      simp only [next, register, if_neg room]
      exact lookup_modify_self (fresh c enabled)
    have state : (s.next (.register c)).stopOnce = .done ∧ (s.next (.register c)).loop = .spawning c := by
      dsimp only [next, register]
      rw [if_neg room]
      exact ⟨done, rfl⟩
    have spawned := (Machine.Reachable.refl (s.next (.register c))).next (show machine.Enabled _ (.spawn c) from state.2)
    have opening : ((s.next (.register c)).next (.spawn c)).conns[c]? =
        some { id := s.nextID + 1, registered := true, run := .opening } := lookup_modify_self registered
    have opened := spawned.next (show machine.Enabled _ (.opened c) from at_iff.mpr ⟨_, opening, rfl⟩)
    exact closes state.1 c _ registered rfl _ opened
      (at_iff.mpr ⟨_, lookup_modify_self opening, rfl, rfl, rfl, rfl⟩)
  · exact late trivial

/-- Along every run the registered connections get closed once the body of `Stop` has run, and even are closed then, exactly
if the accept loop registers none after it; and there are never more of them than `MaxConnections`. -/
theorem stopCloses_iff (maxConnections : Int) (actions : List Action) (s : Server)
    (ran : machine.run (new maxConnections) actions = some s) :
    (machine.Along GetsClosed (new maxConnections) actions ↔
      machine.Meets RegistersBeforeStop (new maxConnections) actions) ∧
    (machine.Along StopCloses (new maxConnections) actions ↔
      machine.Meets RegistersBeforeStop (new maxConnections) actions) ∧
    s.connections ≤ maxConnectionsDefault maxConnections := by
  have keeps (s : Server) (a : Action) (known : s.StopCloses ∧ s.Fresh) (before : s.RegistersBeforeStop a)
      (enabled : Enabled s a) : (s.next a).StopCloses ∧ (s.next a).Fresh :=
    ⟨stopCloses_next known.1 before enabled, fresh_next known.2 enabled⟩
  refine ⟨?_, ?_, ?_⟩
  · exact Machine.along_iff_meets (I := fun s => s.StopCloses ∧ s.Fresh) (fun s known => known.1.getsClosed) keeps
      (fun s a known late enabled => not_getsClosed known.2 late enabled) ran ⟨nofun, nofun⟩
  · exact Machine.along_iff_meets (I := fun s => s.StopCloses ∧ s.Fresh) (fun s known => known.1) keeps
      (fun s a known late enabled closes => not_getsClosed known.2 late enabled (StopCloses.getsClosed closes)) ran
      ⟨nofun, nofun⟩
  · obtain ⟨bounded, limit⟩ := Machine.run_keeps
      (I := fun s => s.Bounded ∧ s.maxConnections = maxConnectionsDefault maxConnections)
      (fun s a known enabled => ⟨bounded_next known.1 enabled, maxConnections_next.trans known.2⟩) ran ⟨Nat.zero_le _, rfl⟩
    rw [← limit]
    exact bounded

def oneClient : List Action :=
  [.start, .accept, .register 0, .spawn 0, .opened 0, .accept, .register 1, .refuse 1, .stop, .stopBegin 0, .stopScan 0,
    .acceptFailed, .acceptCheck, .readFailed 0, .readerClose 0, .writerDone 0, .remove 0, .writerClose 0, .notified 0,
    .stopWaited 0]

theorem stopCloses_iff_one :
    machine.Along StopCloses (new 1) oneClient ∧ (machine.after (new 1) oneClient).connections ≤ 1 :=
  have result := stopCloses_iff 1 oneClient _ (Machine.run_after (by decide +kernel))
  ⟨result.2.1.mpr (by decide +kernel), result.2.2⟩

/-- `Stop` looks at the connections after one was accepted and before it is registered. The connection is open, its reader
and its writer wait, nothing else of the server runs, and `Stop` waits for the wait group. -/
theorem registered_after_stop :
    ∃ s, machine.run (new 1) [.start, .accept, .stop, .stopBegin 0, .stopScan 0, .register 0, .spawn 0, .opened 0,
        .acceptFailed, .acceptCheck] = some s ∧
      s.conns = [{ id := 1, registered := true, closed := false, run := .reading, writer := .selecting }] ∧
      s.loop = .returned ∧ s.stopOnce = .done ∧ s.stops = [.waiting] ∧ s.waitGroup = 1 := by
  refine ⟨_, Machine.run_after (by decide +kernel), ?_⟩
  decide +kernel

end Server

end Skygo.Gate
