import Mathlib.Algebra.BigOperators.Group.List.Basic
import Mathlib.Data.List.Nodup
import Mathlib.Tactic.Ring
import Skygo.Tcpsync.Pool

/-! Every connection of a pool is held by one goroutine or lies idle, and the total counts them all.

A connection is a token that is moved between the idle channel, calls, sweeps and `Close`; a
dial holds a token without a connection. A step moves a token, makes one, names one or drops
one, and the total follows. Weighing the tokens by any function says this for all roles at once.
-/

set_option autoImplicit false

attribute [-instance] instBooleanRingBool

namespace Skygo.Tcpsync

open Semantics

/-- What a call counts for: a connection, or the one it is dialing. Without `all`, what is closed is left out. -/
def Place.token (all : Bool) : Place → Option (Option Nat)
  | .dialing | .undialing => some none
  | .sending c | .receiving c | .releasing c _ | .closing c _ => some (some c)
  | .uncounting c _ => if all then some (some c) else none
  | _ => none

def Place.conn : Place → Option Nat
  | .sending c | .receiving c | .releasing c _ | .closing c _ | .uncounting c _ => some c
  | _ => none

def Place.dials : Place → Bool
  | .dialing | .undialing => true
  | _ => false

def Place.hasReturned : Place → Bool
  | .returned _ => true
  | _ => false

variable {all : Bool} {w : Option Nat → Nat}

def Place.weigh (all : Bool) (w : Option Nat → Nat) (place : Place) : Nat := ((place.token all).map w).getD 0

def Sweep.held (all : Bool) (sweep : Sweep) : List Nat :=
  if sweep.place = .uncounting ∧ all = false then sweep.batch.tail else sweep.batch

def weighConns (w : Option Nat → Nat) (conns : List Nat) : Nat := (conns.map fun c => w (some c)).sum

def Closer.held (all : Bool) : Closer → List Nat
  | .closing c => [c]
  | .uncounting c => if all then [c] else []
  | _ => []

namespace Pool

def weigh (all : Bool) (w : Option Nat → Nat) (s : Pool) : Nat :=
  weighConns w s.idle + (s.calls.map fun call => call.place.weigh all w).sum +
    (s.sweeps.map fun sweep => weighConns w (sweep.held all)).sum + weighConns w (s.closer.held all)

variable {s s' : Pool} {i k c : Nat} {place : Place} {sweep : Sweep}

@[simp, grind =] theorem weighConns_nil : weighConns w [] = 0 := rfl

@[simp, grind =] theorem weighConns_cons (rest : List Nat) : weighConns w (c :: rest) = w (some c) + weighConns w rest := by
  simp [weighConns]

@[simp, grind =] theorem weighConns_append (first rest : List Nat) :
    weighConns w (first ++ rest) = weighConns w first + weighConns w rest := by
  simp [weighConns]

@[grind =>] theorem weighConns_head {conns : List Nat} (head : conns.head? = some c) :
    weighConns w conns = w (some c) + weighConns w conns.tail := by
  obtain ⟨rest, rfl⟩ := List.head?_eq_some_iff.mp head
  simp

theorem weigh_modify (all : Bool) (w : Option Nat → Nat) (here : s.CallAt i place) (f : Call → Call) {later : Place}
    (moved : ∀ call, call.place = place → (f call).place.weigh all w = later.weigh all w) :
    ({ s with calls := s.calls.modify i f } : Pool).weigh all w + place.weigh all w =
      s.weigh all w + later.weigh all w := by
  obtain ⟨call, found, rfl⟩ := at_iff.mp here
  have changed := sum_modify (g := fun call => call.place.weigh all w) (f := f) found
  rw [moved call rfl] at changed
  simp only [weigh]
  omega

theorem weigh_setPlace (all : Bool) (w : Option Nat → Nat) (here : s.CallAt i place) (later : Place) :
    (s.setPlace i later).weigh all w + place.weigh all w = s.weigh all w + later.weigh all w :=
  weigh_modify all w here _ fun _ _ => rfl

@[grind =] theorem weigh_concluded (opts : Options) (outcome : Except Failure Response) (call : Call) :
    (call.conclude opts outcome).place.weigh all w = 0 := by
  unfold Call.conclude
  split
  · rfl
  · split <;> rfl

theorem weigh_conclude (all : Bool) (w : Option Nat → Nat) (here : s.CallAt i place)
    (outcome : Except Failure Response) : (s.conclude i outcome).weigh all w + place.weigh all w = s.weigh all w :=
  have idle : Place.sleeping.weigh all w = 0 := rfl
  weigh_modify all w here (Call.conclude s.opts outcome) fun call _ => (weigh_concluded s.opts outcome call).trans idle.symm

@[grind =] theorem held_eq_batch (counted : sweep.place ≠ .uncounting) : sweep.held all = sweep.batch :=
  if_neg fun both => counted both.1

def Settles (s s' : Pool) : Prop :=
  s'.conns.length = s.conns.length ∧
    ∀ c, (At s'.conns c fun conn => conn.closed = false) → At s.conns c fun conn => conn.closed = false

inductive Moves (s s' : Pool) : Prop where
  | keeps (weight : ∀ all w, s'.weigh all w = s.weigh all w) (total : s'.total = s.total) (conns : Settles s s')
  | reserves (room : s.total < s.opts.maxSize) (weight : ∀ all w, s'.weigh all w = s.weigh all w + w none)
      (total : s'.total = s.total + 1) (conns : s'.conns = s.conns)
  | unreserves (weight : ∀ all w, s'.weigh all w + w none = s.weigh all w) (total : s'.total = s.total - 1)
      (conns : s'.conns = s.conns)
  | dials (weight : ∀ all w, s'.weigh all w + w none = s.weigh all w + w (some s.conns.length))
      (total : s'.total = s.total) (fresh : Conn) (conns : s'.conns = s.conns ++ [fresh])
  | closes (c : Nat) (weight : ∀ w, s'.weigh true w = s.weigh true w)
      (grip : ∀ w, s'.weigh false w + w (some c) = s.weigh false w) (total : s'.total = s.total)
      (conns : s'.conns = s.conns.modify c fun conn => { conn with closed := true })
  | drops (c : Nat) (weight : ∀ w, s'.weigh true w + w (some c) = s.weigh true w)
      (grip : ∀ w, s'.weigh false w = s.weigh false w) (total : s'.total = s.total - 1) (conns : s'.conns = s.conns)

def only (c : Nat) (token : Option Nat) : Nat := if token = some c then 1 else 0

@[simp, grind =] theorem only_none : only c none = 0 := rfl

@[grind =] theorem only_some (c d : Nat) : only c (some d) = if d = c then 1 else 0 := by
  unfold only
  split <;> simp_all

structure Counted (s : Pool) : Prop where
  total : s.total = s.weigh true fun _ => 1
  bounded : s.total ≤ s.opts.maxSize
  once : ∀ c, s.weigh true (only c) ≤ 1
  known : ∀ c, s.conns.length ≤ c → s.weigh true (only c) = 0
  open_ : ∀ c, (At s.conns c fun conn => conn.closed = false) → s.weigh false (only c) ≠ 0

theorem Counted.moves (counted : Counted s) (moves : Moves s s') (opts : s'.opts = s.opts) : Counted s' := by
  obtain ⟨total, bounded, once, known, open_⟩ := counted
  cases moves with
  | keeps weight same conns =>
    constructor <;> grind [Settles]
  | reserves room weight more conns =>
    -- the new token has no connection yet, so it weighs nothing for any of them
    constructor <;> grind
  | unreserves weight less conns =>
    constructor <;> grind
  | dials weight same fresh conns =>
    -- the token takes the identifier of the appended connection, which no token can have had
    constructor <;> grind
  | closes c weight grip same conns =>
    -- the holder lets go of a connection it has closed, and the total still counts it
    constructor <;> grind
  | drops c weight grip less conns =>
    constructor <;> grind

theorem SweepAt.at {first : SweepPlace} (here : s.SweepAt k first c) : At s.sweeps k fun sweep => sweep.place = first :=
  At.mono here fun _ both => both.1

attribute [grind] Place.weigh Place.token Sweep.held Closer.held Settles

theorem moves_next {a : Action} (enabled : s.Enabled a) : Moves s (s.next a) := by
  cases a with
  | lock i =>
    dsimp only [next]
    split
    · exact .keeps (fun all w => weigh_conclude all w enabled _) rfl (by grind)
    · split
      · exact .keeps (fun all w => weigh_setPlace all w enabled _) rfl (by grind)
      · next room =>
        refine .reserves (not_le.mp room) (fun all w => ?_) rfl rfl
        exact weigh_setPlace (s := { s with total := s.total + 1 }) all w enabled .dialing
  | dialed i =>
    refine .dials (fun all w => ?_) rfl _ rfl
    exact weigh_setPlace (s := { s with conns := s.conns ++ [({ lastUsed := s.now } : Conn)] }) all w enabled
      (.sending s.conns.length)
  | undial i =>
    refine .unreserves (fun all w => ?_) rfl rfl
    exact weigh_conclude (s := { s with total := s.total - 1 }) all w enabled _
  | closeConn i c outcome | sweepClose k c | closeIdle c =>
    -- the holder keeps the connection until it is uncounted
    refine .closes c (fun w => ?_) (fun w => ?_) rfl rfl
    all_goals
      dsimp only [weigh, next, setPlace, setSweep, shut, setConn]
      grind
  | uncount i c outcome | sweepUncount k c | closeUncount c =>
    refine .drops c (fun w => ?_) (fun w => ?_) rfl rfl
    all_goals
      dsimp only [weigh, next, conclude, leave, setSweep]
      grind
  | check i =>
    dsimp only [next]
    split
    · exact .keeps (fun all w => weigh_conclude all w enabled _) rfl (by grind)
    · exact .keeps (fun all w => weigh_setPlace all w enabled _) rfl (by grind)
  | sendFailed i c delivered =>
    refine .keeps (fun all w => ?_) ?_ ?_
    all_goals
      cases delivered <;> dsimp only [weigh, next, setPlace, write, setConn] <;> grind
  | cancel i =>
    refine .keeps (fun all w => ?_) rfl (by grind)
    have same : (s.calls.modify i fun call => { call with cancelled := true }).map (fun call => call.place.weigh all w) =
        s.calls.map fun call => call.place.weigh all w := map_modify_same fun _ _ => rfl
    simp only [weigh, next, same]
  | _ =>
    refine .keeps (fun all w => ?_) rfl (by grind)
    dsimp only [weigh, next, setPlace, conclude, setSweep, leave, write, use, setConn] <;> grind

theorem opts_next (s : Pool) (a : Action) : (s.next a).opts = s.opts := by
  cases a with
  | sendFailed i c delivered => cases delivered <;> rfl
  | _ => first | rfl | grind

def start (opts : Options) : Pool := { opts := opts.setDefaults }

theorem maxSize_pos (opts : Options) : 0 < opts.setDefaults.maxSize := by
  unfold Options.setDefaults
  dsimp only
  split <;> omega

theorem new_eq (opts : Options) : new opts = .ok (start opts) := if_neg (not_le.mpr (maxSize_pos opts))

theorem counted_start (opts : Options) : Counted (start opts) where
  total := rfl
  bounded := (maxSize_pos opts).le
  once _ := Nat.zero_le 1
  known _ _ := rfl
  open_ c still := by simp [start, At] at still

variable {opts : Options}

theorem counted_reachable (reach : machine.Reachable (start opts) s) : Counted s :=
  reach.invariant (counted_start opts) fun s a counted enabled => counted.moves (moves_next enabled) (opts_next s a)

theorem opts_reachable (reach : machine.Reachable (start opts) s) : s.opts = opts.setDefaults :=
  reach.invariant (I := fun s => s.opts = opts.setDefaults) rfl fun s a same _ => (opts_next s a).trans same

section Roles

def leased (s : Pool) : List Nat := s.calls.filterMap fun call => call.place.conn

def dialing (s : Pool) : Nat := s.calls.countP fun call => call.place.dials

def swept (s : Pool) : List Nat := s.sweeps.flatMap Sweep.batch

def closing (s : Pool) : List Nat :=
  match s.closer with
  | .closing c | .uncounting c => [c]
  | _ => []

theorem weigh_place (place : Place) :
    place.weigh true w = weighConns w place.conn.toList + place.dials.toNat * w none := by
  cases place <;> simp [Place.weigh, Place.token, Place.conn, Place.dials]

theorem weigh_calls (calls : List Call) :
    (calls.map fun call => call.place.weigh true w).sum =
      weighConns w (calls.filterMap fun call => call.place.conn) +
        (calls.countP fun call => call.place.dials) * w none := by
  induction calls with
  | nil => simp
  | cons call calls ih =>
    rw [List.map_cons, List.sum_cons, ih, weigh_place, List.countP_cons, List.filterMap_cons]
    cases conn : call.place.conn <;> cases dials : call.place.dials <;> simp <;> ring

theorem weigh_sweeps (sweeps : List Sweep) :
    (sweeps.map fun sweep => weighConns w (sweep.held true)).sum = weighConns w (sweeps.flatMap Sweep.batch) := by
  induction sweeps with
  | nil => rfl
  | cons sweep sweeps ih =>
    have whole : sweep.held true = sweep.batch := if_neg (by simp)
    rw [List.map_cons, List.sum_cons, ih, List.flatMap_cons, weighConns_append, whole]

theorem weigh_roles (s : Pool) (w : Option Nat → Nat) :
    s.weigh true w = weighConns w (s.idle ++ s.leased ++ s.swept ++ s.closing) + s.dialing * w none := by
  have closer : s.closer.held true = s.closing := by
    unfold closing
    cases s.closer <;> rfl
  rw [weigh, weigh_calls, weigh_sweeps, closer]
  simp only [weighConns_append, leased, swept, dialing]
  ring

theorem weighConns_one (conns : List Nat) : weighConns (fun _ => 1) conns = conns.length := by
  simp [weighConns]

theorem weighConns_only (conns : List Nat) : weighConns (only c) conns = conns.count c := by
  induction conns with
  | nil => rfl
  | cons d conns ih =>
    rw [weighConns_cons, ih, only_some, List.count_cons]
    split <;> simp_all
    omega

end Roles

theorem Counted.room (counted : Counted s) (held : c ∈ s.leased ++ s.swept) : ¬ s.Full := by
  have total := counted.total
  have bounded := counted.bounded
  have some := List.length_pos_of_mem held
  rw [weigh_roles, weighConns_one] at total
  simp only [List.length_append] at total some
  unfold Full
  push_cast at total
  omega

/-- The total counts the idle, leased and swept connections, the dials, and the one that `Close` is about to uncount. -/
theorem capacity (opts : Options) (s : Pool) (reach : machine.Reachable (start opts) s) :
    s.total = s.idle.length + s.leased.length + s.swept.length + s.dialing + s.closing.length ∧
      0 ≤ s.total ∧ s.total ≤ s.opts.maxSize ∧ (s.idle ++ s.leased ++ s.swept ++ s.closing).Nodup ∧
      (∀ i c resp, ¬ s.Enabled (.releaseFull i c resp)) ∧ ∀ k c, ¬ s.Enabled (.sweepPutFull k c) := by
  have counted := counted_reachable reach
  have total := counted.total
  rw [weigh_roles, weighConns_one] at total
  simp only [List.length_append, mul_one] at total
  refine ⟨by push_cast at total; omega, by omega, counted.bounded, ?_, fun i c resp enabled => ?_, fun k c enabled => ?_⟩
  · refine List.nodup_iff_count_le_one.mpr fun c => ?_
    have once := counted.once c
    rw [weigh_roles, weighConns_only, only_none, mul_zero] at once
    exact once
  · obtain ⟨call, found, place⟩ := at_iff.mp enabled.1
    have held : c ∈ s.leased := List.mem_filterMap.mpr ⟨call, List.mem_of_getElem? found, by rw [place]; rfl⟩
    exact counted.room (List.mem_append_left _ held) enabled.2.2
  · obtain ⟨sweep, found, place, head⟩ := at_iff.mp enabled.1
    have held : c ∈ s.swept := List.mem_flatMap.mpr ⟨sweep, List.mem_of_getElem? found, List.mem_of_mem_head? head⟩
    exact counted.room (List.mem_append_right _ held) enabled.2.2

def served : List Action :=
  [.start [], .check 0, .noneIdle 0, .lock 0, .dialed 0, .send 0 0 ⟨some 0, 0, []⟩, .receive 0 0 0]

theorem capacity_served :
    (machine.after (start { maxSize := 1 }) served).total =
      (machine.after (start { maxSize := 1 }) served).idle.length +
        (machine.after (start { maxSize := 1 }) served).leased.length +
        (machine.after (start { maxSize := 1 }) served).swept.length +
        (machine.after (start { maxSize := 1 }) served).dialing +
        (machine.after (start { maxSize := 1 }) served).closing.length :=
  (capacity { maxSize := 1 } _ ⟨served, Machine.run_after (by decide +kernel)⟩).1

/-- Between taking a connection from the channel and uncounting it, `Close` holds one that is in none of the four roles. -/
theorem capacity_while_closing :
    ∃ s, machine.Reachable (start { maxSize := 1 }) s ∧
      s.total ≠ s.idle.length + s.leased.length + s.swept.length + s.dialing := by
  refine ⟨_, ⟨served ++ [.releaseIdle 0 0 ⟨0, 0⟩, .close, .closeTake 0], Machine.run_after (by decide +kernel)⟩, ?_⟩
  decide +kernel

def Emptied (s : Pool) : Prop :=
  ∀ (k : Nat) (sweep : Sweep), s.sweeps[k]? = some sweep → sweep.place = .checking ∨ sweep.place = .returned → sweep.batch = []

theorem emptied_next {a : Action} (emptied : Emptied s) (enabled : s.Enabled a) : Emptied (s.next a) := by
  unfold Emptied at emptied ⊢
  cases a with
  | sendFailed i c delivered => cases delivered <;> exact emptied
  | _ => first | exact emptied | grind

/-- Nothing is put back once `Close` has drained the channel. -/
def InTime (s : Pool) : Action → Prop
  | .releaseIdle _ _ _ | .sweepPut _ _ => s.closer ≠ .returned
  | _ => True

instance (s : Pool) (a : Action) : Decidable (s.InTime a) := by
  rcases a with _ | _ <;> unfold InTime <;> infer_instance

def Drained (s : Pool) : Prop := s.closer = .returned → s.idle = []

theorem drained_next {a : Action} (drained : Drained s) (inTime : s.InTime a) (enabled : s.Enabled a) :
    Drained (s.next a) := by
  unfold Drained at drained ⊢
  cases a with
  | sendFailed i c delivered => cases delivered <;> exact drained
  | _ => first | exact drained | grind [InTime]

/-- `Close` has returned, and so has every other call. -/
def Quiescent (s : Pool) : Prop :=
  s.closer = .returned ∧ (∀ call ∈ s.calls, call.place.hasReturned = true) ∧
    ∀ sweep ∈ s.sweeps, sweep.place = .returned

instance (s : Pool) : Decidable s.Quiescent := by unfold Quiescent; infer_instance

theorem Quiescent.weigh_eq (quiescent : Quiescent s) (emptied : Emptied s) (all : Bool) (w : Option Nat → Nat) :
    s.weigh all w = weighConns w s.idle := by
  obtain ⟨closer, calls, sweeps⟩ := quiescent
  have noCalls : (s.calls.map fun call => call.place.weigh all w).sum = 0 := by
    refine List.sum_eq_zero fun weight member => ?_
    obtain ⟨call, here, rfl⟩ := List.mem_map.mp member
    have place := calls call here
    cases at_ : call.place <;> rw [at_] at place
    case returned outcome => rfl
    all_goals cases place
  have noSweeps : (s.sweeps.map fun sweep => weighConns w (sweep.held all)).sum = 0 := by
    refine List.sum_eq_zero fun weight member => ?_
    obtain ⟨sweep, here, rfl⟩ := List.mem_map.mp member
    obtain ⟨k, found⟩ := List.getElem?_of_mem here
    have place := sweeps sweep here
    rw [held_eq_batch (by simp [place]), emptied k sweep found (.inr place)]
    rfl
  rw [weigh, noCalls, noSweeps, closer]
  rfl

/-- If no connection is put back after `Close` has drained the channel, none is left when all have returned. -/
theorem close_leaks_nothing (opts : Options) (actions : List Action) (s : Pool)
    (ran : machine.run (start opts) actions = some s) (inTime : machine.Meets InTime (start opts) actions)
    (quiescent : Quiescent s) : s.idle = [] ∧ s.total = 0 ∧ ∀ conn ∈ s.conns, conn.closed = true := by
  have emptied : Emptied s :=
    Machine.run_keeps (I := Emptied) (fun _ _ known enabled => emptied_next known enabled) ran
      fun k sweep found => by simp [start] at found
  have drained : Drained s :=
    Machine.run_keeps_where (I := Drained) (fun _ _ known allowed enabled => drained_next known allowed enabled) ran inTime
      fun _ => rfl
  have counted := counted_reachable ⟨actions, ran⟩
  have none := drained quiescent.1
  have weight := fun all w => quiescent.weigh_eq emptied all w
  simp only [none, weighConns_nil] at weight
  refine ⟨none, by rw [counted.total, weight]; rfl, fun conn member => ?_⟩
  obtain ⟨c, found⟩ := List.getElem?_of_mem member
  by_contra still
  exact counted.open_ c (at_iff.mpr ⟨conn, found, by simpa using still⟩) (weight false (only c))

def inTurn : List Action :=
  served ++ [.releaseIdle 0 0 ⟨0, 0⟩, .close, .closeTake 0, .closeIdle 0, .closeUncount 0, .closeEnd]

theorem close_leaks_nothing_in_turn :
    Quiescent (machine.after (start { maxSize := 1 }) inTurn) ∧ (machine.after (start { maxSize := 1 }) inTurn).total = 0 := by
  have quiescent : Quiescent (machine.after (start { maxSize := 1 }) inTurn) := by decide +kernel
  have ran : machine.run (start { maxSize := 1 }) inTurn = some (machine.after (start { maxSize := 1 }) inTurn) :=
    Machine.run_after (by decide +kernel)
  exact ⟨quiescent, (close_leaks_nothing { maxSize := 1 } inTurn _ ran (by decide +kernel) quiescent).2.1⟩

/-- `Close` drains the channel, and then the select of a release takes the channel although the pool is closed. -/
theorem released_after_drain :
    ∃ s, machine.run (start { maxSize := 1 }) (served ++ [.close, .closeEnd, .releaseIdle 0 0 ⟨0, 0⟩]) = some s ∧
      Quiescent s ∧ s.idle = [0] ∧ s.total = 1 ∧ At s.conns 0 fun conn => conn.closed = false := by
  refine ⟨_, Machine.run_after (by decide +kernel), ?_⟩
  decide +kernel

end Pool

end Skygo.Tcpsync
