import Skygo.Tcppool.Pool

/-! Who owns the connections of a slot.

An open connection is the installed one, or `lifecycle` has it in hand and is yet to install or to close it.
Two things can go wrong. In a send-only pool `lifecycle` sleeps behind the connection it installed, so after
a failed write nobody dials again. And `lifecycle` does not look at `stopped` between the dial and the lock, so
it may install a connection after `stop`.
-/

set_option autoImplicit false

attribute [-instance] instBooleanRingBool

namespace Skygo.Tcppool

open Semantics

variable {D : Type}

structure Link where
  conns : List Conn
  conn : Option Nat
  stopped : Bool
  once : Once
  lifecycle : Lifecycle

def Slot.link (s : Slot D) : Link := ⟨s.conns, s.conn, s.stopped, s.once, s.lifecycle⟩

def Lifecycle.Serves : Lifecycle → Nat → Prop
  | .connected c', c | .reading c', c | .waiting c', c | .clearing c', c => c' = c
  | .returned, _ => True
  | _, _ => False

def Lifecycle.Has : Lifecycle → Nat → Prop
  | .preReady c', c | .installing c', c | .connected c', c | .reading c', c => c' = c
  | _, _ => False

def Lifecycle.Owes : Lifecycle → Nat → Prop
  | .preReady c', c | .installing c', c | .clearing c', c | .closing c', c => c' = c
  | _, _ => False

def Lifecycle.looks : Lifecycle → Bool
  | .checking | .waiting _ | .leaving | .backoff => true
  | _ => false

def Lifecycle.Suits (readFn : Bool) : Lifecycle → Prop
  | .reading _ | .clearing _ => readFn = true
  | .waiting _ => readFn = false
  | _ => True

def Link.IsOpen (l : Link) (c : Nat) : Prop := At l.conns c fun conn => conn.closed = false

structure Link.Sound (readFn : Bool) (l : Link) : Prop where
  serves : ∀ c, l.conn = some c → l.IsOpen c ∧ l.lifecycle.Serves c
  fresh : ∀ c, l.lifecycle = .preReady c ∨ l.lifecycle = .installing c → l.IsOpen c
  dialed : ∀ c, l.lifecycle.Has c → c < l.conns.length
  owned : ∀ c, l.IsOpen c → l.conn = some c ∨ l.lifecycle.Owes c
  suits : l.lifecycle.Suits readFn
  returned : l.lifecycle = .returned → l.stopped = true
  stopped : l.once ≠ .unused → l.stopped = true

inductive Link.Walks (readFn : Bool) (l : Link) : Lifecycle → Prop where
  | dial : l.lifecycle = .checking → Walks readFn l .dialing
  | dialFailed : l.lifecycle = .dialing → Walks readFn l .backoff
  | ready (c : Nat) : l.lifecycle = .preReady c → Walks readFn l (.installing c)
  | read (c : Nat) : l.lifecycle = .connected c → readFn = true → Walks readFn l (.reading c)
  | wait (c : Nat) : l.lifecycle = .connected c → readFn = false → Walks readFn l (.waiting c)
  | readFnReturned (c : Nat) : l.lifecycle = .reading c → Walks readFn l (.clearing c)
  | notInstalled (c : Nat) : l.lifecycle = .clearing c → l.conn ≠ some c → Walks readFn l (.closing c)
  | onCloseReturned : l.lifecycle = .onClose → Walks readFn l .leaving
  | sleep : l.lifecycle = .leaving → Walks readFn l .backoff
  | wake : l.lifecycle = .backoff → Walks readFn l .checking
  | finish : l.stopped = true → l.lifecycle.looks = true → Walks readFn l .returned

inductive Link.Moves (readFn : Bool) (a : Slot.Action D) (l : Link) : Link → Prop where
  | same : Moves readFn a l l
  | walk (place : Lifecycle) : l.Walks readFn place → Moves readFn a l { l with lifecycle := place }
  | dial : l.lifecycle = .dialing →
      Moves readFn a l { l with conns := l.conns ++ [{}], lifecycle := .preReady l.conns.length }
  | install (c : Nat) : a = .install c → l.lifecycle = .installing c →
      Moves readFn a l { l with conn := some c, lifecycle := .connected c }
  | clear (c : Nat) : l.lifecycle = .clearing c → l.conn = some c →
      Moves readFn a l { l with conn := none, lifecycle := .closing c }
  | close (c : Nat) : l.lifecycle = .closing c →
      Moves readFn a l { l with
        conns := l.conns.modify c fun conn => { conn with closed := true }
        lifecycle := .onClose }
  | breakConn (c : Nat) : a = .breakConn c → l.conn = some c →
      Moves readFn a l { l with
        conns := l.conns.modify c fun conn => { conn with closed := true }
        conn := none }

attribute [grind] Lifecycle.Serves Lifecycle.Has Lifecycle.Owes Lifecycle.looks Lifecycle.Suits Link.IsOpen Slot.link

theorem Slot.moves {config : Config} {s : Slot D} {a : Action D} (enabled : s.Enabled config a) :
    Link.Moves config.readFn a s.link (s.next config a).link := by
  cases a with
  | check =>
    dsimp only [next, link]
    split
    · next stopped => exact .walk _ (.finish stopped (congrArg Lifecycle.looks enabled))
    · exact .walk _ (.dial enabled)
  | dial => exact .dial enabled
  | dialFailed => exact .walk _ (.dialFailed enabled)
  | ready c => exact .walk _ (.ready c enabled)
  | install c => exact .install c rfl enabled
  | serve c =>
    dsimp only [next, link]
    split
    · next reads => exact .walk _ (.read c enabled reads)
    · next sends => exact .walk _ (.wait c enabled (by simpa using sends))
  | readFnReturned c => exact .walk _ (.readFnReturned c enabled)
  | seeStopped => exact .walk _ (.finish enabled.2 (by grind))
  | clear c =>
    dsimp only [next]
    split
    · next installed => exact .clear c enabled installed
    · next other => exact .walk _ (.notInstalled c enabled other)
  | close c => exact .close c enabled
  | onCloseReturned => exact .walk _ (.onCloseReturned enabled)
  | leave =>
    dsimp only [next, link]
    split
    · next stopped => exact .walk _ (.finish stopped (congrArg Lifecycle.looks enabled))
    · exact .walk _ (.sleep enabled)
  | wake => exact .walk _ (.wake enabled)
  | wakeStopped => exact .walk _ (.finish enabled.2 (congrArg Lifecycle.looks enabled.1))
  | breakConn c =>
    dsimp only [next, Slot.breakConn]
    split
    · next installed => exact .breakConn c rfl installed
    · exact .same
  | _ => exact .same

namespace Link.Sound

variable {readFn : Bool} {l l' : Link} {c : Nat}

theorem walks {place : Lifecycle} (sound : l.Sound readFn) (walks : l.Walks readFn place) :
    Sound readFn { l with lifecycle := place } := by
  obtain ⟨serves, fresh, dialed, owned, suits, returned, stopped⟩ := sound
  cases walks with
  | read c at_ reads =>
    rw [at_] at dialed
    refine ⟨?_, ?_, dialed, ?_, ?_, ?_, ?_⟩ <;> grind
  | finish ends looks =>
    have none (c : Nat) : ¬ l.lifecycle.Owes c := by cases at_ : l.lifecycle <;> grind
    constructor <;> grind
  | _ => constructor <;> grind

theorem cut (sound : l.Sound readFn) (installed : l.conn = some c) (once : Once) (begun : once ≠ .unused → l.stopped = true) :
    Sound readFn { l with
      conns := l.conns.modify c fun conn => { conn with closed := true }
      conn := none
      once := once } := by
  -- while it has a connection to install, no connection is installed
  have serves := (sound.serves c installed).2
  obtain ⟨-, fresh, dialed, owned, suits, returned, -⟩ := sound
  constructor <;> grind

theorem moves {a : Slot.Action D} (sound : l.Sound readFn) (moves : l.Moves readFn a l') : l'.Sound readFn := by
  cases moves with
  | same => exact sound
  | walk place walks => exact sound.walks walks
  | breakConn c _ installed => exact sound.cut installed l.once sound.stopped
  | dial at_ | install c _ at_ | clear c at_ installed | close c at_ =>
    obtain ⟨serves, fresh, dialed, owned, suits, returned, stopped⟩ := sound
    simp only [at_, Link.IsOpen] at serves fresh dialed owned
    constructor <;> grind [List.getElem?_concat_length]

theorem stop (sound : l.Sound readFn) : Sound readFn { l with stopped := true, once := .running } :=
  ⟨sound.serves, sound.fresh, sound.dialed, sound.owned, sound.suits, fun _ => rfl, fun _ => rfl⟩

theorem disconnect {s : Slot D} (sound : s.link.Sound readFn) (begun : s.once = .running) :
    s.disconnect.link.Sound readFn := by
  have stopped : s.stopped = true := sound.stopped (by simp [Slot.link, begun])
  unfold Slot.disconnect
  split
  · next c installed => exact sound.cut installed .done fun _ => stopped
  · exact ⟨sound.serves, sound.fresh, sound.dialed, sound.owned, sound.suits, sound.returned, fun _ => stopped⟩

end Link.Sound

namespace Pool

variable {p : Pool D} {a : Action D} {Q : Slot D → Prop}

def EverySlot (p : Pool D) (Q : Slot D → Prop) : Prop := ∀ (i : Nat) (s : Slot D), p.slots[i]? = some s → Q s

theorem config_next : (next p a).config = p.config := by cases a <;> rfl

/-- A step of the pool is a step of one slot, or begins or ends `stop` on one, or concerns a call of `Close` only. -/
theorem everySlot_next (known : p.EverySlot Q) (enabled : Enabled p a)
    (slot : ∀ i s b, a = .slot i b → p.slots[i]? = some s → s.Enabled p.config b → Q s → Q (s.next p.config b))
    (stop : ∀ s : Slot D, s.once = .unused → Q s → Q s.stop)
    (disconnect : ∀ s : Slot D, s.once = .running → Q s → Q s.disconnect) : (next p a).EverySlot Q := by
  cases a with
  | slot i b =>
    refine forall_modify (fun s found => ?_) fun j s _ found => known j s found
    exact slot i s b rfl found (enabled.here found) (known i s found)
  | stop k i =>
    refine forall_modify (fun s found => ?_) fun j s _ found => known j s found
    exact stop s (enabled.2.here found) (known i s found)
  | disconnect k i =>
    refine forall_modify (fun s found => ?_) fun j s _ found => known j s found
    exact disconnect s (enabled.2.here found) (known i s found)
  | close | pass | closed => exact known

theorem everySlot_new {readFn : Bool} {opts : Options} (holds : Q {}) : (new D readFn opts).EverySlot Q := by
  intro i s found
  obtain rfl : s = {} := List.eq_of_mem_replicate (List.mem_of_getElem? found)
  exact holds

theorem sound_new (readFn : Bool) : ({} : Slot D).link.Sound readFn :=
  ⟨nofun, nofun, nofun, fun c open_ => by simp [Link.IsOpen, At, Slot.link] at open_, trivial, nofun,
    fun used => absurd rfl used⟩

end Pool

section Reconnect

/-- `lifecycle` is on the way to its next dial or with a connection it has just dialed, or it serves a connection
that is closed, so that `readFn` returns. -/
def Slot.Reconnecting (readFn : Bool) (s : Slot D) : Prop :=
  match s.lifecycle with
  | .connected c | .reading c => readFn = true ∧ At s.conns c fun conn => conn.closed = true
  | .waiting _ | .returned => False
  | _ => True

def Pool.Reconnects (p : Pool D) : Prop :=
  p.EverySlot fun s => s.stopped = false → s.conn = none → s.Reconnecting p.config.readFn

/-- The action does not break the connection of a send-only slot that is not stopped. -/
def Pool.SparesSendOnly (p : Pool D) : Pool.Action D → Prop
  | .slot i (.breakConn c) =>
      p.config.readFn = true ∨ At p.slots i fun s => s.stopped = true ∨ s.conn ≠ some c
  | _ => True

instance (p : Pool D) (a : Pool.Action D) : Decidable (p.SparesSendOnly a) := by
  rcases a with ⟨_, _ | _⟩ | _ <;> dsimp only [Pool.SparesSendOnly] <;> infer_instance

def Link.Armed (readFn : Bool) (l : Link) : Prop :=
  readFn = false → l.stopped = false → ∀ c, l.lifecycle = .connected c ∨ l.lifecycle = .waiting c → l.conn = some c

variable {readFn : Bool} {l l' : Link}

theorem Link.Armed.moves {a : Slot.Action D} (armed : l.Armed readFn) (moves : l.Moves readFn a l')
    (spares : ∀ c, a = .breakConn c → l.conn = some c → readFn = true ∨ l.stopped = true) : l'.Armed readFn := by
  unfold Link.Armed at armed ⊢
  cases moves with
  | walk place walks => cases walks <;> grind
  | _ => grind

theorem Link.Armed.disconnect {s : Slot D} (sound : s.link.Sound readFn) (begun : s.once = .running) :
    s.disconnect.link.Armed readFn := by
  have stopped : s.stopped = true := sound.stopped (by simp [Slot.link, begun])
  intro _ running
  unfold Slot.disconnect at running
  split at running <;> simp [Slot.link, Slot.broadcast, Slot.closeConn, stopped] at running

theorem Link.Sound.broken (sound : l.Sound readFn) {c : Nat} (gone : l.conn = none) (has : l.lifecycle.Has c)
    (free : ∀ d, ¬ l.lifecycle.Owes d) : At l.conns c fun conn => conn.closed = true := by
  obtain ⟨conn, found⟩ : ∃ conn, l.conns[c]? = some conn := ⟨_, List.getElem?_eq_getElem (sound.dialed c has)⟩
  have owned := sound.owned c
  cases closed : conn.closed <;> grind

theorem Slot.reconnecting {s : Slot D} (sound : s.link.Sound readFn) (armed : s.link.Armed readFn)
    (running : s.stopped = false) (gone : s.conn = none) : s.Reconnecting readFn := by
  have reads : ∀ c, s.lifecycle = .connected c ∨ s.lifecycle = .waiting c → readFn = true := by
    unfold Link.Armed at armed
    grind
  have broken : ∀ c, s.lifecycle = .connected c ∨ s.lifecycle = .reading c →
      At s.conns c fun conn => conn.closed = true := by
    rintro c (at_ | at_) <;>
    · refine sound.broken gone ?_ fun d owes => ?_
      · simp [link, at_, Lifecycle.Has]
      · simp [link, at_, Lifecycle.Owes] at owes
  have suits := sound.suits
  have returned := sound.returned
  unfold Reconnecting
  split <;> grind

/-- The connection of a send-only slot is broken: `lifecycle` sleeps behind it, and nobody will dial. -/
theorem Slot.stranded {s : Slot D} {config : Config} {c : Nat} (sound : s.link.Sound config.readFn) (sendOnly : config.readFn = false)
    (installed : s.conn = some c) (running : s.stopped = false) : ¬ (s.next config (.breakConn c)).Reconnecting config.readFn := by
  have serves := (sound.serves c installed).2
  have suits := sound.suits
  have moved : (s.next config (.breakConn c)).lifecycle = s.lifecycle := by
    simp [next, Slot.breakConn, installed, broadcast, closeConn]
  have alive : s.lifecycle ≠ .returned := fun returned =>
    Bool.false_ne_true (running.symm.trans (sound.returned returned))
  unfold Reconnecting
  rw [moved]
  cases at_ : s.lifecycle <;> simp_all [link, Lifecycle.Serves, Lifecycle.Suits]

namespace Pool

variable [DecidableEq D]

/-- Along every run, a slot that is not stopped and has no connection is about to get one, exactly if no step breaks the
connection of a send-only slot that is not stopped. -/
theorem reconnects_iff (readFn : Bool) (opts : Options) (actions : List (Action D)) (p : Pool D)
    (ran : (machine D).run (new D readFn opts) actions = some p) :
    (machine D).Along Reconnects (new D readFn opts) actions ↔
      (machine D).Meets SparesSendOnly (new D readFn opts) actions := by
  refine Machine.along_iff_meets
    (I := fun p => p.EverySlot fun s => s.link.Sound p.config.readFn ∧ s.link.Armed p.config.readFn)
    (fun p known i s found => ?_) (fun p a known spares enabled => ?_) (fun p a known breaks enabled reconnects => ?_) ran
    (everySlot_new ⟨sound_new readFn, fun _ _ => nofun⟩)
  · obtain ⟨sound, armed⟩ := known i s found
    exact s.reconnecting sound armed
  · show (next p a).EverySlot _
    rw [show ((machine D).next p a).config = p.config from config_next]
    refine everySlot_next known enabled (fun i s b is found allowed old => ?_) (fun s _ old => ?_) fun s begun old => ?_
    · have moves := s.moves allowed
      refine ⟨old.1.moves moves, old.2.moves moves fun c breaks installed => ?_⟩
      subst is breaks
      refine spares.imp_right fun known => ?_
      exact (known.here found).resolve_right fun other => other installed
    · exact ⟨old.1.stop, nofun⟩
    · exact ⟨old.1.disconnect begun, .disconnect old.1 begun⟩
  · unfold SparesSendOnly at breaks
    split at breaks
    · next i c =>
      obtain ⟨s, found, allowed⟩ := at_iff.mp enabled
      obtain ⟨sendOnly, bad⟩ := not_or.mp breaks
      have bad : ¬ (s.stopped = true ∨ s.conn ≠ some c) := fun fine => bad (at_iff.mpr ⟨s, found, fine⟩)
      simp only [not_or, Bool.not_eq_true, not_not] at sendOnly bad
      refine s.stranded (known i s found).1 sendOnly bad.2 bad.1 ?_
      refine reconnects i _ (lookup_modify_self found) ?_ ?_ <;>
        simp [Slot.next, Slot.breakConn, Slot.broadcast, Slot.closeConn, bad]
    · exact breaks trivial

def connects : List (Action Nat) :=
  [.slot 0 .check, .slot 0 .dial, .slot 0 (.ready 0), .slot 0 (.install 0), .slot 0 (.serve 0)]

def breaks : List (Action Nat) :=
  [.slot 0 (.send 7), .slot 0 (.sendCheck 0), .slot 0 (.sendPush 0 7), .slot 0 (.take 7), .slot 0 (.look 7),
    .slot 0 (.writeFailed 0), .slot 0 (.breakConn 0)]

/-- A pool with a `readFn` loses its connection to a failed write and installs another. -/
theorem reconnects_iff_reader :
    (machine Nat).Along Reconnects (new Nat true ⟨0, 0⟩) (connects ++ breaks ++
      [.slot 0 (.readFnReturned 0), .slot 0 (.clear 0), .slot 0 (.close 0), .slot 0 .onCloseReturned, .slot 0 .leave,
        .slot 0 .wake, .slot 0 .check, .slot 0 .dial, .slot 0 (.ready 1), .slot 0 (.install 1)]) :=
  (reconnects_iff true ⟨0, 0⟩ _ _ (Machine.run_after (by decide +kernel))).mpr (by decide +kernel)

/-- A send-only pool loses its connection to a failed write; `lifecycle` waits for `stop`. -/
theorem send_only_stranded :
    ∃ p, (machine Nat).run (new Nat false ⟨0, 0⟩) (connects ++ breaks) = some p ∧
      At p.slots 0 fun s => s.stopped = false ∧ s.conn = none ∧ s.lifecycle = .waiting 0 :=
  ⟨_, Machine.run_after (by decide +kernel), by decide +kernel⟩

end Pool

end Reconnect

section Close

def Slot.Shut (s : Slot D) : Prop := s.conn = none ∧ ∀ c, s.link.IsOpen c → s.lifecycle.Owes c

/-- `stop` is final on every slot, and no slot is connected once a `Close` has returned. -/
def Pool.CloseIsFinal (p : Pool D) : Prop :=
  (p.EverySlot fun s => s.once = .done → s.Shut) ∧ (.returned ∈ p.closers → p.connCount = 0)

/-- The action does not install a connection in a slot that `stop` is done with. -/
def Pool.InstallsBeforeStop (p : Pool D) : Pool.Action D → Prop
  | .slot i (.install _) => At p.slots i fun s => s.once ≠ .done
  | _ => True

instance (p : Pool D) (a : Pool.Action D) : Decidable (p.InstallsBeforeStop a) := by
  rcases a with ⟨_, _ | _⟩ | _ <;> dsimp only [Pool.InstallsBeforeStop] <;> infer_instance

def Link.Cut (l : Link) : Prop := l.once = .done → l.conn = none

variable {readFn : Bool} {l l' : Link}

theorem Link.Cut.moves {a : Slot.Action D} (cut : l.Cut) (moves : l.Moves readFn a l')
    (before : ∀ c, a = .install c → l.once ≠ .done) : l'.Cut := by
  intro done
  cases moves with
  | install c installs => exact absurd done (before c installs)
  | clear | breakConn => rfl
  | same | walk | dial | close => exact cut done

theorem Link.Moves.once {a : Slot.Action D} (moves : l.Moves readFn a l') : l'.once = l.once := by
  cases moves <;> rfl

theorem Slot.cut_disconnect (s : Slot D) : s.disconnect.link.Cut := by
  intro _
  unfold disconnect
  split
  · rfl
  · next none => exact none

theorem Slot.shut {s : Slot D} (sound : s.link.Sound readFn) (cut : s.link.Cut) (done : s.once = .done) : s.Shut := by
  have none := cut done
  refine ⟨none, fun c open_ => (sound.owned c open_).resolve_left fun installed => ?_⟩
  rw [none] at installed
  cases installed

def Closer.past (size : Nat) : Closer → Nat
  | .calling i | .stopping i => i
  | .returned => size

namespace Pool

variable {p : Pool D} {a : Action D}

def Done (p : Pool D) (i : Nat) : Prop := At p.slots i fun s => s.once = .done

def Passed (p : Pool D) : Prop :=
  ∀ (k : Nat) (place : Closer), p.closers[k]? = some place → ∀ i < place.past p.slots.length, p.Done i

theorem slots_length_next : (next p a).slots.length = p.slots.length := by
  cases a <;> simp [next, setSlot, setCloser]

theorem done_next {i : Nat} (enabled : Enabled p a) (done : p.Done i) : (next p a).Done i := by
  cases a with
  | slot j b =>
    refine done.modify fun here s found was => ?_
    subst here
    exact (s.moves (enabled.here found)).once.trans was
  | _ => grind [Done]

theorem passed_next (passed : p.Passed) (enabled : Enabled p a) : (next p a).Passed := by
  have kept : ∀ {k : Nat} {place : Closer}, p.closers[k]? = some place →
      ∀ i < place.past p.slots.length, (next p a).Done i :=
    fun found i before => done_next enabled (passed _ _ found i before)
  -- a call moves on, past what it had behind it and maybe one more slot
  have moved : ∀ {k : Nat} {place place' : Closer}, p.closers[k]? = some place →
      (next p a).closers = p.closers.modify k (fun _ => place') →
      (∀ i < place'.past p.slots.length, i < place.past p.slots.length ∨ (next p a).Done i) → (next p a).Passed := by
    intro k place place' found closers further
    unfold Passed
    rw [closers, slots_length_next]
    refine forall_modify (fun _ _ i before => ?_) fun _ _ _ other i before => kept other i before
    exact (further i before).elim (kept found i) id
  cases a with
  | slot j b =>
    intro k place found
    rw [slots_length_next]
    exact kept found
  | close =>
    intro k place found i before
    rcases lookup_append found with old | ⟨-, rfl⟩
    · exact kept old i before
    · cases before
  | stop k j => exact moved enabled.1 rfl fun i before => .inl before
  | disconnect k j =>
    refine moved enabled.1 rfl fun i before => ?_
    rcases Nat.lt_succ_iff_lt_or_eq.mp before with earlier | rfl
    · exact .inl earlier
    · exact .inr (by grind [Done])
  | pass k j =>
    refine moved enabled.1 rfl fun i before => ?_
    rcases Nat.lt_succ_iff_lt_or_eq.mp before with earlier | rfl
    · exact .inl earlier
    · exact .inr (done_next (a := .pass k i) enabled enabled.2)
  | closed k j => exact moved enabled.1 rfl fun i before => .inl (Nat.lt_of_lt_of_le before enabled.2)

theorem connCount_eq_zero (shut : p.EverySlot fun s => s.once = .done → s.Shut) (passed : p.Passed)
    (returned : .returned ∈ p.closers) : p.connCount = 0 := by
  obtain ⟨k, found⟩ := List.getElem?_of_mem returned
  refine List.countP_eq_zero.mpr fun s member => ?_
  obtain ⟨i, there⟩ := List.getElem?_of_mem member
  have done := (passed k _ found i (lookup_lt there)).here there
  simp [(shut i s there done).1]

theorem not_shut_install {s : Slot D} {config : Config} {c : Nat} (done : s.once = .done) :
    ¬ ((s.next config (.install c)).once = .done → (s.next config (.install c)).Shut) := by
  intro shut
  have none := (shut done).1
  cases none

variable [DecidableEq D]

/-- Along every run `Close` is final, exactly if `lifecycle` installs no connection in a slot that `stop` is done with. -/
theorem closeIsFinal_iff (readFn : Bool) (opts : Options) (actions : List (Action D)) (p : Pool D)
    (ran : (machine D).run (new D readFn opts) actions = some p) :
    (machine D).Along CloseIsFinal (new D readFn opts) actions ↔
      (machine D).Meets InstallsBeforeStop (new D readFn opts) actions := by
  refine Machine.along_iff_meets
    (I := fun p => (p.EverySlot fun s => s.link.Sound p.config.readFn ∧ s.link.Cut) ∧ p.Passed)
    (fun p known => ?_) (fun p a known before enabled => ?_) (fun p a known late enabled final => ?_) ran
    ⟨everySlot_new ⟨sound_new readFn, nofun⟩, fun k place found => by simp [new] at found⟩
  · have shut : p.EverySlot fun s => s.once = .done → s.Shut := fun i s found =>
      s.shut (known.1 i s found).1 (known.1 i s found).2
    exact ⟨shut, connCount_eq_zero shut known.2⟩
  · refine ⟨?_, passed_next known.2 enabled⟩
    rw [show ((machine D).next p a).config = p.config from config_next]
    refine everySlot_next known.1 enabled (fun i s b is found allowed old => ?_) (fun s _ old => ?_) fun s begun old => ?_
    · have moves := s.moves allowed
      refine ⟨old.1.moves moves, old.2.moves moves fun c installs => ?_⟩
      subst is installs
      exact before.here found
    · exact ⟨old.1.stop, nofun⟩
    · exact ⟨old.1.disconnect begun, s.cut_disconnect⟩
  · unfold InstallsBeforeStop at late
    split at late
    · next i c =>
      obtain ⟨s, found, allowed⟩ := at_iff.mp enabled
      have done : s.once = .done := not_not.mp fun other => late (at_iff.mpr ⟨s, found, other⟩)
      exact not_shut_install done (final.1 i _ (lookup_modify_self found))
    · exact late trivial

/-- A slot is connected and then stopped by `Close`. -/
theorem closeIsFinal_iff_connected :
    (machine Nat).Along CloseIsFinal (new Nat true ⟨0, 0⟩) (connects ++
      [.close, .stop 0 0, .disconnect 0 0, .closed 0 1, .slot 0 (.readFnReturned 0), .slot 0 (.clear 0),
        .slot 0 (.close 0), .slot 0 .onCloseReturned, .slot 0 .leave]) :=
  (closeIsFinal_iff true ⟨0, 0⟩ _ _ (Machine.run_after (by decide +kernel))).mpr (by decide +kernel)

/-- `Close` runs while the dial is under way. The connection is installed after it has returned, and when every
goroutine of the slot has ended it is still open. -/
theorem installed_after_close :
    ∃ p, (machine Nat).run (new Nat false ⟨0, 0⟩)
        [.slot 0 .check, .close, .stop 0 0, .disconnect 0 0, .closed 0 1, .slot 0 .dial, .slot 0 (.ready 0),
          .slot 0 (.install 0), .slot 0 (.serve 0), .slot 0 .seeStopped, .slot 0 .takeStopped] = some p ∧
      p.closers = [.returned] ∧ p.connCount = 1 ∧
      At p.slots 0 fun s => s.lifecycle = .returned ∧ s.sendLoop = .returned ∧ s.conn = some 0 ∧
        s.conns = [{ closed := false }] :=
  ⟨_, Machine.run_after (by decide +kernel), by decide +kernel⟩

end Pool

end Close

end Skygo.Tcppool
