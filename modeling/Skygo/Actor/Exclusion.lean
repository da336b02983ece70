import Mathlib.Data.List.Nodup
import Skygo.Actor.RuntimeHistory

/-! A service runs one handler at a time, and a NoInterleave service runs each
handler to its end before it grants another. -/

set_option autoImplicit false

attribute [-instance] instBooleanRingBool

namespace Skygo.Actor

open Semantics

variable {Msg : Type} {m : ServiceRuntime Msg} {id : Nat} {r : Request Msg}

/-- Granted, with no accepted yield outstanding and no `eventDone` emitted. A
handler that recovers a panic out of `Await` still has its yield outstanding. -/
def Request.Executing (r : Request Msg) : Prop :=
  r.started = true ∧ r.yielded = false ∧ r.dones = 0

structure ServiceRuntime.Exclusive (m : ServiceRuntime Msg) : Prop where
  single : ∀ (a b : Nat) (r s : Request Msg), m.requests[a]? = some r → m.requests[b]? = some s →
    r.Executing → s.Executing → a = b
  turn : ∀ (a : Nat) (r : Request Msg), m.requests[a]? = some r → r.Executing → m.current = some a
  disjoint : (∀ a, m.current = some a → a ∉ m.ready ∧ a ∉ m.suspended) ∧ ∀ a ∈ m.ready, a ∉ m.suspended
  distinct : m.ready.Nodup ∧ m.suspended.Nodup
  limited : (m.suspended.length : Int) ≤ m.opts.maxSuspended

def ServiceRuntime.grantsOf (m : ServiceRuntime Msg) (id : Nat) : Nat :=
  match m.requests[id]? with
  | some r => r.grants
  | none => 0

theorem Request.Fits.turn {drainable : Bool} {place : Place} (fits : r.Fits drainable place)
    (started : r.started = true) (open_ : r.dones = 0) : place = .current ∨ r.yielded = true := by
  cases place with
  | discarding stage => cases stage <;> grind
  | _ => grind

namespace Runtime

open ServiceRuntime

theorem Sound.current_of_executing (sound : m.Sound) (found : m.requests[id]? = some r)
    (executing : r.Executing) : m.current = some id := by
  obtain ⟨started, turn, open_⟩ := executing
  rcases (sound.fits id r found).turn started open_ with placed | yielded
  · exact current_of_place placed
  · simp [turn] at yielded

theorem Sound.exclusive_loop (sound : m.Sound) : m.Exclusive where
  single a b r s here there first second := by
    have left := Sound.current_of_executing sound here first
    have right := Sound.current_of_executing sound there second
    exact Option.some.inj (left.symm.trans right)
  turn a r found executing := Sound.current_of_executing sound found executing
  disjoint :=
    ⟨fun a current => ⟨(Sound.alone_current sound current).1, (Sound.alone_current sound current).2.1⟩,
      fun a held => (Sound.alone_ready sound held).2.2.1⟩
  distinct := by
    simp only [List.nodup_iff_count_le_one]
    refine ⟨fun a => ?_, fun a => ?_⟩ <;>
    · have once := sound.exclusive a
      simp only [shares] at once
      omega
  limited := sound.limited

theorem grantsOf_next (a : Action Msg) (busy : m.current ≠ none) (id : Nat) :
    (next m a).grantsOf id = m.grantsOf id := by
  cases found : m.requests[id]? with
  | none =>
    cases after : (next m a).requests[id]? with
    | none => simp [grantsOf, found, after]
    | some r =>
      obtain ⟨_, _, _, _, _, _, _, rfl⟩ := next_fresh m a id r after found
      simp [grantsOf, found, after]
  | some r =>
    obtain ⟨r', after, later⟩ := evolves_next m a id r found
    simp [grantsOf, found, after, later.grants busy]

/-- A NoInterleave activation holds the turn from its first grant to its end. -/
theorem Sound.holds_turn (sound : m.Sound) (solo : m.opts.noInterleave = true)
    (found : m.requests[id]? = some r) (started : r.started = true) (open_ : r.dones = 0) :
    m.current = some id :=
  Sound.current_of_executing sound found ⟨started, (sound.atomic solo).2 id r found, open_⟩

def Uninterrupted (start : ServiceRuntime Msg) (id : Nat) (m : ServiceRuntime Msg) : Prop :=
  m.Sound ∧ m.opts.noInterleave = true ∧ ∃ r : Request Msg, m.requests[id]? = some r ∧ r.started = true ∧
    (r.dones = 0 → ∀ other ≠ id, m.grantsOf other = start.grantsOf other)

theorem uninterrupted_next {start : ServiceRuntime Msg} (a : Action Msg) (kept : Uninterrupted start id m)
    (enabled : Enabled m a) : Uninterrupted start id (next m a) := by
  obtain ⟨sound, solo, r, found, started, quiet⟩ := kept
  obtain ⟨r', after, later⟩ := evolves_next m a id r found
  refine ⟨sound_next sound a enabled, ?_, r', after, later.started started, fun open_ other ne => ?_⟩
  · rw [(next_settings m a).2.1]
    exact solo
  · have before : r.dones = 0 := by
      have grows := later.dones
      omega
    have turn := Sound.holds_turn sound solo found started before
    rw [grantsOf_next a (by simp [turn]), quiet before other ne]

theorem reachable_opts {name : String} {opts : ServiceOptions} {drainable : Bool}
    (reached : (machine Msg).Reachable (ServiceRuntime.start name opts drainable) m) :
    m.opts = opts.withDefaults := by
  refine reached.invariant (I := fun m => m.opts = opts.withDefaults) rfl ?_
  intro m a same _
  exact (next_settings m a).2.1.trans same

/-- Every reachable runtime is exclusive, and a NoInterleave service grants no other
activation between an activation's first grant and its `eventDone`. -/
theorem mailbox_exclusion {name : String} {opts : ServiceOptions} {drainable : Bool}
    (reached : (machine Msg).Reachable (ServiceRuntime.start name opts drainable) m) :
    m.Exclusive ∧ m.opts = opts.withDefaults ∧
    (opts.noInterleave = true → ∀ (actions : List (Action Msg)) (m' : ServiceRuntime Msg),
      (machine Msg).run m actions = some m' → ∀ (id : Nat) (r r' : Request Msg),
      m.requests[id]? = some r → r.started = true → m'.requests[id]? = some r' → r'.dones = 0 →
      ∀ other ≠ id, m'.grantsOf other = m.grantsOf other) := by
  have sound := reachable_sound reached
  have settings := reachable_opts reached
  refine ⟨Sound.exclusive_loop sound, settings, ?_⟩
  intro solo actions m' ran id r r' found started after open_
  have kept : Uninterrupted m id m := by
    refine ⟨sound, ?_, r, found, started, fun _ _ _ => rfl⟩
    rw [settings]
    exact solo
  obtain ⟨_, _, last, known, _, quiet⟩ :=
    Machine.run_keeps (I := Uninterrupted m id) (fun _ a kept enabled => uninterrupted_next a kept enabled)
      ran kept
  rw [after] at known
  cases known
  exact quiet open_

def twoQueued : List (Action Unit) :=
  [.submit .background "inc" 0 false false, .submit .background "inc" 0 false false,
    .track 0 true, .track 1 true, .acquire 0, .acquire 1, .schedule, .enqueue 0, .schedule,
    .enqueue 1, .schedule, .receiveGrant 0, .invoke 0]

def soloRun (actions : List (Action Unit)) : ServiceRuntime Unit :=
  ((machine Unit).run (.start "counter" { noInterleave := true } false) actions).getD
    (.start "counter" { noInterleave := true } false)

theorem mailbox_exclusion_two_queued :
    (soloRun twoQueued).Exclusive ∧
      (soloRun (twoQueued ++ [.handlerReturned 0 0 (.message ()), .finishTracked 0, .report 0])).grantsOf 1 = 0 := by
  have reached : (machine Unit).Reachable (.start "counter" { noInterleave := true } false)
      (soloRun twoQueued) := ⟨twoQueued, rfl⟩
  have exclusion := mailbox_exclusion reached
  exact ⟨exclusion.1, exclusion.2.2 rfl [.handlerReturned 0 0 (.message ()), .finishTracked 0, .report 0]
    _ rfl 0 _ _ rfl rfl rfl rfl 1 (by decide)⟩

end Runtime

end Skygo.Actor
