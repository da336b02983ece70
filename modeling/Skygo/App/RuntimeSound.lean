import Skygo.App.Runtime

/-! Starts and stops of components match when calls of `Start` are kept apart from the others.

`Start` releases the lock around each component and publishes a counter only. Another `Start` or an `Add` may
pass the same check before the counter moves, and a `Stop` may take the counter while it still moves. If neither
happens, the running components are those below a number that one call at a time answers for.
-/

set_option autoImplicit false

attribute [-instance] instBooleanRingBool

namespace Skygo.App

open Semantics

def descending (n : Nat) : List Nat := (List.range n).reverse

@[simp] theorem descending_zero : descending 0 = [] := rfl

theorem descending_succ (n : Nat) : descending (n + 1) = n :: descending n := by
  simp [descending, List.range_succ]

@[simp] theorem mem_descending {i n : Nat} : i ∈ descending n ↔ i < n := by simp [descending]

namespace Monitor

variable {m m' : Monitor} {n : Nat}

theorem watch_append {log : List Event} {event : Event} : m.watch (log ++ [event]) = (m.watch log).bind fun m' => m'.observe event := by
  induction log generalizing m with
  | nil => simp [watch]
  | cons first log ih =>
    simp only [List.cons_append, watch]
    cases m.observe first with
    | none => rfl
    | some m' => exact ih

theorem observe_started (running : m.running = descending n) :
    m.observe (.started n) = some { m with running := descending (n + 1) } := by
  simp [observe, running, descending_succ]

theorem observe_startFailed (running : m.running = descending n) : m.observe (.startFailed n) = some m := by
  simp [observe, running]

theorem observe_stopped (running : m.running = descending (n + 1)) :
    m.observe (.stopped n) = some { m with running := descending n } := by
  have last : n ∈ m.running ∧ ∀ j ∈ m.running, j ≤ n := by
    rw [running, descending_succ]
    simp only [List.mem_cons, mem_descending, true_or, forall_eq_or_imp, Nat.le_refl, true_and]
    omega
  simp only [observe]
  rw [if_pos last, running, descending_succ, List.erase_cons_head]

end Monitor

def Call.Quiet (call : Call) : Prop :=
  match call.place with
  | .starting _ | .counting _ | .failing _ _ => False
  | .stopping entries _ => entries = []
  | .readying | .taking _ | .returned _ => True

def Call.Accounts (started n : Nat) (call : Call) : Prop :=
  match call.place with
  | .starting i | .failing i _ => call.isStart = true ∧ started = i ∧ n = i ∧ i < call.entries.length
  | .counting i => call.isStart = true ∧ started = i ∧ n = i + 1 ∧ i < call.entries.length
  | .stopping entries _ => entries ≠ [] ∧ started = 0 ∧ n = entries.length
  | .readying | .taking _ | .returned _ => False

def Call.waits (call : Call) : Bool :=
  match call.place with
  | .taking _ => !call.isStart
  | _ => false

attribute [grind] Call.Quiet Call.Accounts Call.waits

theorem Call.Accounts.not_quiet {call : Call} {started n : Nat} (accounts : call.Accounts started n) : ¬ call.Quiet := by
  grind

namespace Runtime

variable {r r' : Runtime} {k n : Nat} {call : Call} {f : Call → Call}

def Others (r : Runtime) (k : Nat) : Prop :=
  ∀ (j : Nat) (other : Call), r.calls[j]? = some other → j ≠ k → other.Quiet

/-- The first `n` components run: as many as were counted, or as one call answers for. -/
inductive Runs (r : Runtime) : Nat → Prop where
  | idle : (∀ (j : Nat) (call : Call), r.calls[j]? = some call → call.Quiet) → Runs r r.started
  | busy (k n : Nat) (call : Call) : r.calls[k]? = some call → call.Accounts r.started n → r.Others k → Runs r n

namespace Runs

theorem answers (runs : r.Runs n) (found : r.calls[k]? = some call) (loud : ¬ call.Quiet) :
    call.Accounts r.started n ∧ r.Others k := by
  cases runs with
  | idle quiet => exact absurd (quiet k call found) loud
  | busy k' n call' found' accounts others =>
    by_cases same : k = k'
    · subst same
      rw [found] at found'
      cases found'
      exact ⟨accounts, others⟩
    · exact absurd (others k call found same) loud

theorem work {n' : Nat} (found : r.calls[k]? = some call) (others : r.Others k)
    (calls : r'.calls = r.calls.modify k f) (accounts : (f call).Accounts r'.started n') : r'.Runs n' := by
  refine .busy k n' (f call) ?_ accounts fun j other there apart => ?_
  · rw [calls]
    exact lookup_modify_self found
  · rw [calls, List.getElem?_modify_ne _ _ (Ne.symm apart)] at there
    exact others j other there apart

theorem rest (found : r.calls[k]? = some call) (others : r.Others k) (calls : r'.calls = r.calls.modify k f)
    (after : (f call).Quiet) : r'.Runs r'.started := by
  refine .idle fun j other there => ?_
  rw [calls] at there
  rcases lookup_modify there with ⟨rfl, _, was, rfl⟩ | ⟨apart, was⟩
  · rw [found] at was
    cases was
    exact after
  · exact others j other was apart

theorem hush (runs : r.Runs n) (found : r.calls[k]? = some call) (before : call.Quiet)
    (calls : r'.calls = r.calls.modify k f) (started : r'.started = r.started) (after : (f call).Quiet) : r'.Runs n := by
  cases runs with
  | idle quiet =>
    rw [← started]
    exact rest found (fun j other there _ => quiet j other there) calls after
  | busy k' n call' found' accounts others =>
    have apart : k ≠ k' := by
      rintro rfl
      rw [found] at found'
      cases found'
      exact accounts.not_quiet before
    refine .busy k' n call' ?_ (started ▸ accounts) fun j other there elsewhere => ?_
    · rw [calls, List.getElem?_modify_ne _ _ apart]
      exact found'
    · rw [calls] at there
      rcases lookup_modify there with ⟨rfl, _, was, rfl⟩ | ⟨_, was⟩
      · rw [found] at was
        cases was
        exact after
      · exact others j other was elsewhere

theorem counted (runs : r.Runs n) (quiet : ∀ (j : Nat) (call : Call), r.calls[j]? = some call → call.Quiet) :
    n = r.started := by
  cases runs with
  | idle => rfl
  | busy k n call found accounts => exact absurd (quiet k call found) accounts.not_quiet

theorem same (runs : r.Runs n) (calls : r'.calls = r.calls) (started : r'.started = r.started) : r'.Runs n := by
  cases runs with
  | idle quiet =>
    rw [← started]
    exact .idle (by rw [calls]; exact quiet)
  | busy k n call found accounts others =>
    exact .busy k n call (by rw [calls]; exact found) (started ▸ accounts) (by unfold Others; rw [calls]; exact others)

theorem enter (runs : r.Runs n) (calls : r'.calls = r.calls ++ [call]) (quiet : call.Quiet)
    (started : r'.started = r.started) : r'.Runs n := by
  cases runs with
  | idle all =>
    rw [← started]
    refine .idle ?_
    rw [calls]
    exact forall_append all quiet
  | busy k n call' found accounts others =>
    refine .busy k n call' (by rw [calls]; exact lookup_append_old found) (started ▸ accounts) ?_
    unfold Others
    rw [calls]
    exact forall_append others fun _ => quiet

end Runs

structure Roles (r : Runtime) : Prop where
  stop : ∀ (k : Nat) (call : Call), r.calls[k]? = some call → call.isStart = false → r.stopped = true
  copies : ∀ (k : Nat) (call : Call), r.calls[k]? = some call → call.entries.length ≤ r.entries.length
  readies : ∀ (k : Nat) (call : Call), r.calls[k]? = some call → call.place = .readying → call.isStart = true
  bounded : r.started ≤ r.entries.length
  /-- One `Start` at a time. -/
  single : ∀ j k : Nat, At r.calls j (·.inProgress = true) → At r.calls k (·.inProgress = true) → j = k

def Taken (r : Runtime) : Prop :=
  r.stopped = true → (∃ k, At r.calls k (·.waits = true)) ∨
    (r.started = 0 ∧ ∀ (k : Nat) (call : Call), r.calls[k]? = some call → call.isStarting = false)

/-- The action does not interfere with a `Start`: neither an `Add` that is otherwise accepted nor another `Start` passes
the check while one is in progress, and `Stop` does not take the counter while one moves it. -/
def Apart (r : Runtime) : Action → Prop
  | .add name isNil =>
      name ≠ "" → isNil = false → name ∉ r.entries → r.fresh = true → ∀ call ∈ r.calls, call.inProgress = false
  | .start => r.fresh = true → ∀ call ∈ r.calls, call.inProgress = false
  | .take k _ => At r.calls k (·.isStart = true) ∨ ∀ call ∈ r.calls, call.isStarting = false
  | _ => True

instance (r : Runtime) (a : Action) : Decidable (r.Apart a) := by
  rcases a with _ | _ <;> dsimp only [Apart] <;> infer_instance

attribute [grind] fresh Apart

section Roles

variable {a : Action}

/-- A call keeps what it was made with, and `Start` and `Stop` make a new one. -/
theorem call_origin (found : (next r a).calls[k]? = some call) :
    (∃ old, r.calls[k]? = some old ∧ call.isStart = old.isStart ∧ call.entries = old.entries) ∨
      (a = .start ∧ call.isStart = true ∧ call.entries.length ≤ r.entries.length) ∨
      (a = .stop ∧ call.isStart = false ∧ call.entries = []) := by
  have moved {f : Call → Call} {j : Nat} (there : (r.calls.modify j f)[k]? = some call)
      (keeps : ∀ old, (f old).isStart = old.isStart ∧ (f old).entries = old.entries) :
      ∃ old, r.calls[k]? = some old ∧ call.isStart = old.isStart ∧ call.entries = old.entries := by
    rcases lookup_modify there with ⟨rfl, old, was, rfl⟩ | ⟨-, was⟩
    · exact ⟨old, was, keeps old⟩
    · exact ⟨call, was, rfl, rfl⟩
  cases a with
  | add name isNil =>
    refine .inl ⟨call, ?_, rfl, rfl⟩
    dsimp only [next, Runtime.add] at found
    split_ifs at found <;> exact found
  | start =>
    dsimp only [next, Runtime.start] at found
    split at found
    · rcases lookup_append found with old | ⟨-, rfl⟩
      · exact .inl ⟨call, old, rfl, rfl⟩
      · exact .inr (.inl ⟨rfl, rfl, Nat.zero_le _⟩)
    · rcases lookup_append found with old | ⟨-, rfl⟩
      · exact .inl ⟨call, old, rfl, rfl⟩
      · exact .inr (.inl ⟨rfl, rfl, Nat.le_refl _⟩)
  | stop =>
    dsimp only [next, Runtime.stop] at found
    split at found <;> rcases lookup_append found with old | ⟨-, rfl⟩
    · exact .inl ⟨call, old, rfl, rfl⟩
    · exact .inr (.inr ⟨rfl, rfl, rfl⟩)
    · exact .inl ⟨call, old, rfl, rfl⟩
    · exact .inr (.inr ⟨rfl, rfl, rfl⟩)
  | finish j errs =>
    dsimp only [next, Runtime.finish] at found
    split at found <;> exact .inl (moved found fun _ => ⟨rfl, rfl⟩)
  | _ => exact .inl (moved found fun _ => ⟨rfl, rfl⟩)

theorem entries_next : r.entries.length ≤ (next r a).entries.length := by
  cases a with
  | add | start | stop | finish => grind
  | _ => exact Nat.le_refl _

theorem stopped_next (stopped : r.stopped = true) : (next r a).stopped = true := by
  cases a with
  | add | start | stop | finish => grind
  | _ => exact stopped

theorem inProgress_next (enabled : Enabled r a) (busy : At (next r a).calls k (·.inProgress = true)) :
    At r.calls k (·.inProgress = true) ∨ (a = .start ∧ r.fresh = true ∧ k = r.calls.length) := by
  cases a <;> grind

theorem roles_next (roles : r.Roles) (runs : r.Runs n) (apart : r.Apart a) (enabled : Enabled r a) : (next r a).Roles where
  stop k call found isStop := by
    rcases call_origin found with ⟨old, was, same, -⟩ | ⟨-, isStart, -⟩ | ⟨rfl, -⟩
    · exact stopped_next (roles.stop k old was (same ▸ isStop))
    · rw [isStart] at isStop
      cases isStop
    · dsimp only [next, Runtime.stop]
      split <;> first | assumption | rfl
  copies k call found := by
    refine Nat.le_trans ?_ entries_next
    rcases call_origin found with ⟨old, was, -, same⟩ | ⟨-, -, copied⟩ | ⟨-, -, none⟩
    · rw [same]
      exact roles.copies k old was
    · exact copied
    · simp [none]
  readies k call found at_ := by
    -- a call that is counting is a `Start`, so it stays one when it gets to the end of its components
    have counting (j i : Nat) (other : Call) (there : r.calls[j]? = some other) (here : other.place = .counting i) :
        other.isStart = true := by
      obtain ⟨accounts, -⟩ := runs.answers there (by simp [Call.Quiet, here])
      simp only [Call.Accounts, here] at accounts
      exact accounts.1
    have readies := roles.readies
    cases a with
    | count j i =>
      rcases lookup_modify found with ⟨rfl, old, was, rfl⟩ | ⟨-, was⟩
      · exact counting k i old was (enabled.here was)
      · exact readies k call was at_
    | _ => grind
  bounded := by
    have bounded := roles.bounded
    cases a with
    | count j i =>
      obtain ⟨other, there, here⟩ := at_iff.mp enabled
      obtain ⟨accounts, -⟩ := runs.answers there (by simp [Call.Quiet, here])
      simp only [Call.Accounts, here] at accounts
      exact Nat.le_trans accounts.2.2.2 (roles.copies j other there)
    | fail j i errs =>
      obtain ⟨other, there, here⟩ := at_iff.mp enabled
      obtain ⟨accounts, -⟩ := runs.answers there (by simp [Call.Quiet, here])
      simp only [Call.Accounts, here] at accounts
      exact Nat.le_trans (Nat.le_of_lt accounts.2.2.2) (roles.copies j other there)
    | take => exact Nat.zero_le _
    | add => exact Nat.le_trans (by grind) (entries_next (a := .add _ _))
    | start | stop | finish => grind
    | _ => exact bounded
  single := by
    intro j k first second
    rcases inProgress_next enabled first with early | ⟨rfl, check, rfl⟩
    · rcases inProgress_next enabled second with late | ⟨rfl, check, rfl⟩
      · exact roles.single j k early late
      · obtain ⟨call, found, busy⟩ := at_iff.mp early
        rw [apart check call (List.mem_of_getElem? found)] at busy
        cases busy
    · rcases inProgress_next enabled second with late | ⟨-, -, rfl⟩
      · obtain ⟨call, found, busy⟩ := at_iff.mp late
        rw [apart check call (List.mem_of_getElem? found)] at busy
        cases busy
      · rfl

theorem taken_next (taken : r.Taken) (roles : r.Roles) (runs : r.Runs n) (apart : r.Apart a) (enabled : Enabled r a) :
    (next r a).Taken := by
  intro ends
  have stays : ∀ k, At r.calls k (·.waits = true) → (∀ errs, a ≠ .take k errs) →
      At (next r a).calls k (·.waits = true) := by
    cases a <;> first | exact fun _ waits _ => waits | grind
  have single := roles.single
  have answers (k : Nat) (call : Call) (found : r.calls[k]? = some call) (loud : ¬ call.Quiet) :=
    (runs.answers found loud).1
  unfold Taken at taken
  cases a with
  | take k errs =>
    obtain ⟨call, found, at_⟩ := at_iff.mp enabled
    rcases apart with isStart | none
    · rcases taken (by grind) with ⟨j, waiting⟩ | ⟨zero, none⟩
      · exact .inl ⟨j, stays j waiting (by grind)⟩
      · grind
    · refine .inr ⟨rfl, forall_modify (fun _ _ => ?_) fun j other _ there => none other (List.mem_of_getElem? there)⟩
      simp [Call.isStarting]
  | stop =>
    by_cases stopped : r.stopped = true
    · grind
    · exact .inl ⟨r.calls.length, by grind [List.getElem?_concat_length]⟩
  | _ => first | exact taken ends | grind

end Roles

structure Sound (m : Monitor) (n : Nat) (r : Runtime) : Prop where
  watched : ({} : Monitor).watch r.log = some m
  running : m.running = descending n
  runs : r.Runs n
  starting : m.starting = r.calls.countP Call.inProgress
  succeeded : m.succeeded = true → r.ready = true ∨ r.stopped = true
  roles : r.Roles
  taken : r.Taken

namespace Sound

variable {m m' : Monitor} {n' : Nat}

theorem observe (sound : r.Sound m n) {event : Event} (seen : m.observe event = some m') (log : r'.log = r.log ++ [event]) :
    ({} : Monitor).watch r'.log = some m' := by
  rw [log, Monitor.watch_append, sound.watched]
  exact seen

theorem starting_place (sound : r.Sound m n) (found : r.calls[k]? = some call)
    (same : (f call).inProgress = call.inProgress) :
    m.starting = (r.calls.modify k f).countP Call.inProgress := by
  rw [sound.starting]
  refine (countP_modify_same fun entry there => ?_).symm
  rw [found] at there
  cases there
  exact same

theorem starting_leave (sound : r.Sound m n) (found : r.calls[k]? = some call) (isStart : call.inProgress = true)
    (returned : (f call).inProgress = false) :
    m.starting - 1 = (r.calls.modify k f).countP Call.inProgress := by
  have moved := countP_modify (p := Call.inProgress) (f := f) found
  rw [isStart, returned, ← sound.starting] at moved
  simp only [Bool.toNat_true, Bool.toNat_false] at moved
  omega

theorem componentStarted {i : Nat} (sound : r.Sound m n) (enabled : Enabled r (.componentStarted k i)) :
    (next r (.componentStarted k i)).Sound { m with running := descending (n + 1) } (n + 1) := by
  obtain ⟨call, found, at_⟩ := at_iff.mp enabled
  obtain ⟨accounts, others⟩ := sound.runs.answers found (by simp [Call.Quiet, at_])
  simp only [Call.Accounts, at_] at accounts
  obtain ⟨isStart, started, rfl, inside⟩ := accounts
  exact ⟨sound.observe (Monitor.observe_started sound.running) rfl, rfl,
    .work found others rfl ⟨isStart, started, rfl, inside⟩, sound.starting_place found (by grind), sound.succeeded,
    roles_next sound.roles sound.runs trivial enabled, taken_next sound.taken sound.roles sound.runs trivial enabled⟩

theorem componentFailed {i : Nat} {err : String} (sound : r.Sound m n) (enabled : Enabled r (.componentFailed k i err)) :
    (next r (.componentFailed k i err)).Sound m n := by
  obtain ⟨call, found, at_⟩ := at_iff.mp enabled
  obtain ⟨accounts, others⟩ := sound.runs.answers found (by simp [Call.Quiet, at_])
  simp only [Call.Accounts, at_] at accounts
  obtain ⟨isStart, started, rfl, inside⟩ := accounts
  exact ⟨sound.observe (Monitor.observe_startFailed sound.running) rfl, sound.running,
    .work found others rfl ⟨isStart, started, rfl, inside⟩, sound.starting_place found (by grind), sound.succeeded,
    roles_next sound.roles sound.runs trivial enabled, taken_next sound.taken sound.roles sound.runs trivial enabled⟩

theorem count {i : Nat} (sound : r.Sound m n) (enabled : Enabled r (.count k i)) : (next r (.count k i)).Sound m n := by
  obtain ⟨call, found, at_⟩ := at_iff.mp enabled
  obtain ⟨accounts, others⟩ := sound.runs.answers found (by simp [Call.Quiet, at_])
  simp only [Call.Accounts, at_] at accounts
  obtain ⟨isStart, started, rfl, inside⟩ := accounts
  refine ⟨sound.watched, sound.running, ?_, sound.starting_place found (by grind), sound.succeeded,
    roles_next sound.roles sound.runs trivial enabled, taken_next sound.taken sound.roles sound.runs trivial enabled⟩
  by_cases more : i + 1 < call.entries.length
  · exact .work found others rfl (by simp [Call.Accounts, Call.proceed, more, isStart, next])
  · exact .rest found others rfl (by simp [Call.Quiet, Call.proceed, more])

variable {errs : List String}

section

variable (sound : r.Sound m n)
include sound

theorem fail {i : Nat} (enabled : Enabled r (.fail k i errs)) : (next r (.fail k i errs)).Sound m n := by
  obtain ⟨call, found, at_⟩ := at_iff.mp enabled
  obtain ⟨accounts, others⟩ := sound.runs.answers found (by simp [Call.Quiet, at_])
  simp only [Call.Accounts, at_] at accounts
  obtain ⟨isStart, started, rfl, inside⟩ := accounts
  exact ⟨sound.watched, sound.running, .rest found others rfl trivial, sound.starting_place found (by grind),
    sound.succeeded, roles_next sound.roles sound.runs trivial enabled,
    taken_next sound.taken sound.roles sound.runs trivial enabled⟩

/-- Whoever takes the counter takes all there is, or another call still answers for it. -/
theorem take (apart : r.Apart (.take k errs)) (enabled : Enabled r (.take k errs)) : (next r (.take k errs)).Sound m n := by
  obtain ⟨call, found, at_⟩ := at_iff.mp enabled
  have quiet : call.Quiet := by simp [Call.Quiet, at_]
  refine ⟨sound.watched, sound.running, ?_, sound.starting_place found (by grind), sound.succeeded,
    roles_next sound.roles sound.runs apart enabled, taken_next sound.taken sound.roles sound.runs apart enabled⟩
  cases runs : sound.runs with
  | idle all =>
    have others : r.Others k := fun j other there _ => all j other there
    by_cases zero : r.started = 0
    · rw [zero]
      exact .rest found others rfl (by simp [Call.Quiet, zero])
    · have bounded := sound.roles.bounded
      exact .work found others rfl (by grind)
  | busy k' n call' found' accounts others =>
    -- nobody starts components, so the other call stops them
    have settled : call'.isStarting = false := by
      rcases apart with isStart | none
      · have single := sound.roles.single k k'
        grind
      · exact none call' (List.mem_of_getElem? found')
    have zero : r.started = 0 := by grind
    exact sound.runs.hush found quiet rfl zero.symm (by simp [Call.Quiet, zero])

theorem componentStopped {entries errs : List String} {err : Option String}
    (enabled : Enabled r (.componentStopped k entries errs err)) :
    (next r (.componentStopped k entries errs err)).Sound { m with running := descending (entries.length - 1) }
      (entries.length - 1) := by
  obtain ⟨call, found, at_⟩ := at_iff.mp enabled.1
  have some_ := enabled.2
  obtain ⟨accounts, others⟩ := sound.runs.answers found (by simp [Call.Quiet, at_, some_])
  simp only [Call.Accounts, at_] at accounts
  obtain ⟨_, zero, rfl⟩ := accounts
  have running := sound.running
  rw [← Nat.sub_add_cancel (List.length_pos_iff.mpr some_)] at running
  refine ⟨sound.observe (Monitor.observe_stopped running) rfl, rfl, ?_, sound.starting_place found (by grind),
    sound.succeeded, roles_next sound.roles sound.runs trivial enabled,
    taken_next sound.taken sound.roles sound.runs trivial enabled⟩
  by_cases last : entries.dropLast = []
  · have none : entries.length - 1 = 0 := by
      rw [← List.length_dropLast, last, List.length_nil]
    rw [none, ← zero]
    exact .rest found others (show (next r (.componentStopped k entries errs err)).calls = _ from rfl)
      (by simp [Call.Quiet, last])
  · exact .work found others rfl ⟨last, zero, (List.length_dropLast).symm⟩

theorem becomeReady (enabled : Enabled r (.becomeReady k)) :
    (next r (.becomeReady k)).Sound { m with starting := m.starting - 1, succeeded := m.succeeded || true } n := by
  obtain ⟨call, found, at_⟩ := at_iff.mp enabled
  have isStart := sound.roles.readies k call found at_
  exact ⟨sound.observe rfl rfl, sound.running, sound.runs.hush found (by simp [Call.Quiet, at_]) rfl rfl trivial,
    sound.starting_leave found (by grind) (by grind), fun _ => .inl rfl,
    roles_next sound.roles sound.runs trivial enabled, taken_next sound.taken sound.roles sound.runs trivial enabled⟩

theorem finish (enabled : Enabled r (.finish k errs)) : ∃ m', (next r (.finish k errs)).Sound m' n := by
  obtain ⟨call, found, at_⟩ := at_iff.mp enabled
  have quiet : call.Quiet := by simp [Call.Quiet, at_]
  have roles := roles_next sound.roles sound.runs (a := .finish k errs) trivial enabled
  have taken := taken_next sound.taken sound.roles sound.runs (a := .finish k errs) trivial enabled
  dsimp only [next, Runtime.finish] at roles taken ⊢
  split at roles
  · next isStart =>
    rw [if_pos isStart] at taken ⊢
    refine ⟨{ m with starting := m.starting - 1, succeeded := m.succeeded || false }, sound.observe rfl rfl, sound.running,
      sound.runs.hush found quiet rfl rfl trivial, sound.starting_leave found (by grind) (by grind), fun done => ?_,
      roles, taken⟩
    exact sound.succeeded (by simpa using done)
  · next isStop =>
    rw [if_neg isStop] at taken ⊢
    exact ⟨m, sound.watched, sound.running, sound.runs.hush found quiet rfl rfl trivial,
      sound.starting_place found (by grind), sound.succeeded, roles, taken⟩

theorem stop : (next r .stop).Sound m n := by
  have roles := roles_next sound.roles sound.runs (a := .stop) trivial trivial
  have taken := taken_next sound.taken sound.roles sound.runs (a := .stop) trivial trivial
  have starting := sound.starting
  dsimp only [next, Runtime.stop] at roles taken ⊢
  split
  · next stopped =>
    rw [if_pos stopped] at roles taken
    exact ⟨sound.watched, sound.running, sound.runs.enter rfl trivial rfl, by grind, sound.succeeded, roles, taken⟩
  · next running =>
    rw [if_neg running] at roles taken
    exact ⟨sound.watched, sound.running, sound.runs.enter rfl trivial rfl, by grind, fun _ => .inr rfl, roles, taken⟩

theorem start (apart : r.Apart .start) : ∃ m', (next r .start).Sound m' n := by
  have roles := roles_next sound.roles sound.runs (a := .start) apart trivial
  have taken := taken_next sound.taken sound.roles sound.runs (a := .start) apart trivial
  have starting := sound.starting
  dsimp only [next, Runtime.start] at roles taken ⊢
  split
  · next stale =>
    rw [if_pos stale] at roles taken
    exact ⟨m, sound.watched, sound.running, sound.runs.enter rfl trivial rfl, by grind, sound.succeeded, roles, taken⟩
  · next check =>
    rw [if_neg check] at roles taken
    have fresh : r.fresh = true := by simpa using check
    have none := apart fresh
    simp only [Runtime.fresh, Bool.and_eq_true, decide_eq_true_eq, Bool.not_eq_true'] at fresh
    obtain ⟨⟨zero, _⟩, running⟩ := fresh
    -- nobody answers for a component: a `Start` would be in progress, and there is no `Stop`
    have quiet : ∀ (j : Nat) (call : Call), r.calls[j]? = some call → call.Quiet := by
      cases runs : sound.runs with
      | idle quiet => exact quiet
      | busy k n call found accounts others =>
        have isStop := sound.roles.stop k call found
        have active := none call (List.mem_of_getElem? found)
        grind
    refine ⟨{ m with starting := m.starting + 1 }, sound.observe rfl rfl, sound.running, ?_, by grind, sound.succeeded,
      roles, taken⟩
    by_cases any : 0 < r.entries.length
    · refine .busy r.calls.length n _ List.getElem?_concat_length ?_ fun j other there apart => ?_
      · simp [Call.Accounts, Call.proceed, any, record, sound.runs.counted quiet, zero]
      · grind
    · refine sound.runs.enter rfl ?_ rfl
      simp [Call.Quiet, Call.proceed, any]

theorem add {name : String} {isNil : Bool} (apart : r.Apart (.add name isNil)) : (next r (.add name isNil)).Sound m n := by
  dsimp only [next]
  split
  · next r' accepted =>
    unfold Runtime.add at accepted
    split_ifs at accepted with invalid check duplicate
    cases accepted
    have fresh : r.fresh = true := by simpa using check
    rw [not_or, Bool.not_eq_true] at invalid
    have none := apart invalid.1 invalid.2 duplicate fresh
    simp only [Runtime.fresh, Bool.and_eq_true, decide_eq_true_eq, Bool.not_eq_true'] at fresh
    have zero : m.starting = 0 := by
      rw [sound.starting]
      exact List.countP_eq_zero.mpr fun call member => by simp [none call member]
    have unready : m.succeeded = false := Bool.eq_false_iff.mpr fun done => by
      rcases sound.succeeded done with ready | stopped
      · simp [fresh] at ready
      · simp [fresh] at stopped
    have seen : m.observe (.added r.entries.length) = some m := by simp [Monitor.observe, zero, unready]
    have longer : r.entries.length ≤ (r.entries ++ [name]).length := by simp
    refine ⟨sound.observe seen rfl, sound.running, sound.runs.same rfl rfl, sound.starting, sound.succeeded, ?_, sound.taken⟩
    refine ⟨sound.roles.stop, fun k call found => ?_, sound.roles.readies, ?_, sound.roles.single⟩
    · exact Nat.le_trans (sound.roles.copies k call found) longer
    · exact Nat.le_trans sound.roles.bounded longer
  · exact sound

end

end Sound

theorem sound_next {m : Monitor} {a : Action} (sound : r.Sound m n) (apart : r.Apart a) (enabled : Enabled r a) :
    ∃ m' n', (next r a).Sound m' n' := by
  cases a with
  | add => exact ⟨_, _, sound.add apart⟩
  | start =>
    obtain ⟨m', sound'⟩ := sound.start apart
    exact ⟨m', n, sound'⟩
  | componentStarted => exact ⟨_, _, sound.componentStarted enabled⟩
  | componentFailed => exact ⟨_, _, sound.componentFailed enabled⟩
  | count => exact ⟨_, _, sound.count enabled⟩
  | fail => exact ⟨_, _, sound.fail enabled⟩
  | becomeReady => exact ⟨_, _, sound.becomeReady enabled⟩
  | stop => exact ⟨_, _, sound.stop⟩
  | take => exact ⟨_, _, sound.take apart enabled⟩
  | componentStopped => exact ⟨_, _, sound.componentStopped enabled⟩
  | finish =>
    obtain ⟨m', sound'⟩ := sound.finish enabled
    exact ⟨m', n, sound'⟩

theorem sound_initial : Sound {} 0 {} where
  watched := rfl
  running := rfl
  runs := .idle fun _ _ found => by simp at found
  starting := rfl
  succeeded := nofun
  roles := ⟨fun _ _ found => by simp at found, fun _ _ found => by simp at found, fun _ _ found => by simp at found,
    Nat.le_refl 0, fun _ _ first => by simp [At] at first⟩
  taken := nofun

theorem Sound.stopped_all {m : Monitor} (sound : r.Sound m n) (returned : ∀ call ∈ r.calls, call.isReturned = true)
    (asked : ∃ call ∈ r.calls, call.isStart = false) : m.running = [] := by
  have quiet : ∀ (j : Nat) (call : Call), r.calls[j]? = some call → call.Quiet := by
    intro j call found
    have returned := returned call (List.mem_of_getElem? found)
    cases at_ : call.place <;> simp_all [Call.isReturned, Call.Quiet]
  obtain ⟨call, member, isStop⟩ := asked
  obtain ⟨k, found⟩ := List.getElem?_of_mem member
  have zero : r.started = 0 := by
    rcases sound.taken (sound.roles.stop k call found isStop) with ⟨j, waiting⟩ | ⟨zero, _⟩
    · obtain ⟨other, there, waits⟩ := at_iff.mp waiting
      have returned := returned other (List.mem_of_getElem? there)
      cases at_ : other.place <;> simp_all [Call.isReturned, Call.waits]
    · exact zero
  rw [sound.running, sound.runs.counted quiet, zero, descending_zero]

/-- In every run in which no action interferes with a `Start`, the log is one that the observer puts up with: a component
is not started while it runs, only the running component that was registered last is stopped, and none is added during a
`Start` or after one that succeeded. When every call has returned and one was a `Stop`, no component runs. -/
theorem lifecycle_of_apart (actions : List Action) (r : Runtime) (ran : machine.run {} actions = some r)
    (apart : machine.Meets Apart {} actions) :
    ∃ m, ({} : Monitor).watch r.log = some m ∧
      ((∀ call ∈ r.calls, call.isReturned = true) → (∃ call ∈ r.calls, call.isStart = false) → m.running = []) := by
  obtain ⟨m, n, sound⟩ := Machine.run_keeps_where (I := fun r => ∃ m n, Sound m n r)
    (fun r a known apart enabled => by
      obtain ⟨m, n, sound⟩ := known
      exact sound_next sound apart enabled) ran apart ⟨{}, 0, sound_initial⟩
  exact ⟨m, sound.watched, sound.stopped_all⟩

def restarted : List Action :=
  [.add "one" false, .add "two" false, .start, .componentStarted 0 0, .count 0 0, .componentFailed 0 1 "bad",
    .fail 0 1 ["app: start two: bad"], .take 0 ["app: start two: bad"],
    .componentStopped 0 ["one"] ["app: start two: bad"] none, .finish 0 ["app: start two: bad"],
    .start, .componentStarted 1 0, .count 1 0, .componentStarted 1 1, .count 1 1, .becomeReady 1,
    .stop, .stop, .take 2 [], .componentStopped 2 ["one", "two"] [] none, .componentStopped 2 ["one"] [] none, .finish 2 []]

theorem lifecycle_of_apart_restarted :
    (machine.after {} restarted).log =
      [.added 0, .added 1, .startBegan, .started 0, .startFailed 1, .stopped 0, .startReturned false,
        .startBegan, .started 0, .started 1, .startReturned true, .stopped 1, .stopped 0] ∧
    ∃ m, ({} : Monitor).watch (machine.after {} restarted).log = some m ∧
      ((∀ call ∈ (machine.after {} restarted).calls, call.isReturned = true) →
        (∃ call ∈ (machine.after {} restarted).calls, call.isStart = false) → m.running = []) :=
  ⟨by decide +kernel, lifecycle_of_apart restarted _ (Machine.run_after (by decide +kernel)) (by decide +kernel)⟩

/-- `Stop` takes the counter between two components. Both calls return without an error, and the second component was
started and is never stopped. -/
theorem stop_during_start :
    ∃ r m, machine.run {} [.add "one" false, .add "two" false, .start, .componentStarted 0 0, .count 0 0, .stop,
        .take 1 [], .componentStopped 1 ["one"] [] none, .finish 1 [], .componentStarted 0 1, .count 0 1,
        .becomeReady 0] = some r ∧
      r.calls.map Call.place = [.returned [], .returned []] ∧ ({} : Monitor).watch r.log = some m ∧ m.running = [1] := by
  refine ⟨_, { running := [1], succeeded := true }, Machine.run_after (by decide +kernel), ?_⟩
  decide +kernel

end Runtime

end Skygo.App
