import Skygo.Timer.Lease

/-! One `Add` and the calls that run beside it.

`Add` sends its commands one by one: the timer enters the pending set, leaves the processing set, and then its row and
the index are written. From the first of them on, a call that takes the timer out again undoes the addition, and nothing
that follows repairs it. Which calls do depends on what they have read before, and on whose claim is on record.
-/

set_option autoImplicit false

attribute [-instance] instBooleanRingBool

namespace Skygo.Timer.Queue

open Semantics Redis Program

variable {T V : Type}

/-- What an `Add` writes, and for whom. -/
structure Addition (V : Type) where
  uid : Nat
  timerID : Nat
  businessID : String
  dueTimeMs : Int
  data : V

def addition (codec : Codec T V) (uid : Nat) (rec : T) (data : V) : Addition V :=
  ⟨uid, codec.timerID rec, codec.businessID rec, codec.dueTimeMs (codec.markPending rec), data⟩

inductive Phase where
  | fresh
  | listed
  | released
  | stored
  | indexed
  deriving DecidableEq

def Phase.hasRow : Phase → Bool
  | .stored | .indexed => true
  | _ => false

def writesRow (uid id : Nat) : Nat × Command V → Bool
  | (u, .hsetData timerID _) => u == uid && timerID == id
  | _ => false

namespace Addition

variable (w : Addition V)

inductive Adding : Phase → StoreCall V Unit → Prop
  | replace {c : Nat × Command V} {resume : Reply c.2 → StoreCall V Unit} (plain : Plain c.2)
      (rest : ∀ r, Adding .fresh (resume r)) : Adding .fresh (.issue c resume)
  | list {resume : Unit → StoreCall V Unit} (rest : ∀ r, Adding .listed (resume r)) :
      Adding .fresh (.issue (w.uid, .zadd .pending w.dueTimeMs w.timerID) resume)
  | release {resume : Unit → StoreCall V Unit} (rest : ∀ r, Adding .released (resume r)) :
      Adding .listed (.issue (w.uid, .zrem .processing w.timerID) resume)
  | store {resume : Unit → StoreCall V Unit} (rest : ∀ r, Adding .stored (resume r)) :
      Adding .released (.issue (w.uid, .hsetData w.timerID w.data) resume)
  | index {resume : Unit → StoreCall V Unit} (rest : ∀ r, Adding .indexed (resume r)) :
      Adding .stored (.issue (w.uid, .hsetIndex w.businessID w.timerID) resume)
  | unnamed (none : w.businessID = "") : Adding .stored (.done ())
  | named : Adding .indexed (.done ())

/-- What the `Add` does to the ledger of its user. -/
inductive Advance (l : Ledger V) : Phase → Phase → Ledger V → Prop
  | replace (l' : Ledger V) : Advance l .fresh .fresh l'
  | list : Advance l .fresh .listed (l.zadd .pending w.dueTimeMs w.timerID)
  | release : Advance l .listed .released (l.zrem .processing w.timerID)
  | store : Advance l .released .stored (l.setData w.timerID (some w.data))
  | index : Advance l .stored .indexed { l with index := l.index.hset w.businessID w.timerID }

def Wrote : Phase → Ledger V → Prop
  | .fresh, _ | .listed, _ | .released, _ => True
  | .stored, l => l.data w.timerID = some w.data
  | .indexed, l => l.data w.timerID = some w.data ∧ l.index.lookup w.businessID = some w.timerID

/-- The record is pending, or in processing because somebody has claimed it, with its row and its place in the index. -/
structure Active (l : Ledger V) : Prop where
  listed : w.timerID ∈ l.zset .pending ∨ w.timerID ∈ l.zset .processing
  data : l.data w.timerID = some w.data
  index : w.businessID ≠ "" → l.index.lookup w.businessID = some w.timerID

structure Leaves (l l' : Ledger V) : Prop where
  data : l'.data w.timerID = l.data w.timerID
  index : ∀ businessID, l.index.lookup businessID = some w.timerID → l'.index.lookup businessID = some w.timerID

variable {w} {l l' : Ledger V} {phase later : Phase}

theorem Leaves.refl (l : Ledger V) : w.Leaves l l := ⟨rfl, fun _ known => known⟩

theorem Wrote.leaves (wrote : w.Wrote phase l) (leaves : w.Leaves l l') : w.Wrote phase l' := by
  cases phase with
  | fresh | listed | released => trivial
  | stored => exact leaves.data.trans wrote
  | indexed => exact ⟨leaves.data.trans wrote.1, leaves.index _ wrote.2⟩

theorem Wrote.advance (wrote : w.Wrote phase l) (advance : w.Advance l phase later l') : w.Wrote later l' := by
  cases advance with
  | replace | list | release => trivial
  | store => simp [Wrote]
  | index => exact ⟨wrote, by simp [Hash.lookup_hset]⟩

theorem Wrote.ended (wrote : w.Wrote phase l) (adding : w.Adding phase (.done ())) :
    phase ≠ .fresh ∧ l.data w.timerID = some w.data ∧ (w.businessID ≠ "" → l.index.lookup w.businessID = some w.timerID) := by
  cases adding with
  | unnamed none => exact ⟨nofun, wrote, fun some => absurd none some⟩
  | named => exact ⟨nofun, wrote.1, fun _ => wrote.2⟩

theorem Advance.not_fresh (advance : w.Advance l phase later l') (begun : phase ≠ .fresh) : later ≠ .fresh := by
  cases advance <;> simp_all

theorem adding_bind {α β : Type} {p : Call V α} {f : α → Call V β} (plain : p.Only Plain)
    (rest : ∀ a, w.Adding .fresh (onUser w.uid (f a))) : w.Adding .fresh (onUser w.uid (p >>= f)) := by
  induction p with
  | done a => exact rest a
  | issue c resume ih => exact .replace plain.1 fun r => ih r (plain.2 r)

end Addition

theorem adding_add {codec : Codec T V} {uid : Nat} {rec : T} {data : V}
    (written : codec.marshal (codec.markPending rec) = some data) :
    (addition codec uid rec data).Adding .fresh ((Op.add uid rec).code codec) := by
  show (addition codec uid rec data).Adding .fresh (onUser uid (add codec rec))
  unfold add
  rw [written]
  refine Addition.adding_bind (plain_replaceOld _ _) fun _ => ?_
  -- the pipeline: three commands, and the index if the record has a business
  refine .list fun _ => .release fun _ => .store fun _ => ?_
  show (addition codec uid rec data).Adding .stored (onUser uid ((if codec.businessID rec = "" then pure () else
    redis (.hsetIndex (codec.businessID rec) (codec.timerID rec))) >>= fun _ => pure true))
  split
  · next none => exact .unnamed none
  · exact .index fun _ => .named

def race (codec : Codec T V) (store : Store V) (uid : Nat) (rec : T) : Processes T V :=
  { store := store, calls := [(Op.add uid rec).code codec], started := [.call (.add uid rec)] }

def rival? (p : Processes T V) : Pool.Action (Activity T) → Option (Nat × Nat × Command V)
  | .step (i + 1) => ((p.calls[i + 1]?).bind head?).map fun c => (i + 1, c)
  | _ => none

/-- The `Add` does not stop, and the calls beside it are of one kind. -/
def Beside (kind : Activity T → Prop) : Pool.Action (Activity T) → Prop
  | .start activity => kind activity
  | .crash i => i ≠ 0
  | .step _ => True

instance {kind : Activity T → Prop} [DecidablePred kind] (a : Pool.Action (Activity T)) : Decidable (Beside kind a) := by
  cases a <;> unfold Beside <;> infer_instance

namespace Addition

variable (w : Addition V)

/-- Once the timer is listed, no other call issues a command that does `harm`. -/
def Never (harm : Processes T V → Nat → Command V → Bool) (p : Processes T V) (a : Pool.Action (Activity T)) : Prop :=
  ∀ r ∈ rival? p a, r.2.1 = w.uid → 0 < additions w.uid w.timerID p.history → harm p r.1 r.2.2 = false

instance (harm : Processes T V → Nat → Command V → Bool) (p : Processes T V) (a : Pool.Action (Activity T)) :
    Decidable (w.Never harm p a) := by
  unfold Never; infer_instance

structure Racing (P : List (Executed V) → Nat × Command V → Prop) (phase : Phase) (p : Processes T V) : Prop where
  adding : ∃ call, p.calls[0]? = some call ∧ w.Adding phase call
  rivals : ∀ i call, p.calls[i + 1]? = some call → call.Follows P (p.logOf (i + 1))
  listed : 0 < additions w.uid w.timerID p.history ↔ phase ≠ .fresh
  rows : (p.history.any fun e => writesRow w.uid w.timerID e.1) = true → phase.hasRow = true
  known : ∀ entry ∈ p.log, entry.1 < p.calls.length

inductive Moves (codec : Codec T V) (P : List (Executed V) → Nat × Command V → Prop) (p : Processes T V)
    (a : Pool.Action (Activity T)) : Phase → Phase → Ledger V → Prop
  | same {phase : Phase} (idle : ∀ i c, rival? p a ≠ some (i, w.uid, c)) : Moves codec P p a phase phase (p.store w.uid)
  | rival {phase : Phase} {i : Nat} {c : Command V} (next : rival? p a = some (i, w.uid, c)) (fits : P (p.logOf i) (w.uid, c)) :
      Moves codec P p a phase phase ((p.store w.uid).exec codec.fields c).1
  | own {phase later : Phase} {l' : Ledger V} (idle : ∀ i c, rival? p a ≠ some (i, w.uid, c))
      (advance : w.Advance (p.store w.uid) phase later l') : Moves codec P p a phase later l'

end Addition

section Steps

variable {codec : Codec T V} {w : Addition V} {P : List (Executed V) → Nat × Command V → Prop} {kind : Activity T → Prop}
  {phase : Phase} {p : Processes T V} {a : Pool.Action (Activity T)}

theorem writesRow_of_plain {uid id : Nat} {c : Nat × Command V} (plain : Plain c.2) : writesRow uid id c = false := by
  obtain ⟨u, c⟩ := c
  cases c with
  | hsetData timerID v => exact plain.elim
  | _ => rfl

theorem additions_cons (uid id : Nat) (e : Executed V) (history : List (Executed V)) :
    additions uid id (e :: history) = added uid id e.1 + additions uid id history := by
  simp [additions, tally]

structure Addition.Shows (w : Addition V) (phase : Phase) (c : Nat × Command V) (later : Phase) : Prop where
  listed : ∀ listed, (0 < listed ↔ phase ≠ .fresh) → (0 < added w.uid w.timerID c + listed ↔ later ≠ .fresh)
  row : writesRow w.uid w.timerID c = true ∨ phase.hasRow = true → later.hasRow = true

/-- One command of the `Add`: what it still has to do, what it wrote, and what the history shows of it. -/
theorem Addition.Adding.step {c : Nat × Command V} {resume : Reply c.2 → StoreCall V Unit}
    (adding : w.Adding phase (.issue c resume)) (codec : Codec T V) (s : Store V) :
    ∃ later, (∀ r, w.Adding later (resume r)) ∧ w.Advance (s w.uid) phase later ((Store.exec codec s c).1 w.uid) ∧
      w.Shows phase c later := by
  have wrote (c : Command V) : (Store.exec codec s (w.uid, c)).1 w.uid = ((s w.uid).exec codec.fields c).1 := by
    simp only [Store.exec, execAt, Function.update_self]
  cases adding with
  | replace plain rest =>
    refine ⟨.fresh, rest, .replace _, fun listed known => ?_, fun shows => ?_⟩
    · have none : added w.uid w.timerID c = 0 := added_of_plain plain c.1
      rw [none, Nat.zero_add]
      exact known
    · rw [writesRow_of_plain plain] at shows
      simpa using shows
  | list rest =>
    refine ⟨.listed, rest, ?_, fun listed known => ?_, fun shows => ?_⟩
    · rw [wrote]
      exact .list
    · have one : added w.uid w.timerID (w.uid, Command.zadd (V := V) .pending w.dueTimeMs w.timerID) = 1 := by
        simp [added]
      rw [one]
      exact ⟨fun _ => by simp, fun _ => by omega⟩
    · rcases shows with wrote | had
      · cases wrote
      · cases had
  | release rest =>
    refine ⟨.released, rest, ?_, fun listed known => ?_, fun shows => ?_⟩
    · rw [wrote]
      exact .release
    · simpa [added] using known
    · rcases shows with wrote | had
      · cases wrote
      · cases had
  | store rest =>
    refine ⟨.stored, rest, ?_, fun listed known => ?_, fun _ => rfl⟩
    · rw [wrote]
      exact .store
    · simpa [added] using known
  | index rest =>
    refine ⟨.indexed, rest, ?_, fun listed known => ?_, fun _ => rfl⟩
    · rw [wrote]
      exact .index
    · simpa [added] using known

/-- Neither lists the timer nor writes its row. -/
def Addition.Quiet (w : Addition V) (c : Nat × Command V) : Prop :=
  added w.uid w.timerID c = 0 ∧ writesRow w.uid w.timerID c = false

theorem racing_own (racing : w.Racing P phase p) {c : Nat × Command V} {resume : Reply c.2 → StoreCall V Unit}
    (here : p.calls[0]? = some (.issue c resume))
    (eq : (processes codec).next p (.step 0) =
      { p with
        store := (Store.exec codec p.store c).1
        calls := p.calls.modify 0 fun _ => resume (Store.exec codec p.store c).2
        log := (0, ⟨c, (Store.exec codec p.store c).2⟩) :: p.log }) :
    ∃ later, w.Racing P later ((processes codec).next p (.step 0)) ∧
      w.Moves codec P p (.step 0) phase later (((processes codec).next p (.step 0)).store w.uid) := by
  obtain ⟨call, found, adding⟩ := racing.adding
  rw [here] at found
  cases found
  obtain ⟨later, rest, advance, shows⟩ := adding.step codec p.store
  rw [eq]
  refine ⟨later, ⟨⟨_, lookup_modify_self here, rest _⟩, fun j other there => ?_, ?_, fun wrote => ?_, fun entry member => ?_⟩,
    .own nofun advance⟩
  · rcases lookup_modify there with ⟨same, _⟩ | ⟨_, old⟩
    · cases same
    · simpa [Pool.logOf] using racing.rivals j other old
  · show 0 < additions w.uid w.timerID (_ :: p.history) ↔ _
    rw [additions_cons]
    exact shows.listed _ racing.listed
  · have either : writesRow w.uid w.timerID c = true ∨ (p.history.any fun e => writesRow w.uid w.timerID e.1) = true := by
      simpa [Pool.history] using wrote
    exact shows.row (either.imp_right racing.rows)
  · rw [List.length_modify]
    rcases List.mem_cons.mp member with rfl | old
    · exact lookup_lt here
    · exact racing.known entry old

theorem racing_rival (quiet : ∀ log c, P log c → w.Quiet c) (racing : w.Racing P phase p) {i : Nat}
    {c : Nat × Command V} {resume : Reply c.2 → StoreCall V Unit} (here : p.calls[i + 1]? = some (.issue c resume))
    (eq : (processes codec).next p (.step (i + 1)) =
      { p with
        store := (Store.exec codec p.store c).1
        calls := p.calls.modify (i + 1) fun _ => resume (Store.exec codec p.store c).2
        log := (i + 1, ⟨c, (Store.exec codec p.store c).2⟩) :: p.log }) :
    w.Racing P phase ((processes codec).next p (.step (i + 1))) ∧
      w.Moves codec P p (.step (i + 1)) phase phase (((processes codec).next p (.step (i + 1))).store w.uid) := by
  obtain ⟨call, found, adding⟩ := racing.adding
  obtain ⟨fits, rest⟩ := racing.rivals i _ here
  rw [eq]
  refine ⟨⟨⟨call, by simp [found], adding⟩, fun j other there => ?_, ?_, fun wrote => ?_, fun entry member => ?_⟩, ?_⟩
  · -- the call has one more entry in its own log, the others have what they had
    rcases lookup_modify there with ⟨same, _, _, rfl⟩ | ⟨apart, old⟩
    · cases same
      simpa [Pool.logOf] using rest _
    · have away : i ≠ j := fun same => apart (by rw [same])
      simpa [Pool.logOf, away] using racing.rivals j other old
  · show 0 < additions w.uid w.timerID (_ :: p.history) ↔ _
    rw [additions_cons, (quiet _ c fits).1, Nat.zero_add]
    exact racing.listed
  · refine racing.rows ?_
    simpa [Pool.history, (quiet _ c fits).2] using wrote
  · rw [List.length_modify]
    rcases List.mem_cons.mp member with rfl | old
    · exact lookup_lt here
    · exact racing.known entry old
  · -- the ledger of the user changes only if the command is for that user
    obtain ⟨k, c⟩ := c
    simp only [Store.exec, execAt]
    by_cases mine : k = w.uid
    · subst mine
      rw [Function.update_self]
      exact .rival (by simp [rival?, here, head?]) fits
    · rw [Function.update_of_ne (Ne.symm mine)]
      exact .same fun _ other => by simp [rival?, here, head?, mine]

theorem racing_next (follows : ∀ activity, kind activity → (activity.code codec).Follows P [])
    (quiet : ∀ log c, P log c → w.Quiet c) (racing : w.Racing P phase p) (beside : Beside kind a) :
    ∃ later, w.Racing P later ((processes codec).next p a) ∧
      w.Moves codec P p a phase later (((processes codec).next p a).store w.uid) := by
  obtain ⟨call, found, adding⟩ := racing.adding
  cases a with
  | start activity =>
    refine ⟨phase, ⟨⟨call, lookup_append_old found, adding⟩, fun i other there => ?_, racing.listed, racing.rows,
      fun entry member => ?_⟩, .same nofun⟩
    · rcases lookup_append there with old | ⟨last, rfl⟩
      · exact racing.rivals i other old
      · -- nothing was executed for the new call
        have none : p.logOf (i + 1) = [] := by
          refine List.map_eq_nil_iff.mpr (List.filter_eq_nil_iff.mpr fun entry member => ?_)
          have below := racing.known entry member
          simp only [beq_iff_eq]
          omega
        show (activity.code codec).Follows P (p.logOf (i + 1))
        rw [none]
        exact follows activity beside
    · have below := racing.known entry member
      show entry.1 < (p.calls ++ [activity.code codec]).length
      rw [List.length_append]
      omega
  | crash i =>
    have apart : i ≠ 0 := beside
    refine ⟨phase, ⟨⟨call, ?_, adding⟩, fun j other there => ?_, racing.listed, racing.rows, fun entry member => ?_⟩,
      .same nofun⟩
    · show (p.calls.modify i _)[0]? = some call
      simp [found, apart]
    · rcases lookup_modify there with ⟨_, _, _, rfl⟩ | ⟨_, old⟩
      · trivial
      · exact racing.rivals j other old
    · show entry.1 < (p.calls.modify i _).length
      rw [List.length_modify]
      exact racing.known entry member
  | step i =>
    rcases Pool.next_cases (Store.exec codec) (Activity.code codec) p i with ⟨c, resume, here, eq⟩ | ⟨idle, eq⟩
    · cases i with
      | zero => exact racing_own racing here eq
      | succ i => exact ⟨phase, racing_rival quiet racing here eq⟩
    · rw [show (processes codec).next p (.step i) = p from eq]
      refine ⟨phase, racing, .same fun j c => ?_⟩
      cases i with
      | zero => exact nofun
      | succ i => simp [rival?, idle]

end Steps

/-- Two outcomes of a race in terms of the phase and the ledger: what is kept as long as nothing drops the timer, and what
holds for good once something did. -/
structure Verdict (codec : Codec T V) (w : Addition V) (P : List (Executed V) → Nat × Command V → Prop)
    (barred drops : Processes T V → Nat → Command V → Bool) (Kept Lost : Phase → Ledger V → Prop) : Prop where
  quiet : ∀ log c, P log c → w.Quiet c
  keeps : ∀ (p : Processes T V) phase i c, w.Racing P phase p → P (p.logOf i) (w.uid, c) →
    (phase ≠ .fresh → barred p i c = false ∧ drops p i c = false) → Kept phase (p.store w.uid) →
    Kept phase ((p.store w.uid).exec codec.fields c).1
  advances : ∀ l phase later l', Kept phase l → w.Advance l phase later l' → Kept later l'
  loses : ∀ (p : Processes T V) phase i c, P (p.logOf i) (w.uid, c) → phase ≠ .fresh → drops p i c = true →
    Lost phase ((p.store w.uid).exec codec.fields c).1
  stays : ∀ l phase log c, P log (w.uid, c) → Lost phase l → Lost phase (l.exec codec.fields c).1
  writes : ∀ l phase later l', Lost phase l → w.Advance l phase later l' → Lost later l'

section Runs

variable {codec : Codec T V} {uid : Nat} {rec : T} {data : V} {P : List (Executed V) → Nat × Command V → Prop}
  {kind : Activity T → Prop} {barred drops : Processes T V → Nat → Command V → Bool} {Kept Lost : Phase → Ledger V → Prop}
  {allowed : Processes T V → Pool.Action (Activity T) → Prop} {store : Store V} {p : Processes T V}
  {actions : List (Pool.Action (Activity T))}

theorem racing_race (written : codec.marshal (codec.markPending rec) = some data) :
    (addition codec uid rec data).Racing P .fresh (race codec store uid rec) where
  adding := ⟨_, rfl, adding_add written⟩
  rivals i call found := by simp [race] at found
  listed := by simp [race, Pool.history, additions, tally]
  rows wrote := by simp [race, Pool.history] at wrote
  known _ member := by cases member

theorem Addition.Racing.ended {w : Addition V} {phase : Phase} (racing : w.Racing P phase p)
    (completed : (p.calls[0]?).any finished = true) : w.Adding phase (.done ()) := by
  obtain ⟨call, found, adding⟩ := racing.adding
  rw [found] at completed
  cases call with
  | done => exact adding
  | issue c resume => cases completed

/-- The outcome of a race is decided by whether something dropped the timer after it was listed. -/
theorem race_outcome (verdict : Verdict codec (addition codec uid rec data) P barred drops Kept Lost)
    (follows : ∀ activity, kind activity → (activity.code codec).Follows P [])
    (allows : ∀ p a, allowed p a → Beside kind a ∧ (addition codec uid rec data).Never barred p a)
    (written : codec.marshal (codec.markPending rec) = some data) (start : Kept .fresh (store uid))
    (ran : (processes codec).run (race codec store uid rec) actions = some p)
    (met : (processes codec).Meets allowed (race codec store uid rec) actions)
    (completed : (p.calls[0]?).any finished = true) :
    ((processes codec).Meets ((addition codec uid rec data).Never drops) (race codec store uid rec) actions ∧
      ∃ phase, (addition codec uid rec data).Adding phase (.done ()) ∧ Kept phase (p.store uid)) ∨
    (¬ (processes codec).Meets ((addition codec uid rec data).Never drops) (race codec store uid rec) actions ∧
      ∃ phase, (addition codec uid rec data).Adding phase (.done ()) ∧ Lost phase (p.store uid)) := by
  set w := addition codec uid rec data
  have decided := Machine.run_decides (w.Never drops)
    (fun p => ∃ phase, w.Racing P phase p ∧ Kept phase (p.store w.uid))
    (fun p => ∃ phase, w.Racing P phase p ∧ Lost phase (p.store w.uid)) ?_ ?_ ?_ ran met
    ⟨.fresh, racing_race written, start⟩
  · rcases decided with ⟨all, phase, racing, kept⟩ | ⟨fails, phase, racing, lost⟩
    · exact .inl ⟨all, phase, racing.ended completed, kept⟩
    · exact .inr ⟨fails, phase, racing.ended completed, lost⟩
  · -- a step that drops nothing keeps what was written
    rintro p a ⟨phase, racing, kept⟩ permitted spared -
    obtain ⟨beside, free⟩ := allows p a permitted
    obtain ⟨later, next, moves⟩ := racing_next follows verdict.quiet racing beside
    refine ⟨later, next, ?_⟩
    generalize ((processes codec).next p a).store w.uid = l' at moves ⊢
    cases moves with
    | same idle => exact kept
    | own idle advance => exact verdict.advances _ _ _ _ kept advance
    | @rival i c command fits =>
      refine verdict.keeps p _ i c racing fits (fun begun => ?_) kept
      have listed := racing.listed.mpr begun
      exact ⟨free _ command rfl listed, spared _ command rfl listed⟩
  · -- a drop is a command of another call, after the timer was listed
    rintro p a ⟨phase, racing, kept⟩ permitted harmed -
    obtain ⟨later, next, moves⟩ := racing_next follows verdict.quiet racing (allows p a permitted).1
    unfold Addition.Never at harmed
    push Not at harmed
    obtain ⟨⟨i, u, c⟩, command, mine, listed, dropped⟩ := harmed
    cases mine
    refine ⟨later, next, ?_⟩
    generalize ((processes codec).next p a).store w.uid = l' at moves ⊢
    cases moves with
    | same idle => exact absurd command (idle i c)
    | own idle advance => exact absurd command (idle i c)
    | @rival i' c' command' fits =>
      rw [command] at command'
      cases command'
      exact verdict.loses p _ i c fits (racing.listed.mp listed) (by simpa using dropped)
  · -- neither the rest of the `Add` nor any other call makes up for it
    rintro p a ⟨phase, racing, lost⟩ permitted -
    obtain ⟨later, next, moves⟩ := racing_next follows verdict.quiet racing (allows p a permitted).1
    refine ⟨later, next, ?_⟩
    generalize ((processes codec).next p a).store w.uid = l' at moves ⊢
    cases moves with
    | same idle => exact lost
    | own idle advance => exact verdict.writes _ _ _ _ lost advance
    | @rival i c command fits => exact verdict.stays _ _ _ c fits lost

end Runs

section Reload

/-- A load of any user. -/
def Reload : Activity T → Prop
  | .call (.loadActiveByUID _) | .call (.loadWindowByUID _ _ _) | .call (.loadByTimerIDs _ _) => True
  | _ => False

instance (activity : Activity T) : Decidable (Reload activity) := by
  unfold Reload
  split <;> infer_instance

/-- The `HMGET` of a load found no row of the timer. -/
def missed (uid id : Nat) : Executed V → Bool
  | ⟨(u, .hmgetData timerIDs), vals⟩ => u == uid && (timerIDs.zip vals).any fun row => row.1 == id && row.2.isNone
  | _ => false

/-- A load that found no row of the timer takes it out of the pending set. -/
def unlists (uid id : Nat) (p : Processes T V) (i : Nat) : Command V → Bool
  | .zrem .pending timerID => timerID == id && (p.logOf i).any (missed uid id)
  | _ => false

def Mends (log : List (Executed V)) : Nat × Command V → Prop
  | (uid, .zrem _ timerID) => log.any (missed uid timerID) = true
  | (_, c) => Reads c

variable {codec : Codec T V} {uid : Nat} {log : List (Executed V)}

theorem mends_of_reads {c : Command V} (reads : Reads c) : Mends log (uid, c) := by
  cases c <;> first | exact reads | exact reads.elim

theorem mends_collect (index : Hash String Nat) (rows : List (Nat × Option V)) (log : List (Executed V))
    (missing : ∀ row ∈ rows, row.2 = none → log.any (missed uid row.1) = true) :
    ((collect codec index rows).tag uid).Follows Mends log := by
  induction rows generalizing log with
  | nil => trivial
  | cons row rest ih =>
    obtain ⟨timerID, val⟩ := row
    cases val with
    | none =>
      have here : log.any (missed uid timerID) = true := missing _ List.mem_cons_self rfl
      refine ⟨here, fun _ => ⟨?_, fun _ => ih _ fun row member none => ?_⟩⟩
      · rw [Mends, List.any_cons, here, Bool.or_true]
      · rw [List.any_cons, List.any_cons, missing row (List.mem_cons_of_mem _ member) none, Bool.or_true, Bool.or_true]
    | some v =>
      unfold collect
      split
      · trivial
      · rw [tag_bind]
        exact (ih log fun row member => missing row (List.mem_cons_of_mem _ member)).bind fun _ _ => trivial

theorem mends_loadByTimerIDs (timerIDs : List Nat) (log : List (Executed V)) :
    ((loadByTimerIDs codec timerIDs).tag uid).Follows Mends log := by
  unfold loadByTimerIDs
  split
  · trivial
  · refine ⟨mends_of_reads trivial, fun vals => ?_⟩
    have missing (log : List (Executed V)) (row : Nat × Option V) (member : row ∈ timerIDs.zip vals) (none : row.2 = none) :
        (⟨(uid, .hmgetData timerIDs), vals⟩ :: log : List (Executed V)).any (missed uid row.1) = true := by
      have found : missed uid row.1 (⟨(uid, .hmgetData timerIDs), vals⟩ : Executed V) = true := by
        simp only [missed, beq_self_eq_true, Bool.true_and]
        exact List.any_eq_true.mpr ⟨row, member, by simp [none]⟩
      rw [List.any_cons, found, Bool.true_or]
    show (((businessIDsByTimerID codec) >>= fun index => collect codec index (timerIDs.zip vals)).tag uid).Follows Mends _
    rw [tag_bind]
    unfold businessIDsByTimerID
    split
    · refine ⟨mends_of_reads trivial, fun index => mends_collect index _ _ fun row member none => ?_⟩
      rw [List.any_cons, missing log row member none, Bool.or_true]
    · exact mends_collect ∅ _ _ (missing log)

theorem mends_reload (activity : Activity T) (reload : Reload activity) : (activity.code codec).Follows Mends [] := by
  have load {uid : Nat} {α : Type} {call : Call V α} (mends : (call.tag uid).Follows Mends []) :
      (onUser uid call).Follows Mends [] := mends.bind fun _ _ => trivial
  unfold Reload at reload
  split at reload
  · exact load ⟨mends_of_reads trivial, fun _ => ⟨mends_of_reads trivial, fun _ => mends_loadByTimerIDs _ _⟩⟩
  · exact load ⟨mends_of_reads trivial, fun _ => mends_loadByTimerIDs _ _⟩
  · exact load (mends_loadByTimerIDs _ _)
  · exact reload.elim

theorem leaves_repair {fields : V → Option Fields} {w : Addition V} {l : Ledger V} {c : Command V}
    (mends : Mends log (uid, c)) : w.Leaves l (l.exec fields c).1 := by
  cases c <;> first | exact .refl l | exact ⟨rfl, fun _ known => known⟩ | exact mends.elim

/-- Loads never write, so a timer that a repair took out stays out. -/
theorem verdict_reload (codec : Codec T V) (w : Addition V) :
    Verdict codec w Mends (fun _ _ _ => false) (unlists w.uid w.timerID)
      (fun phase l => (phase ≠ .fresh → w.timerID ∈ l.zset .pending) ∧ w.Wrote phase l)
      fun phase l => phase ≠ .fresh ∧ w.timerID ∉ l.zset .pending where
  quiet log c mends := by
    obtain ⟨u, c⟩ := c
    cases c <;> first | exact ⟨rfl, rfl⟩ | exact mends.elim
  keeps p phase i c _ mends spared kept := by
    refine ⟨fun begun => ?_, kept.2.leaves (leaves_repair mends)⟩
    have there := kept.1 begun
    cases c with
    | zrem key timerID =>
      cases key with
      | pending =>
        have apart : timerID ≠ w.timerID := by
          rintro rfl
          have found : unlists w.uid w.timerID p i (.zrem .pending w.timerID) = true := by
            simp only [unlists, beq_self_eq_true, Bool.true_and]
            exact mends
          rw [(spared begun).2] at found
          cases found
        simpa [Ledger.exec, Ne.symm apart] using there
      | processing => simpa [Ledger.exec] using there
    | _ => first | exact mends.elim | exact there
  advances l phase later l' kept advance := by
    refine ⟨fun _ => ?_, kept.2.advance advance⟩
    cases advance with
    | replace => contradiction
    | list => simp
    | release => simpa using kept.1 (by simp)
    | store | index => exact kept.1 (by simp)
  loses p phase i c mends begun dropped := by
    refine ⟨begun, ?_⟩
    unfold unlists at dropped
    split at dropped
    · simp only [Bool.and_eq_true, beq_iff_eq] at dropped
      simp [Ledger.exec, dropped.1]
    · cases dropped
  stays l phase log c mends lost := by
    refine ⟨lost.1, ?_⟩
    cases c with
    | zrem key timerID => cases key <;> simp [Ledger.exec, lost.2]
    | _ => first | exact mends.elim | exact lost.2
  writes l phase later l' lost advance := by
    refine ⟨advance.not_fresh lost.1, ?_⟩
    cases advance with
    | replace | list => exact absurd rfl lost.1
    | release | store | index => simpa using lost.2

/-- An added record is pending with its row, whatever loads run beside the `Add`, exactly if no load that has found its
row missing takes the timer out of the pending set once the `Add` has put it there. -/
theorem add_survives_reload (codec : Codec T V) (store : Store V) (uid : Nat) (rec : T) (data : V)
    (written : codec.marshal (codec.markPending rec) = some data) (actions : List (Pool.Action (Activity T)))
    (p : Processes T V) (ran : (processes codec).run (race codec store uid rec) actions = some p)
    (reloads : (processes codec).Meets (fun _ a => Beside Reload a) (race codec store uid rec) actions)
    (completed : (p.calls[0]?).any finished = true) :
    (codec.timerID rec ∈ (p.store uid).zset .pending ∧ ((p.store uid).data (codec.timerID rec)).isSome = true) ↔
      (processes codec).Meets ((addition codec uid rec data).Never (unlists uid (codec.timerID rec)))
        (race codec store uid rec) actions := by
  have verdict := verdict_reload codec (addition codec uid rec data)
  rcases race_outcome verdict mends_reload (fun _ _ beside => ⟨beside, fun _ _ _ _ => rfl⟩) written ⟨nofun, trivial⟩ ran
    reloads completed with ⟨spared, phase, adding, kept⟩ | ⟨dropped, phase, adding, lost⟩
  · obtain ⟨begun, row, -⟩ := kept.2.ended adding
    exact ⟨fun _ => spared, fun _ => ⟨kept.1 begun, Option.isSome_iff_exists.mpr ⟨data, row⟩⟩⟩
  · exact ⟨fun there => absurd there.1 lost.2, fun spared => absurd spared dropped⟩

def reloaded : List (Pool.Action (Activity Row)) :=
  [.start (.call (.loadByTimerIDs 1 [7])), .step 1, .step 0, .step 1, .step 1, .step 0, .step 0, .step 0, .step 0]

theorem add_survives_reload_early :
    7 ∈ (((processes rows).after (race rows (fun _ => {}) 1 ⟨7, "raid", 1000, false⟩) reloaded).store 1).zset .pending ∧
      ((((processes rows).after (race rows (fun _ => {}) 1 ⟨7, "raid", 1000, false⟩) reloaded).store 1).data 7).isSome = true :=
  (add_survives_reload rows (fun _ => {}) 1 ⟨7, "raid", 1000, false⟩ _ rfl reloaded _
    (Machine.run_after (by decide +kernel)) (by decide +kernel) (by decide +kernel)).mpr (by decide +kernel)

/-- A load lists the timer that the `Add` has just put in the pending set, finds no row yet, and repairs the sets after
the `Add` has written it. -/
theorem reload_unlists :
    ∃ p, (processes rows).run (race rows (fun _ => {}) 1 ⟨7, "raid", 1000, false⟩)
        [.start (.call (.loadActiveByUID 1)), .step 0, .step 0, .step 1, .step 1, .step 1, .step 0, .step 0, .step 0,
          .step 1, .step 1] = some p ∧
      (∀ call ∈ p.calls, call.finished = true) ∧ 7 ∉ (p.store 1).zset .pending ∧
      ((p.store 1).data 7).isSome = true := by
  refine ⟨_, Machine.run_after (by decide +kernel), ?_⟩
  decide +kernel

end Reload

section Completion

/-- What engines do with timers that are due. -/
def Handling : Activity T → Prop
  | .call (.claimForProcessing _ _ _ _ _) | .call (.completeProcessing _ _ _) | .call (.requeueExpiredProcessing _ _)
  | .doFire _ _ _ _ _ => True
  | _ => False

instance (activity : Activity T) : Decidable (Handling activity) := by
  unfold Handling
  split <;> infer_instance

def Handles : Command V → Prop
  | .handler _ => True
  | c => Scripted c

theorem handles_of_scripted {c : Command V} (scripted : Scripted c) : Handles c := by
  cases c <;> trivial

theorem handles_handling {codec : Codec T V} (activity : Activity T) (handling : Handling activity) :
    (activity.code codec).Only fun c => Handles c.2 := by
  have lift {α : Type} {call : Call V α} (only : call.Only Scripted) : call.Only Handles :=
    only.mono fun _ => handles_of_scripted
  unfold Handling at handling
  split at handling
  · exact only_onUser (lift (scripted_claimForProcessing _ _ _ _))
  · exact only_onUser (lift (scripted_completeProcessing _ _ _))
  · exact Only.bind ((scripted_requeueUsers _ _ _).mono fun _ => handles_of_scripted) fun _ => trivial
  · refine only_onUser ((lift (scripted_claimForProcessing _ _ _ _)).bind fun answer => ?_)
    rcases answer with _ | _ | _
    · trivial
    · trivial
    · exact ⟨trivial, fun _ => (lift (scripted_completeProcessing _ _ _)).bind fun _ => trivial⟩
  · exact handling.elim

/-- The timer has a row, and no claimant but the owner is on record for it: the claim is the owner's, or there is none
and the row does not say that somebody else has the timer in processing. -/
def unopposed (fields : V → Option Fields) (id : Nat) (owner : String) (l : Ledger V) : Bool :=
  (l.data id).any fun val =>
    match l.claims id with
    | some claim => claim.owner == owner
    | none => (fields val).any fun rec => rec.timerStatus != some "processing" || rec.processingOwner == some owner

/-- A completion of the timer by somebody whom no other claimant opposes. -/
def erases (codec : Codec T V) (w : Addition V) (p : Processes T V) (_ : Nat) : Command V → Bool
  | .complete timerID owner _ => timerID == w.timerID && unopposed codec.fields w.timerID owner (p.store w.uid)
  | _ => false

def halfway (w : Addition V) (p : Processes T V) : Bool :=
  match ((p.calls[0]?).bind head? : Option (Nat × Command V)) with
  | some (_, .zrem .processing timerID) => timerID == w.timerID
  | _ => false

/-- A claim of the timer by its old row, halfway through the `Add`. -/
def claimsHalfway (w : Addition V) (p : Processes T V) (_ : Nat) : Command V → Bool
  | .claim timerID _ _ => timerID == w.timerID && halfway w p && ((p.store w.uid).data w.timerID).isSome
  | _ => false

variable {codec : Codec T V} {l : Ledger V} {c : Command V} {fields : V → Option Fields}

theorem quiet_of_handles {w : Addition V} (handles : Handles c) (u : Nat) : w.Quiet (u, c) := by
  cases c <;> first | exact ⟨rfl, rfl⟩ | exact handles.elim

/-- The script erases the record of a timer with the consent of `unopposed`, and does nothing else. -/
theorem completeScript_eq (fields : V → Option Fields) (l : Ledger V) (timerID : Nat) (owner businessID : String) :
    (l.completeScript fields timerID owner businessID).1 =
      if unopposed fields timerID owner l then l.erase timerID businessID else l := by
  unfold Ledger.completeScript unopposed Ledger.ownedBy
  cases row : l.data timerID with
  | none => rfl
  | some val =>
    cases l.claims timerID with
    | some claim => by_cases same : claim.owner = owner <;> simp [same]
    | none =>
      cases decoded : fields val with
      | none => simp [decoded]
      | some rec =>
        by_cases marked : rec.timerStatus = some "processing" <;> by_cases same : rec.processingOwner = some owner <;>
          simp [decoded, marked, same]

structure Dropped (fields : V → Option Fields) (id : Nat) (l : Ledger V) : Prop where
  gone : ∀ key, id ∉ l.zset key
  claims : l.claims id = none
  unmarked : Unclaimed fields id l

theorem dropped_erase (id : Nat) (businessID : String) : Dropped fields id (l.erase id businessID) :=
  ⟨by simp, by simp, fun v read row => by simp at row⟩

theorem Dropped.stays {id : Nat} (dropped : Dropped fields id l) (handles : Handles c) :
    Dropped fields id (l.exec fields c).1 := by
  have gone := dropped.gone
  cases c with
  | claim timerID owner deadline =>
    show Dropped fields id (l.claimScript timerID owner deadline).1
    unfold Ledger.claimScript
    split
    · exact dropped
    · split
      · exact dropped
      · next pending =>
        have apart : id ≠ timerID := by
          rintro rfl
          exact pending (gone .pending)
        exact ⟨fun key => by cases key <;> simp [apart, gone], by simpa [apart] using dropped.claims, dropped.unmarked⟩
  | complete timerID owner businessID =>
    show Dropped fields id (l.completeScript fields timerID owner businessID).1
    rw [completeScript_eq]
    split
    · by_cases same : id = timerID
      · subst same
        exact dropped_erase id businessID
      · refine ⟨by simp [gone], by simpa [same] using dropped.claims, fun v read row => dropped.unmarked v read ?_⟩
        simpa [same] using row
    · exact dropped
  | requeue timerID now due =>
    show Dropped fields id (l.requeueScript fields timerID now due).1
    unfold Ledger.requeueScript
    split
    · refine ⟨fun key => by cases key <;> simp [gone], ?_, dropped.unmarked⟩
      simpa using fun _ => dropped.claims
    · next v row =>
      split
      · exact dropped
      · exact dropped
      · next deadline lease =>
        split
        · exact dropped
        · -- without a claim the script reads the record, and that is not marked as processing
          have apart : id ≠ timerID := by
            rintro rfl
            exact dropped.unmarked.lease dropped.claims row deadline lease
          exact ⟨fun key => by cases key <;> simp [apart, gone], by simpa [apart] using dropped.claims, dropped.unmarked⟩
  | _ => first | exact handles.elim | exact dropped

namespace Addition

variable {w : Addition V} {phase later : Phase} {l' : Ledger V}

structure Held (w : Addition V) (phase : Phase) (l : Ledger V) : Prop where
  half : phase = .listed → w.timerID ∈ l.zset .pending
  listed : phase ≠ .fresh →
    w.timerID ∈ l.zset .pending ∨ (w.timerID ∈ l.zset .processing ∧ (l.data w.timerID).isSome = true)
  wrote : w.Wrote phase l

theorem Held.advance (held : w.Held phase l) (advance : w.Advance l phase later l') : w.Held later l' := by
  refine ⟨fun is => ?_, fun begun => ?_, held.wrote.advance advance⟩
  · cases advance with
    | list => simp
    | replace | release | store | index => cases is
  · cases advance with
    | replace => exact absurd rfl begun
    | list => simp
    | release => simpa using held.half rfl
    | store => exact (held.listed nofun).imp_right fun there => ⟨there.1, by simp⟩
    | index => exact held.listed nofun

theorem Held.active (held : w.Held phase l) (adding : w.Adding phase (.done ())) : w.Active l := by
  obtain ⟨begun, row, index⟩ := held.wrote.ended adding
  exact ⟨(held.listed begun).imp_right And.left, row, index⟩

theorem Held.claim (held : w.Held phase l) (timerID : Nat) (owner : String) (deadline : Int)
    (late : phase = .listed → timerID = w.timerID → l.data w.timerID = none) :
    w.Held phase (l.claimScript timerID owner deadline).1 := by
  unfold Ledger.claimScript
  split
  · exact held
  · split
    · exact held
    · next row _ =>
      by_cases same : w.timerID = timerID
      · -- with a row the claim is not one halfway through the `Add`
        subst same
        refine ⟨fun is => ?_, fun _ => .inr ⟨by simp, ?_⟩, held.wrote.leaves ⟨by simp, fun _ known => known⟩⟩
        · rw [late is rfl] at row
          exact absurd rfl row
        · simpa [Option.isSome_iff_ne_none] using row
      · exact ⟨fun is => by simpa [same] using held.half is, fun begun => by simpa [same] using held.listed begun,
          held.wrote.leaves ⟨by simp, fun _ known => known⟩⟩

theorem Held.complete (held : w.Held phase l) (timerID : Nat) (owner businessID : String)
    (kept : timerID = w.timerID → phase ≠ .fresh → unopposed fields w.timerID owner l = false) :
    w.Held phase (l.completeScript fields timerID owner businessID).1 := by
  by_cases fresh : phase = .fresh
  · subst fresh
    exact ⟨nofun, fun begun => absurd rfl begun, trivial⟩
  · rw [completeScript_eq]
    split
    · next consent =>
      have apart : w.timerID ≠ timerID := by
        rintro rfl
        rw [kept rfl fresh] at consent
        cases consent
      refine ⟨fun is => by simpa [apart] using held.half is, fun begun => by simpa [apart] using held.listed begun,
        held.wrote.leaves ⟨by simp [apart], fun other known => ?_⟩⟩
      unfold Ledger.erase
      dsimp only
      split
      · next indexed =>
        -- the script drops the index of its own timer only
        simp only [Ledger.index_zrem, Ledger.index_setClaim, Ledger.index_setData] at indexed ⊢
        grind
      · exact known
    · exact held

theorem Held.requeue (held : w.Held phase l) (timerID : Nat) (now due : Int) :
    w.Held phase (l.requeueScript fields timerID now due).1 := by
  unfold Ledger.requeueScript
  split
  · next none =>
    refine ⟨fun is => by simpa using held.half is, fun begun => ?_, held.wrote.leaves ⟨by simp, fun _ known => known⟩⟩
    rcases held.listed begun with pending | ⟨there, row⟩
    · exact .inl (by simpa using pending)
    · have apart : w.timerID ≠ timerID := by
        rintro rfl
        rw [none] at row
        cases row
      exact .inr ⟨by simpa [apart] using there, by simpa using row⟩
  · split
    · exact held
    · exact held
    · split
      · exact held
      · refine ⟨fun is => by simp [held.half is], fun begun => ?_, held.wrote.leaves ⟨by simp, fun _ known => known⟩⟩
        by_cases same : w.timerID = timerID
        · exact .inl (by simp [same])
        · simpa [same] using held.listed begun

theorem Racing.halfway {P : List (Executed V) → Nat × Command V → Prop} {p : Processes T V}
    (racing : w.Racing P .listed p) : halfway w p = true := by
  obtain ⟨call, found, adding⟩ := racing.adding
  cases adding with
  | release rest => simp [Queue.halfway, found, head?]

end Addition

/-- A completed timer stays dropped: its claim is gone, and the `Add` stores a record that does not read as claimed. -/
theorem verdict_handling {uid : Nat} {rec : T} {data : V} (written : codec.marshal (codec.markPending rec) = some data) :
    Verdict codec (addition codec uid rec data) (fun _ c => Handles c.2) (claimsHalfway (addition codec uid rec data))
      (erases codec (addition codec uid rec data)) (addition codec uid rec data).Held
      fun phase l => phase ≠ .fresh ∧ Dropped codec.fields (codec.timerID rec) l where
  quiet _ c handles := quiet_of_handles handles c.1
  keeps p phase i c racing handles spared held := by
    cases c with
    | claim timerID owner deadline =>
      refine held.claim timerID owner deadline fun is same => ?_
      subst is
      have free := (spared nofun).1
      simp only [claimsHalfway, same, racing.halfway, beq_self_eq_true, Bool.and_self, Bool.true_and] at free
      simpa using free
    | complete timerID owner businessID =>
      refine held.complete timerID owner businessID fun same begun => ?_
      have kept := (spared begun).2
      simpa only [erases, same, beq_self_eq_true, Bool.true_and] using kept
    | requeue timerID now due => exact held.requeue timerID now due
    | _ => first | exact handles.elim | exact held
  advances l phase later l' held advance := held.advance advance
  loses p phase i c handles begun dropped := by
    refine ⟨begun, ?_⟩
    unfold erases at dropped
    split at dropped
    · next timerID owner businessID =>
      simp only [Bool.and_eq_true, beq_iff_eq] at dropped
      obtain ⟨rfl, consent⟩ := dropped
      show Dropped _ _ (Ledger.completeScript _ _ _ _ _).1
      rw [completeScript_eq, if_pos consent]
      exact dropped_erase _ _
    · cases dropped
  stays l phase _ c handles lost := ⟨lost.1, lost.2.stays handles⟩
  writes l phase later l' lost advance := by
    obtain ⟨begun, dropped⟩ := lost
    refine ⟨advance.not_fresh begun, ?_⟩
    cases advance with
    | replace | list => exact absurd rfl begun
    | release => exact ⟨fun key => by cases key <;> simp [dropped.gone], dropped.claims, dropped.unmarked⟩
    | store =>
      refine ⟨dropped.gone, dropped.claims, fun v read row decoded => ?_⟩
      have same : data = v := by simpa [addition] using row
      exact codec.fields_pending rec v read (same ▸ written) decoded
    | index => exact ⟨dropped.gone, dropped.claims, dropped.unmarked⟩

/-- A record that is added while engines claim, complete and requeue timers, none of them claiming it by its old row
halfway through the `Add`, is active once the `Add` has completed exactly if from its listing on every completion of its
timer found the claim of somebody else on record. -/
theorem added_survives_completion (codec : Codec T V) (store : Store V) (uid : Nat) (rec : T) (data : V)
    (written : codec.marshal (codec.markPending rec) = some data) (actions : List (Pool.Action (Activity T)))
    (p : Processes T V) (ran : (processes codec).run (race codec store uid rec) actions = some p)
    (handles : (processes codec).Meets
      (fun p a => Beside Handling a ∧
        (addition codec uid rec data).Never (claimsHalfway (addition codec uid rec data)) p a)
      (race codec store uid rec) actions)
    (completed : (p.calls[0]?).any finished = true) :
    (addition codec uid rec data).Active (p.store uid) ↔
      (processes codec).Meets ((addition codec uid rec data).Never (erases codec (addition codec uid rec data)))
        (race codec store uid rec) actions := by
  rcases race_outcome (verdict_handling written) (fun activity handling => (handles_handling activity handling).follows [])
    (fun _ _ allowed => allowed) written ⟨nofun, fun begun => absurd rfl begun, trivial⟩ ran handles completed
    with ⟨spared, phase, adding, held⟩ | ⟨erased, phase, -, -, dropped⟩
  · exact ⟨fun _ => spared, fun _ => held.active adding⟩
  · refine ⟨fun active => ?_, fun spared => absurd spared erased⟩
    exact active.listed.elim (fun there => absurd there (dropped.gone _)) fun there => absurd there (dropped.gone _)

def inProcess : List (Pool.Action (Activity Row)) :=
  [.start (.call (.add 1 ⟨7, "raid", 1000, false⟩)), .step 0, .step 0, .step 0, .step 0, .step 0,
    .start (.call (.claimForProcessing 1 7 "first" 2000000000 10000000000)), .step 1]

def reclaimed : List (Pool.Action (Activity Row)) :=
  List.replicate 5 (.step 0) ++
    [.start (.call (.claimForProcessing 1 7 "second" 6000000000 10000000000)), .step 1,
      .start (.call (.completeProcessing 1 7 "first")), .step 2, .step 2]

theorem added_survives_completion_reclaimed :
    (addition rows 1 ⟨7, "raid", 5000, false⟩ ⟨7, "raid", 5000, false⟩).Active
      (((processes rows).after
        (race rows ((processes rows).after { store := fun _ => {} } inProcess).store 1 ⟨7, "raid", 5000, false⟩)
        reclaimed).store 1) :=
  (added_survives_completion rows _ 1 ⟨7, "raid", 5000, false⟩ _ rfl _ _ (Machine.run_after (by decide +kernel))
    (by decide +kernel) (by decide +kernel)).mpr (by decide +kernel)

/-- A claimed timer is added again under its own identifier. The claim is still on record, so its claimant completes it,
and the new record is gone from the sets, the rows and the index. -/
theorem completion_erases :
    ∃ p, (processes rows).run { store := fun _ => {} }
        (inProcess ++ .start (.call (.add 1 ⟨7, "raid", 5000, false⟩)) :: List.replicate 5 (.step 2) ++
          [.start (.call (.completeProcessing 1 7 "first")), .step 3, .step 3]) = some p ∧
      (∀ call ∈ p.calls, call.finished = true) ∧ 7 ∉ (p.store 1).zset .pending ∧ (p.store 1).data 7 = none ∧
      (p.store 1).index.lookup "raid" = none := by
  refine ⟨_, Machine.run_after (by decide +kernel), ?_⟩
  decide +kernel

end Completion

end Skygo.Timer.Queue
