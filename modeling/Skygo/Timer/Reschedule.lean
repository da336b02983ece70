import Skygo.Timer.Race

/-! An `Add` that gives a timer a new due time while expired claims are requeued.

A requeue reads the record first and hands its due time to the script. The script goes by the claim
of the timer, and `Add` leaves that as it is. So a requeue that read the record before the `Add` may
put the old due time back after it.
-/

set_option autoImplicit false

attribute [-instance] instBooleanRingBool

namespace Skygo.Timer.Queue

open Semantics Redis Program

variable {T V : Type}

def Requeuing : Activity T → Prop
  | .call (.requeueExpiredProcessing _ _) => True
  | _ => False

instance (activity : Activity T) : Decidable (Requeuing activity) := by
  rcases activity with (_ | _) | _ <;> dsimp only [Requeuing] <;> infer_instance

section Reading

def row? (uid id : Nat) : Executed V → Option (Option V)
  | ⟨(u, .hgetData timerID), val⟩ => if u = uid ∧ timerID = id then some val else none
  | _ => none

def index? (uid : Nat) : Executed V → Option (Hash String Nat)
  | ⟨(u, .hgetallIndex), index⟩ => if u = uid then some index else none
  | _ => none

/-- The row of the timer as it was read last. The log is latest first. -/
def lastRow (uid id : Nat) : List (Executed V) → Option (Option V)
  | [] => none
  | e :: older => (row? uid id e).or (lastRow uid id older)

def lastIndex (uid : Nat) : List (Executed V) → Hash String Nat
  | [] => ∅
  | e :: older => (index? uid e).getD (lastIndex uid older)

/-- The call read the row of the timer last when it had already been written. -/
def readAfter (uid id i : Nat) : List (Nat × Executed V) → Bool
  | [] => false
  | (j, e) :: older =>
      if j = i ∧ (row? uid id e).isSome then older.any fun entry => writesRow uid id entry.2.1
      else readAfter uid id i older

end Reading

/-- A claim of the timer is on record whose deadline has passed. -/
def expired (fields : V → Option Fields) (id : Nat) (now : Int) (l : Ledger V) : Bool :=
  (l.data id).any fun val => (l.leaseDeadline fields id val).any fun lease => lease.any fun deadline => deadline ≤ now

/-- An expired timer is requeued by a call that read its row before the `Add` had written it, or, if the codec asks for
the business, an index in which the timer has not the business of the record. -/
def requeuesStale (codec : Codec T V) (w : Addition V) (p : Processes T V) (i : Nat) : Command V → Bool
  | .requeue timerID now _ =>
      timerID == w.timerID && expired codec.fields w.timerID now (p.store w.uid) &&
        !(readAfter w.uid w.timerID i p.log &&
          (codec.keyed.isNone || businessIDOf (lastIndex w.uid (p.logOf i)) w.timerID == w.businessID))
  | _ => false

def Agrees (codec : Codec T V) (id : Nat) (l : Ledger V) : Prop :=
  ∃ v rec, l.data id = some v ∧ codec.unmarshal v = some rec ∧ (l.zset .pending).lookup id = some (codec.dueTimeMs rec)

section Quotes

variable {codec : Codec T V}

def Quotes (codec : Codec T V) (log : List (Executed V)) : Nat × Command V → Prop
  | (uid, .requeue timerID _ due) => ∃ row, lastRow uid timerID log = some row ∧
      ∀ v, row = some v → (decode codec (lastIndex uid log) timerID v).map codec.dueTimeMs = some due
  | (_, c) => Reads c

theorem quotes_of_reads {uid : Nat} {log : List (Executed V)} {c : Command V} (reads : Reads c) :
    Quotes codec log (uid, c) := by
  cases c <;> first | exact reads | exact reads.elim

theorem decode_plain (plain : codec.keyed = none) (index : Hash String Nat) (timerID : Nat) (val : V) :
    decode codec index timerID val = codec.unmarshal val := by
  rw [decode, plain]

theorem quotes_loaded {uid timerID : Nat} {now : Int} {val : V} {log : List (Executed V)}
    {k : Option (Option T) → Call V (Option Bool)} (fails : k none = pure none)
    (gives : ∀ rec, k (some (some rec)) = redis (.requeue timerID (milli now) (codec.dueTimeMs rec)))
    (row : lastRow uid timerID log = some (some val)) :
    (((businessIDsByTimerID codec >>= fun index => pure ((decode codec index timerID val).map some)) >>= k).tag
      uid).Follows (Quotes codec) log := by
  have rest (index : Hash String Nat) (log : List (Executed V)) (row : lastRow uid timerID log = some (some val))
      (same : decode codec (lastIndex uid log) timerID val = decode codec index timerID val) :
      ((k ((decode codec index timerID val).map some)).tag uid).Follows (Quotes codec) log := by
    cases read : decode codec index timerID val with
    | none =>
      rw [Option.map_none, fails]
      trivial
    | some rec =>
      rw [Option.map_some, gives]
      refine ⟨⟨some val, row, fun v is => ?_⟩, fun _ => trivial⟩
      cases is
      rw [same, read]
      rfl
  unfold businessIDsByTimerID
  split
  · exact ⟨quotes_of_reads trivial, fun index => rest index _ row (by simp [lastIndex, index?])⟩
  · next plain =>
    refine rest ∅ _ row ?_
    rw [decode_plain (by simpa using plain), decode_plain (by simpa using plain)]

theorem quotes_requeueProcessingTimer (uid : Nat) (now : Int) (timerID : Nat) (log : List (Executed V)) :
    ((requeueProcessingTimer codec now timerID).tag uid).Follows (Quotes codec) log := by
  refine ⟨quotes_of_reads trivial, fun val => ?_⟩
  cases val with
  | none => exact ⟨⟨none, by simp [lastRow, row?], fun _ is => by cases is⟩, fun _ => trivial⟩
  | some val => exact quotes_loaded rfl (fun _ => rfl) (by simp [lastRow, row?])

theorem quotes_requeueTimers (uid : Nat) (now : Int) (total : Nat) (timerIDs : List Nat) (log : List (Executed V)) :
    ((requeueTimers codec now total timerIDs).tag uid).Follows (Quotes codec) log := by
  induction timerIDs generalizing total log with
  | nil => trivial
  | cons timerID rest ih =>
    unfold requeueTimers
    rw [tag_bind]
    refine (quotes_requeueProcessingTimer uid now timerID log).bind fun answer log => ?_
    cases answer with
    | none => trivial
    | some requeued => exact ih _ log

theorem quotes_requeueUsers (now : Int) (total : Nat) (uids : List Nat) (log : List (Executed V)) :
    (requeueExpiredProcessing codec now total uids).Follows (Quotes codec) log := by
  induction uids generalizing total log with
  | nil => trivial
  | cons uid uids ih =>
    have user : ((requeueUser codec now total).tag uid).Follows (Quotes codec) log :=
      ⟨quotes_of_reads trivial, fun timerIDs => quotes_requeueTimers uid now total timerIDs _⟩
    refine user.bind fun answer log => ?_
    obtain ⟨total, reached⟩ := answer
    cases reached with
    | false => trivial
    | true => exact ih total log

theorem quotes_requeuing (activity : Activity T) (requeuing : Requeuing activity) :
    (activity.code codec).Follows (Quotes codec) [] := by
  unfold Requeuing at requeuing
  split at requeuing
  · exact (quotes_requeueUsers _ _ _ _).bind fun _ _ => trivial
  · exact requeuing.elim

end Quotes

section Ledgers

variable {l l' : Ledger V} {w : Addition V} {phase later : Phase} {p : Processes T V}

/-- A requeue gives an expired timer its due time, or leaves the pending timers as they are. -/
theorem requeueScript_cases (fields : V → Option Fields) (l : Ledger V) (timerID : Nat) (now due : Int) :
    (expired fields timerID now l = true ∧ (l.requeueScript fields timerID now due).1 =
      ((l.setClaim timerID none).zrem .processing timerID).zadd .pending due timerID) ∨
    (l.requeueScript fields timerID now due).1.zset .pending = l.zset .pending := by
  unfold Ledger.requeueScript
  split
  · exact .inr (by simp)
  · next v row =>
    split
    · exact .inr rfl
    · exact .inr rfl
    · next deadline lease =>
      split
      · exact .inr rfl
      · next late => exact .inl ⟨by simpa [expired, row, lease] using late, rfl⟩

theorem leaves_requeue (fields : V → Option Fields) (timerID : Nat) (now due : Int) :
    w.Leaves l (l.requeueScript fields timerID now due).1 := by
  unfold Ledger.requeueScript
  split
  · exact ⟨rfl, fun _ known => known⟩
  · split
    · exact .refl l
    · exact .refl l
    · split
      · exact .refl l
      · exact ⟨rfl, fun _ known => known⟩

namespace Addition

structure Scored (w : Addition V) (phase : Phase) (l : Ledger V) : Prop where
  score : phase ≠ .fresh → (l.zset .pending).lookup w.timerID = some (double w.dueTimeMs)
  wrote : w.Wrote phase l

theorem Scored.advance (scored : w.Scored phase l) (advance : w.Advance l phase later l') : w.Scored later l' := by
  refine ⟨fun begun => ?_, scored.wrote.advance advance⟩
  cases advance with
  | replace => exact absurd rfl begun
  | list => simp [SortedSet.lookup_zadd]
  | release => simpa using scored.score nofun
  | store | index => exact scored.score nofun

theorem Scored.requeue (scored : w.Scored phase l) (fields : V → Option Fields) (timerID : Nat) (now due : Int)
    (quoted : phase ≠ .fresh → timerID = w.timerID → expired fields timerID now l = true → due = w.dueTimeMs) :
    w.Scored phase (l.requeueScript fields timerID now due).1 := by
  refine ⟨fun begun => ?_, scored.wrote.leaves (leaves_requeue fields timerID now due)⟩
  rcases requeueScript_cases fields l timerID now due with ⟨late, eq⟩ | pending
  · rw [eq]
    simp only [Ledger.zset_zadd, Ledger.zset_zrem, Ledger.zset_setClaim, if_true, SortedSet.lookup_zadd]
    split
    · next here => rw [quoted begun here.symm late]
    · exact scored.score begun
  · rw [pending]
    exact scored.score begun

theorem Wrote.row (wrote : w.Wrote phase l) (has : phase.hasRow = true) : l.data w.timerID = some w.data := by
  cases phase with
  | fresh | listed | released => cases has
  | stored => exact wrote
  | indexed => exact wrote.1

end Addition

/-- A call that read the row of the timer after the `Add` had written it has the row of the `Add`. -/
def Addition.Informed (w : Addition V) (p : Processes T V) : Prop :=
  ∀ i, readAfter w.uid w.timerID i p.log = true → lastRow w.uid w.timerID (p.logOf i) = some (some w.data)

theorem informed_next {codec : Codec T V} {P : List (Executed V) → Nat × Command V → Prop} (a : Pool.Action (Activity T))
    (racing : w.Racing P phase p) (wrote : w.Wrote phase (p.store w.uid)) (informed : w.Informed p) :
    w.Informed ((processes codec).next p a) := by
  cases a with
  | start activity => exact informed
  | crash i => exact informed
  | step i =>
    rcases Pool.next_cases (Store.exec codec) (Activity.code codec) p i with ⟨c, resume, here, eq⟩ | ⟨idle, eq⟩
    · rw [show (processes codec).next p (.step i) = _ from eq]
      intro j after
      by_cases mine : i = j
      · subst mine
        have log : ({ p with
            store := (Store.exec codec p.store c).1
            calls := p.calls.modify i fun _ => resume (Store.exec codec p.store c).2
            log := (i, ⟨c, (Store.exec codec p.store c).2⟩) :: p.log } : Processes T V).logOf i =
            ⟨c, (Store.exec codec p.store c).2⟩ :: p.logOf i := by
          simp [Pool.logOf]
        rw [log, lastRow]
        simp only [readAfter, true_and] at after
        split at after
        · -- the row that is there is the one of the `Add`
          next reads =>
          have row : (p.store w.uid).data w.timerID = some w.data :=
            wrote.row (racing.rows (by simpa [Pool.history, List.any_map] using after))
          obtain ⟨u, c⟩ := c
          cases c with
          | hgetData timerID =>
            simp only [row?] at reads ⊢
            split at reads
            · next same =>
              obtain ⟨rfl, rfl⟩ := same
              simp [Store.exec, execAt, Ledger.exec, row]
            · cases reads
          | _ => cases reads
        · next other =>
          rw [Option.not_isSome_iff_eq_none.mp other]
          exact informed i after
      · have log : ({ p with
            store := (Store.exec codec p.store c).1
            calls := p.calls.modify i fun _ => resume (Store.exec codec p.store c).2
            log := (i, ⟨c, (Store.exec codec p.store c).2⟩) :: p.log } : Processes T V).logOf j = p.logOf j := by
          simp [Pool.logOf, mine]
        rw [log]
        refine informed j ?_
        simpa [readAfter, mine] using after
    · rw [show (processes codec).next p (.step i) = p from eq]
      exact informed

end Ledgers

variable {codec : Codec T V}

theorem quiet_of_quotes {w : Addition V} {log : List (Executed V)} {c : Nat × Command V} (quotes : Quotes codec log c) :
    w.Quiet c := by
  obtain ⟨u, c⟩ := c
  cases c <;> first | exact ⟨rfl, rfl⟩ | exact quotes.elim

/-- A requeue that has read the row of the `Add`, and its business if the codec asks for it, hands over its due time. -/
theorem quoted_of_informed {uid : Nat} {rec : T} {data : V} {log : List (Executed V)} {now due : Int}
    (written : codec.marshal (codec.markPending rec) = some data) (row : lastRow uid (codec.timerID rec) log = some (some data))
    (named : codec.keyed.isNone = true ∨ businessIDOf (lastIndex uid log) (codec.timerID rec) = codec.businessID rec)
    (quotes : Quotes codec log (uid, .requeue (codec.timerID rec) now due)) : due = codec.dueTimeMs (codec.markPending rec) := by
  obtain ⟨found, last, quoted⟩ := quotes
  rw [row] at last
  cases last
  have read : decode codec (lastIndex uid log) (codec.timerID rec) data = some (codec.markPending rec) := by
    cases keyed : codec.keyed with
    | none => rw [decode_plain keyed, codec.unmarshal_marshal _ _ written]
    | some reader =>
      have business := named.resolve_left (by simp [keyed])
      have known := codec.keyed_marshal reader _ _ keyed written
      rw [codec.timerID_pending, codec.businessID_pending] at known
      rw [decode, keyed]
      dsimp only
      rw [business, known]
  have same := quoted data rfl
  rw [read] at same
  exact (Option.some.inj same).symm

/-- A record that is added while expired claims are requeued is pending under its due time, if no requeue whose call read
the row before the `Add` wrote it finds an expired claim once the `Add` has put the timer in the pending set. -/
theorem add_survives_requeue (codec : Codec T V) (store : Store V) (uid : Nat) (rec : T) (data : V)
    (written : codec.marshal (codec.markPending rec) = some data)
    (small : (codec.dueTimeMs (codec.markPending rec)).natAbs ≤ 2 ^ 53) (actions : List (Pool.Action (Activity T)))
    (p : Processes T V) (ran : (processes codec).run (race codec store uid rec) actions = some p)
    (requeues : (processes codec).Meets (fun _ a => Beside Requeuing a) (race codec store uid rec) actions)
    (ordered : (processes codec).Meets
      ((addition codec uid rec data).Never (requeuesStale codec (addition codec uid rec data)))
      (race codec store uid rec) actions)
    (completed : (p.calls[0]?).any finished = true) : Agrees codec (codec.timerID rec) (p.store uid) := by
  set w := addition codec uid rec data
  have kept := Machine.run_keeps_where
    (I := fun p => ∃ phase, w.Racing (Quotes codec) phase p ∧ w.Scored phase (p.store w.uid) ∧ w.Informed p)
    ?_ ran (requeues.and ordered)
    ⟨.fresh, racing_race written, ⟨fun begun => absurd rfl begun, trivial⟩, fun _ after => by cases after⟩
  · obtain ⟨phase, racing, scored, -⟩ := kept
    obtain ⟨begun, row, -⟩ := scored.wrote.ended (racing.ended completed)
    refine ⟨data, _, row, codec.unmarshal_marshal _ _ written, ?_⟩
    rw [← double_exact small]
    exact scored.score begun
  · rintro p a ⟨phase, racing, scored, informed⟩ ⟨beside, ordered⟩ -
    obtain ⟨later, next, moves⟩ := racing_next quotes_requeuing (fun _ _ => quiet_of_quotes) racing beside
    refine ⟨later, next, ?_, informed_next a racing scored.wrote informed⟩
    generalize ((processes codec).next p a).store w.uid = l' at moves ⊢
    cases moves with
    | same idle => exact scored
    | own idle advance => exact scored.advance advance
    | @rival i c command quotes =>
      cases c with
      | requeue timerID now due =>
        refine scored.requeue codec.fields timerID now due fun begun same late => ?_
        subst same
        have fresh := ordered _ command rfl (racing.listed.mpr begun)
        simp only [requeuesStale, late, beq_self_eq_true, Bool.and_self, Bool.true_and, Bool.not_eq_false', Bool.and_eq_true,
          Bool.or_eq_true, beq_iff_eq] at fresh
        exact quoted_of_informed written (informed i fresh.1) fresh.2 quotes
      | _ => first | exact quotes.elim | exact scored

def requeueLate : Pool.Action (Activity Row) := .start (.call (.requeueExpiredProcessing [1] 13000000000))

/-- A requeue lists the timer before the `Add`, reads its row after it, and finds the claim that is still on record. -/
theorem add_survives_requeue_reread :
    Agrees rows 7 (((processes rows).after
      (race rows ((processes rows).after { store := fun _ => {} } inProcess).store 1 ⟨7, "raid", 5000, false⟩)
      (requeueLate :: .step 1 :: List.replicate 5 (.step 0) ++ [.step 1, .step 1])).store 1) :=
  add_survives_requeue rows _ 1 ⟨7, "raid", 5000, false⟩ _ rfl (by decide) _ _ (Machine.run_after (by decide +kernel))
    (by decide +kernel) (by decide +kernel) (by decide +kernel)

/-- A requeue reads the record, the timer is added with a new due time, and the script of the requeue puts the old one
back. -/
theorem requeue_reverts :
    ∃ p, (processes rows).run { store := fun _ => {} }
        (inProcess ++ requeueLate :: List.replicate 2 (.step 2) ++
          .start (.call (.add 1 ⟨7, "raid", 5000, false⟩)) :: List.replicate 5 (.step 3) ++ [.step 2]) = some p ∧
      (∀ call ∈ p.calls, call.finished = true) ∧ (p.store 1).data 7 = some ⟨7, "raid", 5000, false⟩ ∧
      ((p.store 1).zset .pending).lookup 7 = some 1000 := by
  refine ⟨_, Machine.run_after (by decide +kernel), ?_⟩
  decide +kernel

end Skygo.Timer.Queue
