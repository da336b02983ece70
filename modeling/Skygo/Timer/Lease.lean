import Skygo.Timer.Ledger

/-! Claims are exclusive, whatever calls run at once.

Any number of engines and callers share the ledgers; their commands and scripts interleave
one by one. A claim takes its timer out of the pending set, and the metadata it leaves makes
every requeue wait for its deadline.
-/

set_option autoImplicit false

attribute [-instance] instBooleanRingBool

namespace Skygo.Timer.Queue

open Semantics Redis Program

variable {T V : Type}

def doFire (codec : Codec T V) (timerID : Nat) (owner : String) (now lease : Int) : Call V Unit := do
  match ← claimForProcessing timerID owner now lease with
  | some true => do
      redis (.handler timerID)
      let _ ← completeProcessing codec timerID owner
      pure ()
  | _ => pure ()

inductive Activity (T : Type) where
  | call (op : Op T)
  | doFire (uid timerID : Nat) (owner : String) (now lease : Int)

def Activity.code (codec : Codec T V) : Activity T → StoreCall V Unit
  | .call op => op.code codec
  | .doFire uid timerID owner now lease => onUser uid (Queue.doFire codec timerID owner now lease)

abbrev Processes (T V : Type) := Pool (Store V) (Nat × Command V) (fun c => Reply c.2) (Activity T)

/-- Any interleaving of any activities, each of which may stop at any command. -/
def processes (codec : Codec T V) : Machine (Processes T V) (Pool.Action (Activity T)) :=
  Pool.machine (Store.exec codec) (Activity.code codec)

abbrev Executed (V : Type) := (c : Nat × Command V) × Reply c.2

section Events

variable (uid id : Nat)

def claimed : Executed V → Option Int
  | ⟨(u, .claim t _ deadline), reply⟩ => if u = uid ∧ t = id ∧ reply = true then some deadline else none
  | _ => none

def added : Nat × Command V → Nat
  | (u, .zadd .pending _ t) => if u = uid ∧ t = id then 1 else 0
  | _ => 0

def requeued : Executed V → Option Int
  | ⟨(u, .requeue t now _), reply⟩ => if u = uid ∧ t = id ∧ reply = some true then some now else none
  | _ => none

def handled : Nat × Command V → Nat
  | (u, .handler t) => if u = uid ∧ t = id then 1 else 0
  | _ => 0

def Frees (deadline : Int) (e : Executed V) : Prop :=
  added uid id e.1 = 1 ∨ ∃ now, requeued uid id e = some now ∧ deadline ≤ now

/-- The deadline of the latest claim, unless the timer was freed since. The history is latest first. -/
def openLease : List (Executed V) → Option Int
  | [] => none
  | e :: older =>
      match claimed uid id e with
      | some deadline => some deadline
      | none =>
          if added uid id e.1 = 1 then none
          else
            match requeued uid id e, openLease older with
            | some now, some deadline => if deadline ≤ now then none else some deadline
            | _, lease => lease

def latest : List (Executed V) → Option Int
  | [] => none
  | e :: older => (claimed uid id e).or (latest older)

def Exclusive : List (Executed V) → Prop
  | [] => True
  | e :: older => ((claimed uid id e).isSome = true → openLease uid id older = none) ∧ Exclusive older

end Events

variable {uid id : Nat} {e : Executed V} {history older : List (Executed V)} {deadline : Int}

theorem latest_of_open (lease : openLease uid id history = some deadline) : latest uid id history = some deadline := by
  induction history with
  | nil => cases lease
  | cons e older ih =>
    unfold openLease at lease
    unfold latest
    split at lease
    · next claim => rw [claim]; exact lease
    · next free =>
      rw [free, Option.none_or]
      split at lease
      · cases lease
      · split at lease
        · split at lease
          · cases lease
          · next known _ => exact ih (known.trans lease)
        · exact ih lease

/-- After an exclusive history, a lease that is no longer the open one was freed since. -/
theorem freed_since {between before : List (Executed V)} {first : Executed V}
    (exclusive : Exclusive uid id (between ++ first :: before)) (claim : claimed uid id first = some deadline)
    (ended : openLease uid id (between ++ first :: before) ≠ some deadline) :
    ∃ e ∈ between, Frees uid id deadline e := by
  induction between with
  | nil => simp [openLease, claim] at ended
  | cons e between ih =>
    by_cases inner : openLease uid id (between ++ first :: before) = some deadline
    · -- the lease was open before `e`, so `e` is what ended it
      refine ⟨e, List.mem_cons_self .., ?_⟩
      rw [List.cons_append, openLease, inner] at ended
      have idle : claimed uid id e = none := by
        rw [← Option.not_isSome_iff_eq_none]
        intro again
        have free : openLease uid id (between ++ first :: before) = none := exclusive.1 again
        rw [inner] at free
        cases free
      rw [idle] at ended
      unfold Frees
      cases known : requeued uid id e <;> grind
    · obtain ⟨e, member, frees⟩ := ih exclusive.2 inner
      exact ⟨e, List.mem_cons_of_mem _ member, frees⟩

/-- What one command does to a timer: a claim, the write of an added timer, a requeue, or less. -/
inductive Touch (fields : V → Option Fields) (id : Nat) (l : Ledger V) : (c : Command V) → Reply c → Ledger V → Prop
  | claim {l' : Ledger V} {owner : String} {deadline : Int} (was : id ∈ l.zset .pending) (now : id ∉ l'.zset .pending)
      (claims : l'.claims id = some ⟨owner, deadline⟩) (data : l'.data id = l.data id) :
      Touch fields id l (.claim id owner deadline) true l'
  | add {l' : Ledger V} {score : Int} (claims : l'.claims id = l.claims id) (data : l'.data id = l.data id) :
      Touch fields id l (.zadd .pending score id) () l'
  | requeue {l' : Ledger V} {now due deadline : Int} {v : V} (row : l.data id = some v)
      (lease : l.leaseDeadline fields id v = some (some deadline)) (late : deadline ≤ now)
      (claims : l'.claims id = none) (data : l'.data id = l.data id) :
      Touch fields id l (.requeue id now due) (some true) l'
  | less {l' : Ledger V} {c : Command V} {reply : Reply c} (pending : id ∈ l'.zset .pending → id ∈ l.zset .pending)
      (claims : l'.claims id = l.claims id ∨ l'.claims id = none)
      (data : l'.data id = l.data id ∨ l'.data id = none ∨ ∃ v, c = .hsetData id v ∧ l'.data id = some v)
      (unclaimed : ∀ uid, claimed uid id (⟨(uid, c), reply⟩ : Executed V) = none)
      (unadded : ∀ uid, added uid id (uid, c) = 0)
      (unqueued : ∀ uid, requeued uid id (⟨(uid, c), reply⟩ : Executed V) = none) : Touch fields id l c reply l'

section Touch

open Ledger

variable {fields : V → Option Fields} {l : Ledger V}

def Quiet : Command V → Prop
  | .claim _ _ _ | .zadd .pending _ _ | .requeue _ _ _ => False
  | _ => True

theorem Touch.quiet {c : Command V} {reply : Reply c} {l' : Ledger V} (quiet : Quiet c)
    (pending : id ∈ l'.zset .pending → id ∈ l.zset .pending) (claims : l'.claims id = l.claims id ∨ l'.claims id = none)
    (data : l'.data id = l.data id ∨ l'.data id = none ∨ ∃ v, c = .hsetData id v ∧ l'.data id = some v) :
    Touch fields id l c reply l' := by
  refine .less pending claims data (fun _ => ?_) (fun _ => ?_) (fun _ => ?_)
  · cases c <;> first | rfl | exact quiet.elim
  · cases c with
    | zadd key score timerID => cases key <;> first | rfl | exact quiet.elim
    | _ => rfl
  · cases c <;> first | rfl | exact quiet.elim

theorem touch_claimScript (timerID : Nat) (owner : String) (deadline : Int) :
    Touch fields id l (.claim timerID owner deadline) (l.claimScript timerID owner deadline).2
      (l.claimScript timerID owner deadline).1 := by
  unfold claimScript
  split
  · exact .less (fun h => h) (.inl rfl) (.inl rfl) (fun _ => by simp [claimed]) (fun _ => rfl) (fun _ => rfl)
  · split
    · exact .less (fun h => h) (.inl rfl) (.inl rfl) (fun _ => by simp [claimed]) (fun _ => rfl) (fun _ => rfl)
    · next pending =>
      by_cases same : timerID = id
      · subst same
        refine .claim (by simpa using pending) ?_ ?_ ?_ <;> simp
      · refine .less ?_ (.inl ?_) (.inl ?_) (fun _ => by simp [claimed, same]) (fun _ => rfl) (fun _ => rfl)
        · simp
        · simp [Ne.symm same]
        · simp

theorem touch_requeueScript (timerID : Nat) (now due : Int) :
    Touch fields id l (.requeue timerID now due) (l.requeueScript fields timerID now due).2
      (l.requeueScript fields timerID now due).1 := by
  unfold requeueScript
  split
  · refine .less ?_ ?_ (.inl ?_) (fun _ => rfl) (fun _ => rfl) (fun _ => by simp [requeued])
    · simp
    · by_cases same : id = timerID <;> simp [same]
    · simp
  · next v row =>
    split
    · exact .less (fun h => h) (.inl rfl) (.inl rfl) (fun _ => rfl) (fun _ => rfl) (fun _ => by simp [requeued])
    · exact .less (fun h => h) (.inl rfl) (.inl rfl) (fun _ => rfl) (fun _ => rfl) (fun _ => by simp [requeued])
    · next deadline lease =>
      split
      · exact .less (fun h => h) (.inl rfl) (.inl rfl) (fun _ => rfl) (fun _ => rfl) (fun _ => by simp [requeued])
      · next late =>
        by_cases same : timerID = id
        · subst same
          refine .requeue row lease (by omega) ?_ ?_ <;> simp
        · refine .less ?_ (.inl ?_) (.inl ?_) (fun _ => rfl) (fun _ => rfl) (fun _ => by simp [requeued, same])
          · simp [Ne.symm same]
          · simp [Ne.symm same]
          · simp

theorem touch_completeScript (timerID : Nat) (owner businessID : String) :
    Touch fields id l (.complete timerID owner businessID) (l.completeScript fields timerID owner businessID).2
      (l.completeScript fields timerID owner businessID).1 := by
  have erased : ∀ reply, Touch fields id l (.complete timerID owner businessID) reply (l.erase timerID businessID) := by
    intro reply
    refine .quiet trivial ?_ ?_ ?_
    · simp
    · grind
    · grind
  unfold completeScript
  split
  · exact .quiet trivial (fun h => h) (.inl rfl) (.inl rfl)
  · split
    · exact .quiet trivial (fun h => h) (.inl rfl) (.inl rfl)
    · exact .quiet trivial (fun h => h) (.inl rfl) (.inl rfl)
    · exact erased _

theorem touch_exec (fields : V → Option Fields) (id : Nat) (l : Ledger V) (c : Command V) :
    Touch fields id l c (exec fields l c).2 (exec fields l c).1 := by
  cases c with
  | claim timerID owner deadline => exact touch_claimScript timerID owner deadline
  | requeue timerID now due => exact touch_requeueScript timerID now due
  | complete timerID owner businessID => exact touch_completeScript timerID owner businessID
  | zadd key score timerID =>
    cases key with
    | pending =>
      by_cases same : timerID = id
      · subst same
        exact .add rfl rfl
      · refine .less ?_ (.inl rfl) (.inl rfl) (fun _ => rfl) (fun _ => by simp [added, same]) (fun _ => rfl)
        simp [exec, Ne.symm same]
    | processing => exact .quiet trivial (by simp [exec]) (.inl rfl) (.inl rfl)
  | zrem key timerID => exact .quiet trivial (by cases key <;> simp [exec]) (.inl rfl) (.inl rfl)
  | hsetData timerID v =>
    refine .quiet trivial (fun h => h) (.inl rfl) ?_
    by_cases same : timerID = id
    · subst same
      exact .inr (.inr ⟨v, rfl, by simp [exec]⟩)
    · exact .inl (by simp [exec, Ne.symm same])
  | hdelData timerID =>
    refine .quiet trivial (fun h => h) (.inl rfl) ?_
    by_cases same : id = timerID <;> simp [exec, same]
  | hdelClaim timerID =>
    refine .quiet trivial (fun h => h) ?_ (.inl rfl)
    by_cases same : id = timerID <;> simp [exec, same]
  | _ => exact .quiet trivial (fun h => h) (.inl rfl) (.inl rfl)

end Touch

def tally (count : Executed V → Nat) (history : List (Executed V)) : Nat := (history.map count).sum

def claims (uid id : Nat) : List (Executed V) → Nat := tally fun e => (claimed uid id e).isSome.toNat

def additions (uid id : Nat) : List (Executed V) → Nat := tally fun e => added uid id e.1

def requeues (uid id : Nat) : List (Executed V) → Nat := tally fun e => (requeued uid id e).isSome.toNat

structure Leased (codec : Codec T V) (uid id : Nat) (l : Ledger V) (history : List (Executed V)) : Prop where
  free : id ∈ l.zset .pending → openLease uid id history = none
  current : ∀ claim, l.claims id = some claim → latest uid id history = some claim.deadline
  unmarked : ∀ v read, l.data id = some v → codec.fields v = some read → read.timerStatus ≠ some "processing"
  exclusive : Exclusive uid id history
  balance : claims uid id history + (decide (id ∈ l.zset .pending)).toNat ≤
    additions uid id history + requeues uid id history

/-- Rows are only written with records that were marked pending. -/
def Unmarked (codec : Codec T V) : Command V → Prop
  | .hsetData _ v => ∀ read, codec.fields v = some read → read.timerStatus ≠ some "processing"
  | _ => True

variable {codec : Codec T V} {l l' : Ledger V} {c : Command V} {reply : Reply c}

def Unclaimed (fields : V → Option Fields) (id : Nat) (l : Ledger V) : Prop :=
  ∀ v read, l.data id = some v → fields v = some read → read.timerStatus ≠ some "processing"

theorem Unclaimed.lease {fields : V → Option Fields} (unclaimed : Unclaimed fields id l) (free : l.claims id = none) {v : V}
    (row : l.data id = some v) (deadline : Int) : l.leaseDeadline fields id v ≠ some (some deadline) := by
  unfold Ledger.leaseDeadline
  rw [free]
  intro lease
  obtain ⟨read, decoded, answer⟩ := Option.map_eq_some_iff.mp lease
  rw [if_neg (unclaimed v read row decoded)] at answer
  cases answer

theorem Touch.unclaimed (touch : Touch codec.fields id l c reply l') (unmarked : Unmarked codec c)
    (unclaimed : Unclaimed codec.fields id l) : Unclaimed codec.fields id l' := by
  intro v read row decoded
  cases touch with
  | claim _ _ _ data | add _ data | requeue _ _ _ _ data => exact unclaimed v read (data ▸ row) decoded
  | less _ _ data =>
    rcases data with same | gone | ⟨w, rfl, wrote⟩
    · exact unclaimed v read (same ▸ row) decoded
    · rw [gone] at row
      cases row
    · rw [wrote] at row
      cases row
      exact unmarked read decoded

theorem Leased.quiet (leased : Leased codec uid id l history) (unclaimed : claimed uid id e = none)
    (unadded : added uid id e.1 = 0) (unqueued : requeued uid id e = none)
    (pending : id ∈ l'.zset .pending → id ∈ l.zset .pending) (claims_ : l'.claims id = l.claims id ∨ l'.claims id = none)
    (unmarked : ∀ v read, l'.data id = some v → codec.fields v = some read → read.timerStatus ≠ some "processing") :
    Leased codec uid id l' (e :: history) := by
  have lease : openLease uid id (e :: history) = openLease uid id history := by
    simp [openLease, unclaimed, unadded, unqueued]
  refine ⟨fun member => lease.trans (leased.free (pending member)), fun claim known => ?_, unmarked, ⟨?_, leased.exclusive⟩, ?_⟩
  · simp only [latest, unclaimed, Option.none_or]
    grind [leased.current claim]
  · rw [unclaimed]
    intro claim
    cases claim
  · have balance := leased.balance
    simp only [claims, additions, requeues, tally, List.map_cons, List.sum_cons, unclaimed, unadded, unqueued] at *
    by_cases member : id ∈ l'.zset .pending
    · simp only [member, pending member, decide_true] at balance ⊢
      simpa using balance
    · simp only [member, decide_false, Bool.toNat_false, Option.isSome_none] at balance ⊢
      omega

theorem leased_touch (touch : Touch codec.fields id l c reply l') (unmarked : Unmarked codec c)
    (leased : Leased codec uid id l history) : Leased codec uid id l' (⟨(uid, c), reply⟩ :: history) := by
  have balance := leased.balance
  have rows := touch.unclaimed unmarked leased.unmarked
  cases touch with
  | @claim _ owner deadline was now claim _ =>
    have won : claimed uid id (⟨(uid, .claim id owner deadline), true⟩ : Executed V) = some deadline := by
      simp [claimed]
    refine ⟨fun member => absurd member now, fun known row => ?_, rows, ⟨fun _ => leased.free was, leased.exclusive⟩, ?_⟩
    · rw [claim] at row
      cases row
      simp [latest, won]
    · simp only [claims, additions, requeues, tally, List.map_cons, List.sum_cons, won] at balance ⊢
      simp only [was, now, decide_true, decide_false, Bool.toNat_true, Bool.toNat_false, Option.isSome_some] at balance ⊢
      omega
  | @add _ score claim _ =>
    have wrote : added uid id ((uid, .zadd .pending score id) : Nat × Command V) = 1 := by simp [added]
    have unclaimed : claimed uid id (⟨(uid, .zadd .pending score id), ()⟩ : Executed V) = none := rfl
    refine ⟨fun _ => by simp [openLease, wrote, unclaimed], fun known row => ?_, rows,
      ⟨fun won => (by rw [unclaimed] at won; cases won), leased.exclusive⟩, ?_⟩
    · rw [claim] at row
      simp only [latest, unclaimed, Option.none_or]
      exact leased.current known row
    · simp only [claims, additions, requeues, tally, List.map_cons, List.sum_cons, wrote, unclaimed] at balance ⊢
      have most := Bool.toNat_le (decide (id ∈ l'.zset .pending))
      simp only [Option.isSome_none, Bool.toNat_false]
      omega
  | @requeue _ now due deadline v row lease late claim _ =>
    have moved : requeued uid id (⟨(uid, .requeue id now due), some true⟩ : Executed V) = some now := by simp [requeued]
    have unclaimed : claimed uid id (⟨(uid, .requeue id now due), some true⟩ : Executed V) = none := rfl
    -- the script read the deadline of the latest claim
    have known : latest uid id history = some deadline := by
      cases current : l.claims id with
      | none => exact absurd lease (Unclaimed.lease leased.unmarked current row deadline)
      | some processing =>
        simp only [Ledger.leaseDeadline, current, Option.some.injEq] at lease
        exact lease ▸ leased.current processing current
    have freed : openLease uid id (⟨(uid, .requeue id now due), some true⟩ :: history) = none := by
      have unadded : added uid id ((uid, .requeue id now due) : Nat × Command V) = 0 := rfl
      simp only [openLease, unclaimed, unadded, moved]
      cases still : openLease uid id history with
      | none => rfl
      | some other =>
        rw [latest_of_open still] at known
        cases known
        simp [late]
    refine ⟨fun _ => freed, fun processing row => ?_, rows, ⟨fun won => (by rw [unclaimed] at won; cases won), leased.exclusive⟩, ?_⟩
    · rw [claim] at row
      cases row
    · simp only [claims, additions, requeues, tally, List.map_cons, List.sum_cons, moved, unclaimed] at balance ⊢
      have most := Bool.toNat_le (decide (id ∈ l'.zset .pending))
      simp only [Option.isSome_none, Option.isSome_some, Bool.toNat_false, Bool.toNat_true]
      omega
  | less pending claim _ unclaimed unadded unqueued =>
    exact leased.quiet (unclaimed uid) (unadded uid) (unqueued uid) pending claim rows

def Plain : Command V → Prop
  | .zadd .pending _ _ | .hsetData _ _ | .handler _ => False
  | _ => True

def Reads : Command V → Prop
  | .hgetIndex _ | .hgetallIndex | .hgetData _ | .hmgetData _ | .zrange _ | .zrangeByScore _ _ _ | .zcard _ => True
  | _ => False

def Repairs : Command V → Prop
  | .zrem _ _ => True
  | c => Reads c

def Rescores : Command V → Prop
  | .requeue _ _ _ => True
  | c => Reads c

def Scripted : Command V → Prop
  | .claim _ _ _ | .complete _ _ _ | .requeue _ _ _ => True
  | c => Reads c

section Plain

section

variable {c : Command V}

theorem repairs_of_reads (reads : Reads c) : Repairs c := by
  cases c <;> trivial

theorem scripted_of_reads (reads : Reads c) : Scripted c := by
  cases c <;> trivial

theorem rescores_of_reads (reads : Reads c) : Rescores c := by
  cases c <;> trivial

theorem scripted_of_rescores (rescores : Rescores c) : Scripted c := by
  cases c <;> trivial

theorem plain_of_repairs (repairs : Repairs c) : Plain c := by
  cases c <;> trivial

theorem plain_of_scripted (scripted : Scripted c) : Plain c := by
  cases c <;> trivial

end

theorem reads_businessIDs : (businessIDsByTimerID codec).Only Reads := by
  unfold businessIDsByTimerID
  split
  · exact ⟨trivial, fun _ => trivial⟩
  · trivial

theorem reads_loadRecord (timerID : Nat) : (loadRecordByTimerID codec timerID).Only Reads := by
  refine ⟨trivial, fun found => ?_⟩
  cases found with
  | none => trivial
  | some v => exact reads_businessIDs.bind fun _ => trivial

theorem scripted_loadRecord (timerID : Nat) : (loadRecordByTimerID codec timerID).Only Scripted :=
  (reads_loadRecord timerID).mono fun _ => scripted_of_reads

theorem scripted_claimForProcessing (timerID : Nat) (owner : String) (now lease : Int) :
    (claimForProcessing timerID owner now lease : Call V _).Only Scripted := by
  unfold claimForProcessing
  split
  · trivial
  · exact ⟨trivial, fun _ => trivial⟩

theorem plain_claimForProcessing (timerID : Nat) (owner : String) (now lease : Int) :
    (claimForProcessing timerID owner now lease : Call V _).Only Plain :=
  (scripted_claimForProcessing timerID owner now lease).mono fun _ => plain_of_scripted

theorem scripted_completeProcessing (codec : Codec T V) (timerID : Nat) (owner : String) :
    (completeProcessing codec timerID owner).Only Scripted := by
  unfold completeProcessing
  split
  · trivial
  · refine (scripted_loadRecord timerID).bind fun found => ?_
    cases found with
    | none => trivial
    | some _ => exact ⟨trivial, fun _ => trivial⟩

theorem plain_completeProcessing (codec : Codec T V) (timerID : Nat) (owner : String) :
    (completeProcessing codec timerID owner).Only Plain :=
  (scripted_completeProcessing codec timerID owner).mono fun _ => plain_of_scripted

theorem rescores_requeueTimers (now : Int) (total : Nat) (timerIDs : List Nat) :
    (requeueTimers codec now total timerIDs).Only Rescores := by
  induction timerIDs generalizing total with
  | nil => trivial
  | cons timerID rest ih =>
    have first : (requeueProcessingTimer codec now timerID).Only Rescores := by
      refine ((reads_loadRecord timerID).mono fun _ => rescores_of_reads).bind fun found => ?_
      cases found with
      | none => trivial
      | some _ => exact ⟨trivial, fun _ => trivial⟩
    refine first.bind fun answer => ?_
    cases answer with
    | none => trivial
    | some _ => exact ih _

theorem rescores_requeueUsers (now : Int) (total : Nat) (uids : List Nat) :
    (requeueExpiredProcessing codec now total uids).Only fun c => Rescores c.2 := by
  induction uids generalizing total with
  | nil => trivial
  | cons uid uids ih =>
    have user : (requeueUser codec now total).Only Rescores := ⟨trivial, fun ids => rescores_requeueTimers now total ids⟩
    refine Only.bind (only_tag.mpr user) fun answer => ?_
    obtain ⟨total, reached⟩ := answer
    cases reached with
    | false => trivial
    | true => exact ih total

theorem scripted_requeueUsers (now : Int) (total : Nat) (uids : List Nat) :
    (requeueExpiredProcessing codec now total uids).Only fun c => Scripted c.2 :=
  (rescores_requeueUsers now total uids).mono fun _ => scripted_of_rescores

theorem plain_removeByTimerID (timerID : Nat) : (removeByTimerID codec timerID).Only Plain := by
  have last : ∀ businessID, (unindex businessID : Call V Unit).Only Plain := by
    intro businessID
    unfold unindex
    split
    · trivial
    · exact ⟨trivial, fun _ => trivial⟩
  refine ((scripted_loadRecord timerID).mono fun _ => plain_of_scripted).bind fun found =>
    ⟨trivial, fun _ => ⟨trivial, fun _ => ⟨trivial, fun _ => ?_⟩⟩⟩
  exact (last _).bind fun _ => trivial

theorem repairs_loadByTimerIDs (timerIDs : List Nat) : (loadByTimerIDs codec timerIDs).Only Repairs := by
  have collects : ∀ index rows, (collect codec index rows).Only Repairs := by
    intro index rows
    induction rows with
    | nil => trivial
    | cons row rest ih =>
      obtain ⟨timerID, val⟩ := row
      cases val with
      | none => exact ⟨trivial, fun _ => ⟨trivial, fun _ => ih⟩⟩
      | some v =>
        unfold collect
        split
        · trivial
        · exact ih.bind fun _ => trivial
  unfold loadByTimerIDs
  split
  · trivial
  · exact ⟨trivial, fun _ => (reads_businessIDs.mono fun _ => repairs_of_reads).bind fun _ => collects _ _⟩

theorem repairs_loadActive : (loadActive codec).Only Repairs :=
  ⟨trivial, fun _ => ⟨trivial, fun _ => repairs_loadByTimerIDs _⟩⟩

theorem repairs_loadWindow (now window : Int) : (loadWindow codec now window).Only Repairs :=
  ⟨trivial, fun _ => repairs_loadByTimerIDs _⟩

theorem only_onUser {α : Type} {call : Call V α} {P : Nat × Command V → Prop} {uid : Nat}
    (only : call.Only fun c => P (uid, c)) : (onUser uid call).Only P :=
  Only.bind (only_tag.mpr only) fun _ => trivial

theorem plain_code (codec : Codec T V) (op : Op T) :
    (∃ uid rec, op = .add uid rec) ∨ (op.code codec).Only fun c => Plain c.2 := by
  cases op with
  | add uid rec => exact .inl ⟨uid, rec, rfl⟩
  | claimForProcessing uid timerID owner now lease =>
    exact .inr (only_onUser (plain_claimForProcessing timerID owner now lease))
  | completeProcessing uid timerID owner => exact .inr (only_onUser (plain_completeProcessing codec timerID owner))
  | requeueExpiredProcessing uids now =>
    have users : (Queue.requeueExpiredProcessing codec now 0 uids).Only fun c => Plain c.2 :=
      (scripted_requeueUsers now 0 uids).mono fun _ => plain_of_scripted
    exact .inr (users.bind fun _ => trivial)
  | removeByTimerID uid timerID => exact .inr (only_onUser (plain_removeByTimerID timerID))
  | loadActiveByUID uid => exact .inr (only_onUser (repairs_loadActive.mono fun _ => plain_of_repairs))
  | loadWindowByUID uid now window =>
    exact .inr (only_onUser ((repairs_loadWindow now window).mono fun _ => plain_of_repairs))
  | loadByTimerIDs uid timerIDs =>
    exact .inr (only_onUser ((repairs_loadByTimerIDs timerIDs).mono fun _ => plain_of_repairs))

theorem plain_replaceOld (timerID : Nat) (businessID : String) :
    (replaceOld timerID businessID : Call V Unit).Only Plain := by
  unfold replaceOld
  split
  · trivial
  · refine ⟨trivial, fun old => ?_⟩
    cases old with
    | none => trivial
    | some old =>
      dsimp only [Program.bind]
      split
      · trivial
      · exact ⟨trivial, fun _ => ⟨trivial, fun _ => ⟨trivial, fun _ => ⟨trivial, fun _ => trivial⟩⟩⟩⟩

end Plain

theorem unmarked_of_plain {c : Command V} (plain : Plain c) : Unmarked codec c := by
  cases c with
  | hsetData timerID v => exact plain.elim
  | _ => trivial

theorem added_of_plain {c : Command V} (plain : Plain c) (u : Nat) : added uid id (u, c) = 0 := by
  cases c with
  | zadd key score timerID =>
    cases key with
    | pending => exact plain.elim
    | processing => rfl
  | _ => rfl

theorem handled_of_plain {c : Command V} (plain : Plain c) (u : Nat) : handled uid id (u, c) = 0 := by
  cases c with
  | handler timerID => exact plain.elim
  | _ => rfl

theorem unmarked_add (rec : T) : (add codec rec).Only (Unmarked codec) := by
  unfold add
  split
  · trivial
  · next data written =>
    refine ((plain_replaceOld _ _).mono fun _ => unmarked_of_plain).bind fun _ => ?_
    refine Only.bind ⟨trivial, fun _ => ⟨trivial, fun _ => ⟨?_, fun _ => ?_⟩⟩⟩ fun _ => trivial
    · exact fun read decoded => codec.fields_pending rec data read written decoded
    · dsimp only [Program.bind]
      split
      · trivial
      · exact ⟨trivial, fun _ => trivial⟩

theorem unmarked_code (activity : Activity T) : (activity.code codec).Only fun c => Unmarked codec c.2 := by
  cases activity with
  | call op =>
    rcases plain_code codec op with ⟨uid, rec, rfl⟩ | plain
    · exact only_onUser (unmarked_add rec)
    · exact plain.mono fun _ => unmarked_of_plain
  | doFire uid timerID owner now lease =>
    refine only_onUser (((plain_claimForProcessing timerID owner now lease).mono fun _ => unmarked_of_plain).bind ?_)
    intro answer
    rcases answer with _ | _ | _
    · trivial
    · trivial
    · exact ⟨trivial, fun _ => ((plain_completeProcessing codec timerID owner).mono fun _ => unmarked_of_plain).bind
        fun _ => trivial⟩

theorem leased_reachable {p : Processes T V} (reach : (processes codec).Reachable { store := fun _ => {} } p)
    (uid id : Nat) : Leased codec uid id (p.store uid) p.history := by
  refine Pool.reachable_invariant (I := fun s history => Leased codec uid id (s uid) history)
    (P := fun c => Unmarked codec c.2) unmarked_code ?_ ?_ reach
  · refine ⟨fun _ => rfl, fun _ row => (by cases row), fun _ _ row => (by cases row), trivial, ?_⟩
    rw [decide_eq_false (AList.notMem_empty id)]
    exact Nat.le_refl 0
  · rintro s history ⟨u, c⟩ unmarked leased
    have touch := touch_exec codec.fields id (s u) c
    simp only [Store.exec, execAt]
    by_cases same : u = uid
    · subst same
      rw [Function.update_self]
      exact leased_touch touch unmarked leased
    · rw [Function.update_of_ne (Ne.symm same)]
      refine leased.quiet ?_ ?_ ?_ (fun member => member) (.inl rfl) leased.unmarked
      · cases c <;> simp [claimed, same]
      · cases c with
        | zadd key score timerID => cases key <;> simp [added, same]
        | _ => rfl
      · cases c <;> simp [requeued, same]

section Counts

def addCalls (codec : Codec T V) (uid id : Nat) : Activity T → Nat
  | .call (.add u rec) => if u = uid ∧ codec.timerID rec = id then 1 else 0
  | _ => 0

theorem affords_onUser {α : Type} {call : Call V α} {cost : Nat × Command V → Nat}
    {gain : (c : Nat × Command V) → Reply c.2 → Nat} {u credit : Nat}
    (affords : call.Affords (fun c => cost (u, c)) (fun c r => gain (u, c) r) credit) :
    (onUser u call).Affords cost gain credit :=
  Affords.bind_free (affords_tag.mpr affords) fun _ => trivial

theorem affords_added (codec : Codec T V) (uid id : Nat) (activity : Activity T) :
    (activity.code codec).Affords (added uid id) (fun _ _ => 0) (addCalls codec uid id activity) := by
  have free : ∀ {α : Type} {p : Call V α} (u : Nat), p.Only Plain → p.Only fun c => added uid id (u, c) = 0 :=
    fun u plain => plain.mono fun _ plain => added_of_plain plain u
  cases activity with
  | call op =>
    rcases plain_code codec op with ⟨u, rec, rfl⟩ | plain
    · refine affords_onUser ?_
      unfold add
      split
      · trivial
      · refine (free u (plain_replaceOld _ _)).affords_bind fun _ => Affords.bind_free ⟨?_, fun _ => ?_⟩ fun _ => trivial
        · exact Nat.le_refl _
        · refine ⟨Nat.zero_le _, fun _ => ⟨Nat.zero_le _, fun _ => ?_⟩⟩
          dsimp only [Program.bind]
          split
          · trivial
          · exact ⟨Nat.zero_le _, fun _ => trivial⟩
    · exact (plain.mono fun c plain => added_of_plain plain c.1).affords
  | doFire u timerID owner now lease =>
    refine affords_onUser (Only.affords ((free u (plain_claimForProcessing timerID owner now lease)).bind ?_))
    intro answer
    rcases answer with _ | _ | _
    · trivial
    · trivial
    · exact ⟨rfl, fun _ => (free u (plain_completeProcessing codec timerID owner)).bind fun _ => trivial⟩

theorem affords_handled (codec : Codec T V) (uid id : Nat) (activity : Activity T) :
    (activity.code codec).Affords (handled uid id) (fun c r => (claimed uid id ⟨c, r⟩).isSome.toNat) 0 := by
  have free : ∀ {α : Type} {p : Call V α} (u : Nat), p.Only Plain → p.Only fun c => handled uid id (u, c) = 0 :=
    fun u plain => plain.mono fun _ plain => handled_of_plain plain u
  cases activity with
  | call op =>
    rcases plain_code codec op with ⟨u, rec, rfl⟩ | plain
    · refine affords_onUser (Only.affords ?_)
      unfold add
      split
      · trivial
      · refine (free u (plain_replaceOld _ _)).bind fun _ => Only.bind ?_ fun _ => trivial
        refine ⟨rfl, fun _ => ⟨rfl, fun _ => ⟨rfl, fun _ => ?_⟩⟩⟩
        dsimp only [Program.bind]
        split
        · trivial
        · exact ⟨rfl, fun _ => trivial⟩
    · exact (plain.mono fun c plain => handled_of_plain plain c.1).affords
  | doFire u timerID owner now lease =>
    refine affords_onUser ?_
    unfold doFire claimForProcessing
    split
    · trivial
    · refine ⟨Nat.zero_le _, fun won => ?_⟩
      cases won with
      | false => trivial
      | true =>
        have rest := (free u (plain_completeProcessing codec timerID owner)).bind (f := fun _ => pure ()) fun _ => trivial
        refine ⟨?_, fun _ => rest.affords⟩
        show handled uid id (u, .handler timerID) ≤ _
        by_cases mine : u = uid ∧ timerID = id <;> simp [handled, claimed, mine]

def handlings (uid id : Nat) : List (Executed V) → Nat := tally fun e => handled uid id e.1

end Counts

/-- A timer claimed until a deadline is not claimed again before it was added or requeued at the deadline or
later, and its handler never runs more often than it was added and requeued. The history is latest first. -/
theorem exclusive_lease (codec : Codec T V) (p : Processes T V)
    (reach : (processes codec).Reachable { store := fun _ => {} } p) (uid id : Nat) :
    (∀ after between before again first deadline, p.history = after ++ again :: between ++ first :: before →
      claimed uid id first = some deadline → (claimed uid id again).isSome = true →
      ∃ e ∈ between, Frees uid id deadline e) ∧
    handlings uid id p.history ≤ (p.started.map (addCalls codec uid id)).sum + requeues uid id p.history := by
  have leased := leased_reachable reach uid id
  constructor
  · intro after between before again first deadline split claim second
    have exclusive : ∀ newer older : List (Executed V), Exclusive uid id (newer ++ older) → Exclusive uid id older := by
      intro newer older known
      induction newer with
      | nil => exact known
      | cons e newer ih => exact ih known.2
    have known := leased.exclusive
    rw [split, List.append_assoc] at known
    obtain ⟨free, inner⟩ := exclusive after _ known
    have none_ : openLease uid id (between ++ first :: before) = none := free second
    exact freed_since inner claim (by rw [none_]; exact fun same => by cases same)
  · have additions_ : additions uid id p.history ≤ (p.started.map (addCalls codec uid id)).sum := by
      have paid := Pool.total_cost_le (affords_added codec uid id) reach
      simpa [Pool.total, additions, tally] using paid
    have claims_ : handlings uid id p.history ≤ claims uid id p.history := by
      have paid := Pool.total_cost_le (affords_handled codec uid id) reach
      simpa [Pool.total, handlings, claims, tally] using paid
    have balance := leased.balance
    omega

/-- One engine claims and runs the handler but never completes; the timer is requeued when the lease is over, and
another engine runs it again. -/
def recovery : List (Pool.Action (Activity Row)) :=
  [.start (.call (.add 1 ⟨7, "raid", 1000, false⟩)), .step 0, .step 0, .step 0, .step 0, .step 0,
    .start (.doFire 1 7 "first" 2000000000 10000000000), .step 1, .step 1, .crash 1,
    .start (.call (.requeueExpiredProcessing [1] 12000000000)), .step 2, .step 2, .step 2,
    .start (.doFire 1 7 "second" 13000000000 10000000000), .step 3, .step 3]

theorem exclusive_lease_recovered :
    ∃ p, (processes rows).run { store := fun _ => {} } recovery = some p ∧ handlings 1 7 p.history = 2 ∧
      handlings 1 7 p.history ≤ (p.started.map (addCalls rows 1 7)).sum + requeues 1 7 p.history :=
  have ran := Machine.run_after (by decide +kernel)
  ⟨_, ran, by decide +kernel, (exclusive_lease rows _ ⟨recovery, ran⟩ 1 7).2⟩

end Skygo.Timer.Queue
