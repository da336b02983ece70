import Skygo.Redis.SortedSet
import Skygo.Semantics.Program

/-! The Redis ledger of timers: its four keys, its scripts and the calls of the queue.

Every user has a ledger under keys of their own. Commands and scripts are atomic; a call
issues them one after another. Times are nanoseconds, due times and deadlines milliseconds.
-/

set_option autoImplicit false

attribute [-instance] instBooleanRingBool

namespace Skygo.Timer

open Semantics Redis

/-- What the scripts read of a stored record. -/
structure Fields where
  timerStatus : Option String
  processingOwner : Option String
  processingDeadline : Option Int
  deriving DecidableEq

/-- Records of type `T` and the texts they are stored as. Reading inverts writing, and a record that
was marked pending keeps its identifiers and does not read as claimed. -/
structure Codec (T V : Type) where
  marshal : T → Option V
  unmarshal : V → Option T
  /-- A reader that is also given the timer and the business, if the codec has one. -/
  keyed : Option (V → Nat → String → Option T)
  timerID : T → Nat
  businessID : T → String
  dueTimeMs : T → Int
  markPending : T → T
  /-- What `cjson.decode` gives. -/
  fields : V → Option Fields
  timerID_pending : ∀ rec, timerID (markPending rec) = timerID rec
  businessID_pending : ∀ rec, businessID (markPending rec) = businessID rec
  unmarshal_marshal : ∀ rec v, marshal rec = some v → unmarshal v = some rec
  keyed_marshal : ∀ read rec v, keyed = some read → marshal rec = some v →
    read v (timerID rec) (businessID rec) = some rec
  fields_pending : ∀ rec v read, marshal (markPending rec) = some v → fields v = some read →
    read.timerStatus ≠ some "processing"

/-- The value of a `__processing__:` field. -/
structure Claim where
  owner : String
  deadline : Int
  deriving DecidableEq

inductive SetKey where
  | pending
  | processing
  deriving DecidableEq

/-- The keys of one user. The data hash is `data` and, in its `__processing__:` fields, `claims`. -/
structure Ledger (V : Type) where
  zset : SetKey → SortedSet Nat := fun _ => ∅
  data : Nat → Option V := fun _ => none
  claims : Nat → Option Claim := fun _ => none
  index : Hash String Nat := ∅

/-- Commands, the three scripts, and a call of the engine's handler, which Redis does not see. -/
inductive Command (V : Type) where
  | hgetIndex (businessID : String)
  | hgetallIndex
  | hsetIndex (businessID : String) (timerID : Nat)
  | hdelIndex (businessID : String)
  | hgetData (timerID : Nat)
  | hmgetData (timerIDs : List Nat)
  | hsetData (timerID : Nat) (data : V)
  | hdelData (timerID : Nat)
  | hdelClaim (timerID : Nat)
  | zadd (key : SetKey) (score : Int) (timerID : Nat)
  | zrem (key : SetKey) (timerID : Nat)
  | zrange (key : SetKey)
  | zrangeByScore (key : SetKey) (lower upper : Int)
  | zcard (key : SetKey)
  | claim (timerID : Nat) (owner : String) (deadline : Int)
  | complete (timerID : Nat) (owner : String) (businessID : String)
  | requeue (timerID : Nat) (now : Int) (dueTimeMs : Int)
  | handler (timerID : Nat)

/-- A script answers nothing when `cjson.decode` fails in it. -/
@[reducible] def Reply {V : Type} : Command V → Type
  | .hgetIndex _ => Option Nat
  | .hgetallIndex => Hash String Nat
  | .hgetData _ => Option V
  | .hmgetData _ => List (Option V)
  | .hdelData _ => Bool
  | .zrange _ => List Nat
  | .zrangeByScore _ _ _ => List Nat
  | .zcard _ => Nat
  | .claim _ _ _ => Bool
  | .complete _ _ _ => Option Bool
  | .requeue _ _ _ => Option Bool
  | _ => Unit

namespace Ledger

variable {V : Type}

def zadd (l : Ledger V) (key : SetKey) (score : Int) (timerID : Nat) : Ledger V :=
  { l with zset := Function.update l.zset key ((l.zset key).zadd score timerID) }

def zrem (l : Ledger V) (key : SetKey) (timerID : Nat) : Ledger V :=
  { l with zset := Function.update l.zset key ((l.zset key).zrem timerID) }

def setData (l : Ledger V) (timerID : Nat) (data : Option V) : Ledger V :=
  { l with data := Function.update l.data timerID data }

def setClaim (l : Ledger V) (timerID : Nat) (claim : Option Claim) : Ledger V :=
  { l with claims := Function.update l.claims timerID claim }

section Frame

variable {l : Ledger V} {id other : Nat} {key key' : SetKey} {score : Int} {data : Option V} {claim : Option Claim}

@[simp, grind =] theorem zset_zadd : (l.zadd key score id).zset key' =
    if key' = key then (l.zset key).zadd score id else l.zset key' := by
  simp [zadd, Function.update_apply]

@[simp, grind =] theorem zset_zrem : (l.zrem key id).zset key' =
    if key' = key then (l.zset key).zrem id else l.zset key' := by
  simp [zrem, Function.update_apply]

@[simp, grind =] theorem data_setData : (l.setData id data).data other =
    if other = id then data else l.data other := by
  simp [setData, Function.update_apply]

@[simp, grind =] theorem claims_setClaim : (l.setClaim id claim).claims other =
    if other = id then claim else l.claims other := by
  simp [setClaim, Function.update_apply]

@[simp, grind =] theorem data_zadd : (l.zadd key score id).data other = l.data other := rfl

@[simp, grind =] theorem data_zrem : (l.zrem key id).data other = l.data other := rfl

@[simp, grind =] theorem data_setClaim : (l.setClaim id claim).data other = l.data other := rfl

@[simp, grind =] theorem claims_zadd : (l.zadd key score id).claims other = l.claims other := rfl

@[simp, grind =] theorem claims_zrem : (l.zrem key id).claims other = l.claims other := rfl

@[simp, grind =] theorem claims_setData : (l.setData id data).claims other = l.claims other := rfl

@[simp, grind =] theorem zset_setData : (l.setData id data).zset key = l.zset key := rfl

@[simp, grind =] theorem zset_setClaim : (l.setClaim id claim).zset key = l.zset key := rfl

@[simp, grind =] theorem index_zadd : (l.zadd key score id).index = l.index := rfl

@[simp, grind =] theorem index_zrem : (l.zrem key id).index = l.index := rfl

@[simp, grind =] theorem index_setData : (l.setData id data).index = l.index := rfl

@[simp, grind =] theorem index_setClaim : (l.setClaim id claim).index = l.index := rfl

theorem zrem_of_notMem (absent : id ∉ l.zset key) : l.zrem key id = l := by
  have same : (l.zset key).zrem id = l.zset key := AList.ext (List.kerase_of_notMem_keys absent)
  rw [zrem, same, Function.update_eq_self]

end Frame

def claimScript (l : Ledger V) (timerID : Nat) (owner : String) (deadline : Int) : Ledger V × Bool :=
  if (l.data timerID).isNone then (l, false)
  else if timerID ∉ l.zset .pending then (l, false)
  else
    (((l.zrem .pending timerID).setClaim timerID (some ⟨owner, deadline⟩)).zadd .processing deadline timerID, true)

def ownedBy (l : Ledger V) (fields : V → Option Fields) (timerID : Nat) (val : V) (owner : String) : Option Bool :=
  match l.claims timerID with
  | some processing => some (processing.owner = owner)
  | none => (fields val).map fun rec =>
      decide (rec.timerStatus = some "processing" → rec.processingOwner = some owner)

def erase (l : Ledger V) (timerID : Nat) (businessID : String) : Ledger V :=
  let l := (((l.setData timerID none).setClaim timerID none).zrem .pending timerID).zrem .processing timerID
  if businessID ≠ "" ∧ l.index.lookup businessID = some timerID then
    { l with index := l.index.hdel businessID }
  else l

variable {businessID : String}

@[simp, grind =] theorem zset_erase {l : Ledger V} {timerID : Nat} {key : SetKey} :
    (l.erase timerID businessID).zset key = (l.zset key).zrem timerID := by
  unfold erase
  dsimp only
  split <;> cases key <;> simp

@[simp, grind =] theorem data_erase {l : Ledger V} {timerID other : Nat} :
    (l.erase timerID businessID).data other = if other = timerID then none else l.data other := by
  unfold erase
  dsimp only
  split <;> simp

@[simp, grind =] theorem claims_erase {l : Ledger V} {timerID other : Nat} :
    (l.erase timerID businessID).claims other = if other = timerID then none else l.claims other := by
  unfold erase
  dsimp only
  split <;> simp

def completeScript (l : Ledger V) (fields : V → Option Fields) (timerID : Nat) (owner businessID : String) :
    Ledger V × Option Bool :=
  match l.data timerID with
  | none => (l, some false)
  | some val =>
      match l.ownedBy fields timerID val owner with
      | none => (l, none)
      | some false => (l, some false)
      | some true => (l.erase timerID businessID, some true)

/-- The deadline the requeue script compares: no answer if decoding fails, none if it gives up. -/
def leaseDeadline (l : Ledger V) (fields : V → Option Fields) (timerID : Nat) (val : V) : Option (Option Int) :=
  match l.claims timerID with
  | some processing => some (some processing.deadline)
  | none => (fields val).map fun rec =>
      if rec.timerStatus = some "processing" then some (rec.processingDeadline.getD 0) else none

def requeueScript (l : Ledger V) (fields : V → Option Fields) (timerID : Nat) (now dueTimeMs : Int) :
    Ledger V × Option Bool :=
  match l.data timerID with
  | none => ((l.zrem .processing timerID).setClaim timerID none, some false)
  | some val =>
      match l.leaseDeadline fields timerID val with
      | none => (l, none)
      | some none => (l, some false)
      | some (some deadline) =>
          if now < deadline then (l, some false)
          else (((l.setClaim timerID none).zrem .processing timerID).zadd .pending dueTimeMs timerID, some true)

def exec (fields : V → Option Fields) (l : Ledger V) : (c : Command V) → Ledger V × Reply c
  | .hgetIndex businessID => (l, l.index.lookup businessID)
  | .hgetallIndex => (l, l.index)
  | .hsetIndex businessID timerID => ({ l with index := l.index.hset businessID timerID }, ())
  | .hdelIndex businessID => ({ l with index := l.index.hdel businessID }, ())
  | .hgetData timerID => (l, l.data timerID)
  | .hmgetData timerIDs => (l, timerIDs.map l.data)
  | .hsetData timerID data => (l.setData timerID (some data), ())
  | .hdelData timerID => (l.setData timerID none, (l.data timerID).isSome)
  | .hdelClaim timerID => (l.setClaim timerID none, ())
  | .zadd key score timerID => (l.zadd key score timerID, ())
  | .zrem key timerID => (l.zrem key timerID, ())
  | .zrange key => (l, (l.zset key).zrange)
  | .zrangeByScore key lower upper => (l, (l.zset key).zrangeByScore (double lower) (double upper))
  | .zcard key => (l, (l.zset key).zcard)
  | .claim timerID owner deadline => l.claimScript timerID owner deadline
  | .complete timerID owner businessID => l.completeScript fields timerID owner businessID
  | .requeue timerID now dueTimeMs => l.requeueScript fields timerID now dueTimeMs
  | .handler _ => (l, ())

end Ledger

/-- A call on the keys of one user. -/
abbrev Call (V α : Type) := Program (Command V) Reply α

def milli (time : Int) : Int := time / 1000000

namespace Queue

def redis {V : Type} (c : Command V) : Call V (Reply c) := Program.command c

section Calls

variable {T V : Type} (codec : Codec T V)

def replaceOld (timerID : Nat) (businessID : String) : Call V Unit :=
  if businessID = "" then pure ()
  else do
    match ← redis (.hgetIndex businessID) with
    | none => pure ()
    | some oldTimerID =>
        if oldTimerID = timerID then pure ()
        else do
          redis (.zrem .pending oldTimerID)
          redis (.zrem .processing oldTimerID)
          redis (.hdelData oldTimerID) >>= fun _ => redis (.hdelClaim oldTimerID)

def writeRecord (timerID : Nat) (businessID : String) (dueTimeMs : Int) (data : V) : Call V Unit := do
  redis (.zadd .pending dueTimeMs timerID)
  redis (.zrem .processing timerID)
  redis (.hsetData timerID data)
  if businessID = "" then pure () else redis (.hsetIndex businessID timerID)

/-- Whether the record could be marshalled; the rest succeeds. -/
def add (rec : T) : Call V Bool :=
  match codec.marshal (codec.markPending rec) with
  | none => pure false
  | some data => do
      replaceOld (codec.timerID rec) (codec.businessID rec)
      writeRecord (codec.timerID rec) (codec.businessID rec) (codec.dueTimeMs (codec.markPending rec)) data
      pure true

/-- The business that the index gives for a timer, or the empty one. -/
def businessIDOf (index : Hash String Nat) (timerID : Nat) : String :=
  ((index.entries.find? fun entry => entry.2 = timerID).map Sigma.fst).getD ""

/-- `HGETALL`, if the codec needs it. -/
def businessIDsByTimerID : Call V (Hash String Nat) :=
  if codec.keyed.isSome then redis .hgetallIndex else pure ∅

def decode (index : Hash String Nat) (timerID : Nat) (val : V) : Option T :=
  match codec.keyed with
  | some read => read val timerID (businessIDOf index timerID)
  | none => codec.unmarshal val

/-- No answer if the record cannot be read, and none if there is no record. -/
def loadRecordByTimerID (timerID : Nat) : Call V (Option (Option T)) := do
  match ← redis (.hgetData timerID) with
  | none => pure (some none)
  | some val => do
      let index ← businessIDsByTimerID codec
      pure ((decode codec index timerID val).map some)

def unindex (businessID : String) : Call V Unit :=
  if businessID = "" then pure () else redis (.hdelIndex businessID)

def removeByTimerID (timerID : Nat) : Call V Bool := do
  let found ← loadRecordByTimerID codec timerID
  let deleted ← redis (.hdelData timerID)
  redis (.zrem .pending timerID)
  redis (.zrem .processing timerID)
  unindex ((found.join.map codec.businessID).getD "")
  pure deleted

/-- Nothing if the call panics. -/
def claimForProcessing (timerID : Nat) (owner : String) (now lease : Int) : Call V (Option Bool) :=
  if owner = "" ∨ lease ≤ 0 then pure none
  else do
    let claimed ← redis (.claim timerID owner (milli (now + lease)))
    pure (some claimed)

/-- Nothing if the call panics or fails. -/
def completeProcessing (timerID : Nat) (owner : String) : Call V (Option Bool) :=
  if owner = "" then pure none
  else do
    match ← loadRecordByTimerID codec timerID with
    | none => pure none
    | some found => redis (.complete timerID owner ((found.map codec.businessID).getD ""))

/-- Nothing if the call fails. -/
def requeueProcessingTimer (now : Int) (timerID : Nat) : Call V (Option Bool) := do
  match ← loadRecordByTimerID codec timerID with
  | none => pure none
  | some found => redis (.requeue timerID (milli now) ((found.map codec.dueTimeMs).getD 0))

/-- The timers of one user in turn, up to the first failure. The count goes on from `total`. -/
def requeueTimers (now : Int) : Nat → List Nat → Call V (Nat × Bool)
  | total, [] => pure (total, true)
  | total, timerID :: rest => do
      match ← requeueProcessingTimer codec now timerID with
      | none => pure (total, false)
      | some requeued => requeueTimers now (total + requeued.toNat) rest

def requeueUser (now : Int) (total : Nat) : Call V (Nat × Bool) := do
  let timerIDs ← redis (.zrangeByScore .processing 0 (milli now))
  requeueTimers codec now total timerIDs

/-- The loop over the values; a timer without a row leaves both sets. -/
def collect (index : Hash String Nat) : List (Nat × Option V) → Call V (Option (List T))
  | [] => pure (some [])
  | (timerID, none) :: rest => do
      redis (.zrem .pending timerID)
      redis (.zrem .processing timerID)
      collect index rest
  | (timerID, some val) :: rest =>
      match decode codec index timerID val with
      | none => pure none
      | some rec => do
          let out ← collect index rest
          pure (out.map (rec :: ·))

/-- Nothing if a record cannot be read. -/
def loadByTimerIDs (timerIDs : List Nat) : Call V (Option (List T)) :=
  if timerIDs = [] then pure (some [])
  else do
    let vals ← redis (.hmgetData timerIDs)
    let index ← businessIDsByTimerID codec
    collect codec index (timerIDs.zip vals)

def loadActive : Call V (Option (List T)) := do
  let pending ← redis (.zrange .pending)
  let processing ← redis (.zrange .processing)
  loadByTimerIDs codec (pending ++ processing)

def loadWindow (now window : Int) : Call V (Option (List T)) := do
  let timerIDs ← redis (.zrangeByScore .pending 0 (milli (now + window)))
  loadByTimerIDs codec timerIDs

def countActive : Call V Nat := do
  let pending ← redis (.zcard .pending)
  let processing ← redis (.zcard .processing)
  pure (pending + processing)

end Calls

section Users

variable {T V : Type} (codec : Codec T V)

abbrev StoreCall (V α : Type) := Program (Nat × Command V) (fun c => Reply c.2) α

def requeueExpiredProcessing (now : Int) : Nat → List Nat → StoreCall V (Nat × Bool)
  | total, [] => pure (total, true)
  | total, uid :: uids => do
      match ← (requeueUser codec now total).tag uid with
      | (total, false) => pure (total, false)
      | (total, true) => requeueExpiredProcessing now total uids

inductive Op (T : Type) where
  | add (uid : Nat) (rec : T)
  | claimForProcessing (uid timerID : Nat) (owner : String) (now lease : Int)
  | completeProcessing (uid timerID : Nat) (owner : String)
  | requeueExpiredProcessing (uids : List Nat) (now : Int)
  | removeByTimerID (uid timerID : Nat)
  | loadActiveByUID (uid : Nat)
  | loadWindowByUID (uid : Nat) (now window : Int)
  | loadByTimerIDs (uid : Nat) (timerIDs : List Nat)

def onUser {α : Type} (uid : Nat) (call : Call V α) : StoreCall V Unit := do
  let _ ← call.tag uid
  pure ()

def Op.code : Op T → StoreCall V Unit
  | .add uid rec => onUser uid (Queue.add codec rec)
  | .claimForProcessing uid timerID owner now lease => onUser uid (Queue.claimForProcessing timerID owner now lease)
  | .completeProcessing uid timerID owner => onUser uid (Queue.completeProcessing codec timerID owner)
  | .requeueExpiredProcessing uids now => do
      let _ ← Queue.requeueExpiredProcessing codec now 0 uids
      pure ()
  | .removeByTimerID uid timerID => onUser uid (Queue.removeByTimerID codec timerID)
  | .loadActiveByUID uid => onUser uid (Queue.loadActive codec)
  | .loadWindowByUID uid now window => onUser uid (Queue.loadWindow codec now window)
  | .loadByTimerIDs uid timerIDs => onUser uid (Queue.loadByTimerIDs codec timerIDs)

abbrev Store (V : Type) := Nat → Ledger V

def Store.exec : Store V → (c : Nat × Command V) → Store V × Reply c.2 := Program.execAt (Ledger.exec codec.fields)

/-- A timer is only added with its own business, and a due time that a score can hold. -/
def Op.Proper (business : Nat → Nat → String) : Op T → Prop
  | .add uid rec => codec.businessID rec = business uid (codec.timerID rec) ∧ codec.businessID rec ≠ "" ∧
      (codec.dueTimeMs (codec.markPending rec)).natAbs < 2 ^ 53
  | _ => True

def completeCalls (business : Nat → Nat → String) : Machine (Store V) (Op T) where
  Enabled _ op := op.Proper codec business
  next s op := ((op.code codec).run (Store.exec codec) s).1
  decideEnabled _ op := by
    cases op <;> unfold Op.Proper <;> infer_instance

end Users

/-- Records that are stored as they are. -/
structure Row where
  timer : Nat
  business : String
  due : Int
  claimed : Bool
  deriving DecidableEq

def rows : Codec Row Row where
  marshal := some
  unmarshal := some
  keyed := none
  timerID := Row.timer
  businessID := Row.business
  dueTimeMs := Row.due
  markPending rec := { rec with claimed := false }
  fields rec := some ⟨if rec.claimed then some "processing" else some "pending", none, none⟩
  timerID_pending _ := rfl
  businessID_pending _ := rfl
  unmarshal_marshal _ _ written := written.symm
  keyed_marshal _ _ _ reader := by cases reader
  fields_pending rec v read written decoded := by
    cases written
    cases decoded
    simp

end Queue

end Skygo.Timer
