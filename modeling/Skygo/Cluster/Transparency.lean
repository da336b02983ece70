import Skygo.Cluster.TrySend

/-! How the two routes of `TrySend` compare.

Either route is turned down by a check of its own, misses the service or its handler, or comes to
the mailbox with the same envelope but for the flag that `Node.Send` drops. So they part in their
checks, or in the select.
-/

set_option autoImplicit false

namespace Skygo.Cluster

open Semantics Actor

/-! The select -/

section Select

variable {Msg : Type} {m : ServiceRuntime Msg} {now : Moment} {letter : Letter Msg} {o : Outcome}

theorem Letter.tracked_requests :
    ∃ r, (letter.tracked m).requests = m.requests ++ [r] ∧ r.admission = .acquire ∧ r.nonBlocking = letter.nonBlocking :=
  ⟨_, modify_last _ _ _, rfl, rfl⟩

theorem Letter.ready_slot : letter.Ready m now none ↔ m.slots < m.capacity := by
  obtain ⟨r, requests, admission, -⟩ := letter.tracked_requests (m := m)
  show (At (letter.tracked m).requests m.requests.length _ ∧ m.slots < m.capacity) ↔ _
  rw [requests, at_last]
  exact and_iff_right admission

theorem Letter.ready_fault {fault : Fault} : letter.Ready m now (some fault) ↔
    now.allows fault = true ∧
      if letter.nonBlocking then fault = .bare .mailboxFull ∧ m.capacity ≤ m.slots
      else fault = .bare .mailboxTimeout ∨ fault = .context .canceled ∨ fault = .context .deadlineExceeded ∨
        (fault = .bare .serviceStopping ∧ m.canceled = true) := by
  obtain ⟨r, requests, admission, flag⟩ := letter.tracked_requests (m := m)
  show (At (letter.tracked m).requests m.requests.length _ ∧ _) ↔ _
  rw [requests, at_last, ServiceRuntime.Refusal, flag, and_comm]
  exact and_congr_right fun _ => and_iff_right admission

/-- The outcomes of a select: those of the cases that are ready, or none yet. -/
theorem Letter.mem_select : o ∈ letter.select m now ↔
    (∃ case_ ∈ selectCases, letter.Ready m now case_ ∧ o = (case_.map Outcome.refused).getD (now.emit m)) ∨
      (o = .waits ∧ ∀ case_ ∈ selectCases, ¬letter.Ready m now case_) := by
  have filtered (case_ : Option Fault) :
      case_ ∈ (selectCases.filter fun case_ => letter.Ready m now case_) ↔
        case_ ∈ selectCases ∧ letter.Ready m now case_ := by
    rw [List.mem_filter, decide_eq_true_iff]
  unfold Letter.select
  split
  · next empty =>
    have idle (case_ : Option Fault) (member : case_ ∈ selectCases) : ¬letter.Ready m now case_ := by
      intro ready
      have found := (filtered case_).mpr ⟨member, ready⟩
      rw [empty] at found
      cases found
    rw [List.mem_singleton]
    constructor
    · intro waits
      exact .inr ⟨waits, idle⟩
    · rintro (⟨case_, member, ready, -⟩ | ⟨waits, -⟩)
      · exact absurd ready (idle case_ member)
      · exact waits
  · next filled =>
    rw [List.mem_map]
    constructor
    · rintro ⟨case_, member, rfl⟩
      obtain ⟨known, ready⟩ := (filtered case_).mp member
      exact .inl ⟨case_, known, ready, rfl⟩
    · rintro (⟨case_, known, ready, rfl⟩ | ⟨-, idle⟩)
      · exact ⟨case_, (filtered case_).mpr ⟨known, ready⟩, rfl⟩
      · obtain ⟨first, member⟩ := List.exists_mem_of_ne_nil _ filled
        obtain ⟨known, ready⟩ := (filtered first).mp member
        exact absurd ready (idle first known)

theorem Letter.mem_select_nonBlocking (flag : letter.nonBlocking = true) : o ∈ letter.select m now ↔
    o = if m.slots < m.capacity then now.emit m else .refused (.bare .mailboxFull) := by
  rw [Letter.mem_select]
  simp only [selectCases, List.mem_cons, List.not_mem_nil, or_false, exists_eq_or_imp, exists_eq_left, forall_eq_or_imp,
    forall_eq, Letter.ready_slot, Letter.ready_fault, flag, if_true, Moment.allows]
  by_cases free : m.slots < m.capacity
  · simp [free]
  · simp [free, Nat.not_lt.mp free]

theorem Letter.mem_select_blocking (flag : letter.nonBlocking = false) : o ∈ letter.select m now ↔
    (m.slots < m.capacity ∧ o = now.emit m) ∨ (now.timer = true ∧ o = .refused (.bare .mailboxTimeout)) ∨
      (∃ cause, now.cause = some cause ∧ o = .refused (.context cause)) ∨
      (m.canceled = true ∧ o = .refused (.bare .serviceStopping)) ∨
      (o = .waits ∧ m.capacity ≤ m.slots ∧ now.timer = false ∧ now.cause = none ∧ m.canceled = false) := by
  rw [Letter.mem_select]
  simp only [selectCases, List.mem_cons, List.not_mem_nil, or_false, exists_eq_or_imp, exists_eq_left, forall_eq_or_imp,
    forall_eq, Letter.ready_slot, Letter.ready_fault, flag, Moment.allows]
  rcases now.cause with _ | _ | _ <;> simp [or_assoc]

end Select

/-! The mailbox -/

section Offer

variable {Msg : Type} {host : Host Msg} {now : Moment} {letter posted : Letter Msg} {o : Outcome}

/-- Whether the sender would wait for a slot makes no difference: `trackAdmission` refuses the envelope, or a slot is
free and nothing else is ready, unless it comes to the same. -/
def Host.Quick (host : Host Msg) (now : Moment) (mailbox : Option Nat) (ctx : Context) : Prop :=
  host.Refuses ctx ∨ ∀ m ∈ host.runtime mailbox, m.slots < m.capacity ∧ now.timer = false ∧ now.cause = none ∧
    (m.canceled = true → m.done = true ∨ now.ends = true)

theorem Moment.emit_refused {m : ServiceRuntime Msg} {fault : Fault} (refused : now.emit m = .refused fault) :
    fault = .bare .serviceStopping := by
  unfold Moment.emit at refused
  split at refused
  · exact (Outcome.refused.inj refused).symm
  · cases refused

theorem Letter.select_agree {m : ServiceRuntime Msg} (flag : letter.nonBlocking = true)
    (waiting : posted.nonBlocking = false) :
    (∀ o, o ∈ posted.select m now ↔ o ∈ letter.select m now) ↔ m.slots < m.capacity ∧ now.timer = false ∧
      now.cause = none ∧ (m.canceled = true → m.done = true ∨ now.ends = true) := by
  simp only [Letter.mem_select_nonBlocking flag, Letter.mem_select_blocking waiting]
  constructor
  · intro agree
    -- only `tryAdmit` says that the mailbox is full
    have free : m.slots < m.capacity := by
      by_contra full
      have back := (agree (.refused (.bare .mailboxFull))).mpr (by rw [if_neg full])
      simp [full] at back
    simp only [free, if_true] at agree
    refine ⟨free, ?_, ?_, fun canceled => ?_⟩
    · by_contra fired
      have same := (agree _).mp (.inr (.inl ⟨Bool.not_eq_false _ ▸ fired, rfl⟩))
      cases Moment.emit_refused same.symm
    · by_contra done
      obtain ⟨cause, is⟩ := Option.ne_none_iff_exists'.mp done
      have same := (agree _).mp (.inr (.inr (.inl ⟨cause, is, rfl⟩)))
      cases Moment.emit_refused same.symm
    · have same := (agree _).mp (.inr (.inr (.inr (.inl ⟨canceled, rfl⟩))))
      unfold Moment.emit at same
      split at same
      · next ends => simpa using ends
      · cases same
  · rintro ⟨free, quiet, going, stopped⟩ o
    simp only [free, if_true]
    constructor
    · rintro (⟨-, is⟩ | ⟨fired, -⟩ | ⟨cause, done, -⟩ | ⟨canceled, rfl⟩ | ⟨-, full, -⟩)
      · exact is
      · rw [quiet] at fired
        cases fired
      · rw [going] at done
        cases done
      · -- the service stops, and the loop has ended or is about to
        unfold Moment.emit
        rw [if_pos (by simpa using stopped canceled)]
      · exact absurd free (Nat.not_lt.mpr full)
    · intro is
      exact .inl ⟨trivial, is⟩

theorem Host.offer_agree (flag : letter.nonBlocking = true) (waiting : posted.nonBlocking = false)
    (ctx : posted.ctx = letter.ctx) (mailbox : posted.mailbox = letter.mailbox) :
    (∀ o, o ∈ host.offer now posted ↔ o ∈ host.offer now letter) ↔ host.Quick now letter.mailbox letter.ctx := by
  unfold Host.offer Host.Quick
  rw [ctx, mailbox]
  by_cases refuses : host.Refuses letter.ctx
  · simp [refuses]
  · cases runtime : host.runtime letter.mailbox with
    | none => simp [refuses]
    | some m =>
      simp only [refuses, if_false, false_or, Option.mem_some_iff, forall_eq']
      exact Letter.select_agree flag waiting

theorem Host.offer_bare {sentinel : Sentinel} {detail : String} :
    .refused (.wrapped sentinel detail) ∉ host.offer now letter := by
  unfold Host.offer
  split
  · simp
  · split
    · next m _ =>
      cases flag : letter.nonBlocking with
      | true =>
        rw [Letter.mem_select_nonBlocking flag]
        split
        · intro same
          cases Moment.emit_refused same.symm
        · exact nofun
      | false =>
        rw [Letter.mem_select_blocking flag]
        rintro (⟨-, same⟩ | ⟨-, same⟩ | ⟨_, -, same⟩ | ⟨-, same⟩ | ⟨same, -⟩)
        · cases Moment.emit_refused same.symm
        all_goals cases same
    · simp

end Offer

/-! The routes -/

section Routes

variable {Args Payload Msg : Type} {p : Process Args Payload Msg} {n : Notification Args Payload Msg}
  {ctx : Option Context} {ref here there : Ref} {args : Args} {now : Moment} {nonBlocking : Bool}

/-- How a route to the mailbox can end: turned down by a check of its own, without the service or its handler, or at
the mailbox. -/
inductive Ends (reached : Except Fault (Nat × Service × HandlerEntry)) (ctx : Option Context) (protocol : String)
    (nonBlocking : Bool) : Except Fault (Letter Msg) → Prop where
  | turned (sentinel : Sentinel) (detail : String) : Ends reached ctx protocol nonBlocking (.error (.wrapped sentinel detail))
  | missed (fault : Fault) : reached = .error fault → Ends reached ctx protocol nonBlocking (.error fault)
  | posted (j : Nat) (svc : Service) (entry : HandlerEntry) (c : Context) (request : Msg) :
      reached = .ok (j, svc, entry) → ctx = some c →
      Ends reached ctx protocol nonBlocking (.ok ⟨svc.mailbox, c, protocol, request, nonBlocking⟩)

theorem Host.service_invalid {host : Host Msg} (invalid : ref.valid = false) : host.service ref = .error (.bare .staleRef) := by
  unfold Host.service Host.lookup
  rw [if_pos invalid]
  rfl

variable {protocol : String}

theorem Process.reach_invalid (invalid : ref.valid = false) :
    p.reach ref protocol = .error (.bare .staleRef) := by
  unfold Process.reach
  rw [Host.service_invalid invalid]
  rfl

theorem Process.reach_congr (address : here.address = there.address)
    (generation : here.generation = there.generation) : p.reach here protocol = p.reach there protocol := by
  unfold Process.reach Host.service Host.lookup Ref.valid
  rw [address, generation]

theorem Process.ends_post :
    Ends (p.reach ref protocol) ctx protocol nonBlocking (p.post ctx ref protocol args nonBlocking) := by
  unfold Process.post
  cases ctx with
  | none => exact .turned _ _
  | some c =>
    dsimp only
    split_ifs with invalid
    · exact .missed _ (Process.reach_invalid invalid)
    · cases reached : p.reach ref protocol with
      | error fault => exact .missed fault rfl
      | ok found =>
        obtain ⟨j, svc, entry⟩ := found
        dsimp only [bind, Except.bind]
        split
        · exact .turned _ _
        · exact .posted j svc entry c _ rfl rfl

theorem Process.ends_validateDescriptor {name : String} {token : Option MethodToken} {rest : Except Fault (Letter Msg)}
    (ends : Ends (p.reach ref name) ctx name nonBlocking rest) :
    Ends (p.reach ref name) ctx name nonBlocking (do p.validateDescriptor ref name token; rest) := by
  unfold Process.validateDescriptor
  cases token with
  | none => exact .turned _ _
  | some token =>
    dsimp only
    by_cases unnamed : name = ""
    · rw [if_pos unnamed]
      exact .turned _ _
    · rw [if_neg unnamed]
      by_cases invalid : ref.valid = false
      · rw [if_pos invalid]
        exact .missed _ (Process.reach_invalid invalid)
      · rw [if_neg invalid]
        cases reached : p.reach ref name with
        | error fault => exact .missed fault rfl
        | ok found =>
          rw [reached] at ends
          obtain ⟨j, svc, entry⟩ := found
          by_cases other : (p.binding j entry).descriptor.map MethodToken.pointer ≠ some token.pointer
          · show Ends _ _ _ _ (do (if _ then _ else _); rest)
            rw [if_pos other]
            exact .turned _ _
          · show Ends _ _ _ _ (do (if _ then _ else _); rest)
            rw [if_neg other]
            exact ends

theorem Notification.ends_local (own : here.remote = none) :
    Ends (p.reach here n.name) ctx n.name true (n.trySend p ctx here args) := by
  unfold Notification.trySend
  rw [if_neg (by rw [Ref.isRemote, own]; exact nofun)]
  exact Process.ends_validateDescriptor Process.ends_post

variable {c : Context}

theorem withCallPath_callPath : withCallPath (some c) (callPath (some c)) = c := rfl

variable {target : RemoteTarget}

theorem Process.ends_dispatchRemoteAsync {origin : Nat × Nat}
    {protocol fingerprint : String} {payload : Payload} (node : target.node = p.host.node)
    (address : here.address = target.address) (generation : here.generation = target.generation) :
    Ends (p.reach here protocol) (some c) protocol false
      (p.dispatchRemoteAsync c target origin protocol fingerprint payload) := by
  unfold Process.dispatchRemoteAsync
  rw [if_neg fun foreign => foreign.2.2 node]
  have same : p.reach here protocol = p.reach ⟨target.address, target.generation, p.host.system.self, none, origin⟩ protocol :=
    Process.reach_congr address generation
  show Ends _ _ _ _ (p.reach ⟨target.address, target.generation, p.host.system.self, none, origin⟩ protocol >>= _)
  rw [same]
  cases reached : p.reach ⟨target.address, target.generation, p.host.system.self, none, origin⟩ protocol with
  | error fault => exact .missed fault rfl
  | ok found =>
    obtain ⟨j, svc, entry⟩ := found
    show Ends _ _ _ _ (if entry.fingerprint ≠ some fingerprint then _ else _)
    by_cases other : entry.fingerprint ≠ some fingerprint
    · rw [if_pos other]
      exact .turned _ _
    · rw [if_neg other]
      split
      · exact .turned _ _
      · exact reached ▸ Process.ends_post

theorem Notification.ends_remote (remote : there.remote = some target)
    (node : target.node = p.host.node) (incarnation : target.incarnation = p.host.incarnation)
    (address : here.address = target.address) (generation : here.generation = target.generation) :
    Ends (p.reach here n.name) ctx n.name false (n.trySend p ctx there args) := by
  unfold Notification.trySend
  rw [if_pos (by rw [Ref.isRemote, remote]; rfl)]
  split
  · next codec _ _ =>
    unfold Process.sendRemote
    cases ctx with
    | none => exact .turned _ _
    | some c =>
      simp only [remote]
      split
      · exact .turned _ _
      · unfold Process.sendSelf
        rw [if_neg fun stale => stale incarnation, withCallPath_callPath]
        exact Process.ends_dispatchRemoteAsync node address generation
  · exact .turned _ _

/-! The checks by name: each gives the error with which it turns the notification down -/

def fault? {α : Type} : Except Fault α → Option Fault
  | .error fault => some fault
  | .ok _ => none

def nilContext (ctx : Option Context) : Option Fault := if ctx.isNone then some (.wrapped .invalidArgs "nil context") else none

def uncoded {α : Type} : Except String α → Option Fault
  | .error detail => some (.wrapped .codec detail)
  | .ok _ => none

namespace Notification

variable (n : Notification Args Payload Msg) (p : Process Args Payload Msg) (ref : Ref) (args : Args)

def emptyDescriptor : Option Fault :=
  if n.token.isNone ∨ n.name = "" then some (.wrapped .protocolTypeMismatch "empty descriptor") else none

def otherDescriptor : Option Fault := do
  let token ← n.token
  let (j, svc, entry) ← (p.reach ref n.name).toOption
  if (p.binding j entry).descriptor.map MethodToken.pointer ≠ some token.pointer then
    some (.wrapped .protocolTypeMismatch ("service=" ++ svc.name ++ " protocol=" ++ n.name ++ " request=" ++
      token.request ++ " response=" ++ token.response))
  else none

def unpacked : Option Fault := do
  let (j, _, entry) ← (p.reach ref n.name).toOption
  uncoded ((p.binding j entry).packRequest args)

def noWireCodec : Option Fault :=
  if n.token.isNone ∨ n.wire.isNone then some (.wrapped .codec ("remote protocol=" ++ n.name ++ " has no wire codec"))
  else none

def unmarshaled : Option Fault := do
  let codec ← n.wire
  uncoded (codec.marshalRequest args)

def otherFingerprint : Option Fault := do
  let codec ← n.wire
  let (_, svc, entry) ← (p.reach ref n.name).toOption
  if entry.fingerprint ≠ some codec.fingerprint then
    some (.wrapped .protocolTypeMismatch ("service=" ++ svc.name ++ " protocol=" ++ n.name))
  else none

/-- The request as it comes out of the payload. -/
def garbled : Option Fault := do
  let codec ← n.wire
  let payload ← (codec.marshalRequest args).toOption
  let (j, _, entry) ← (p.reach ref n.name).toOption
  match (p.binding j entry).unmarshalRequest payload with
  | .error detail => some (.wrapped .codec detail)
  | .ok decoded => uncoded ((p.binding j entry).packRequest decoded)

def localCheck (ctx : Option Context) : Option Fault :=
  n.emptyDescriptor <|> fault? (p.reach ref n.name) <|> n.otherDescriptor p ref <|> nilContext ctx <|> n.unpacked p ref args

def nodeCheck (ctx : Option Context) : Option Fault :=
  n.noWireCodec <|> nilContext ctx <|> n.unmarshaled args <|> fault? (p.reach ref n.name) <|> n.otherFingerprint p ref <|>
    n.garbled p ref args

end Notification

/-- The same check fails on both routes or none does, and then it makes no difference in the mailbox whether the sender
would wait. -/
def Notification.Alike (n : Notification Args Payload Msg) (p : Process Args Payload Msg) (now : Moment)
    (ctx : Option Context) (ref : Ref) (args : Args) : Prop :=
  n.localCheck p ref args ctx = n.nodeCheck p ref args ctx ∧
    (n.localCheck p ref args ctx = none → ∀ c ∈ ctx, ∀ j svc entry, p.reach ref n.name = .ok (j, svc, entry) →
      p.host.Quick now svc.mailbox c)

theorem fault_post : fault? (p.post ctx ref n.name args nonBlocking) =
    (nilContext ctx <|> fault? (p.reach ref n.name) <|> n.unpacked p ref args) := by
  unfold Process.post Notification.unpacked
  cases ctx with
  | none => rfl
  | some c =>
    dsimp only
    by_cases invalid : ref.valid = false
    · rw [if_pos invalid, Process.reach_invalid invalid]
      rfl
    · rw [if_neg invalid]
      cases p.reach ref n.name with
      | error fault => rfl
      | ok found =>
        dsimp only [bind, Except.bind, Except.toOption, Option.bind]
        cases (p.binding found.1 found.2.2).packRequest args <;> rfl

theorem Notification.localCheck_eq (own : here.remote = none) :
    fault? (n.trySend p ctx here args) = n.localCheck p here args ctx := by
  have posts := @fault_post _ _ _ p n ctx here args true
  unfold Notification.trySend Process.validateDescriptor localCheck otherDescriptor
  rw [if_neg (by rw [Ref.isRemote, own]; exact nofun)]
  cases token : n.token with
  | none =>
    have empty : n.emptyDescriptor = some (.wrapped .protocolTypeMismatch "empty descriptor") := by
      simp [emptyDescriptor, token]
    rw [empty]
    rfl
  | some token_ =>
    dsimp only
    by_cases unnamed : n.name = ""
    · have empty : n.emptyDescriptor = some (.wrapped .protocolTypeMismatch "empty descriptor") := by
        simp [emptyDescriptor, unnamed]
      rw [empty, if_pos unnamed]
      rfl
    · have described : n.emptyDescriptor = none := by simp [emptyDescriptor, unnamed, token]
      rw [described, if_neg unnamed]
      by_cases invalid : here.valid = false
      · rw [if_pos invalid, Process.reach_invalid invalid]
        rfl
      · rw [if_neg invalid]
        cases reached : p.reach here n.name with
        | error fault => rfl
        | ok found =>
          rw [reached] at posts
          dsimp only [bind, Except.bind, Except.toOption, Option.bind]
          by_cases other : (p.binding found.1 found.2.2).descriptor.map MethodToken.pointer ≠ some token_.pointer
          · rw [if_pos other, if_pos other]
            rfl
          · rw [if_neg other, if_neg other]
            exact posts

theorem Notification.nodeCheck_eq (remote : there.remote = some target)
    (node : target.node = p.host.node) (incarnation : target.incarnation = p.host.incarnation)
    (address : here.address = target.address) (generation : here.generation = target.generation) :
    fault? (n.trySend p ctx there args) = n.nodeCheck p here args ctx := by
  unfold Notification.trySend Process.sendRemote nodeCheck noWireCodec unmarshaled otherFingerprint garbled
  rw [if_pos (by rw [Ref.isRemote, remote]; rfl)]
  cases n.token with
  | none => rfl
  | some token =>
    cases n.wire with
    | none => rfl
    | some codec =>
      cases ctx with
      | none => rfl
      | some c =>
        simp only [remote]
        cases marshals : codec.marshalRequest args with
        | error detail =>
          dsimp only [bind, Option.bind]
          rw [marshals]
          rfl
        | ok payload =>
          have same : p.reach here n.name =
              p.reach ⟨target.address, target.generation, p.host.system.self, none, there.origin⟩ n.name :=
            Process.reach_congr address generation
          have posts (decoded : Args) := @fault_post _ _ _ p n (some c)
            ⟨target.address, target.generation, p.host.system.self, none, there.origin⟩ decoded false
          dsimp only
          unfold Process.sendSelf Process.dispatchRemoteAsync
          rw [if_neg fun stale => stale incarnation, if_neg fun foreign => foreign.2.2 node, withCallPath_callPath, same]
          dsimp only [bind, Option.bind]
          rw [marshals]
          cases reached : p.reach ⟨target.address, target.generation, p.host.system.self, none, there.origin⟩ n.name with
          | error fault => rfl
          | ok found =>
            dsimp only [Except.bind, Except.toOption]
            by_cases other : found.2.2.fingerprint ≠ some codec.fingerprint
            · rw [if_pos other, if_pos other]
              rfl
            · rw [if_neg other, if_neg other]
              cases decodes : (p.binding found.1 found.2.2).unmarshalRequest payload with
              | error detail => rfl
              | ok decoded =>
                have sent := posts decoded
                rw [reached] at sent
                exact sent.trans (by unfold unpacked; rw [reached]; rfl)

/-- Outcomes are the same if the same check fails, or none does and the mailbox does not tell the routes apart. -/
theorem Ends.agree {reached : Except Fault (Nat × Service × HandlerEntry)}
    (first : Ends reached ctx protocol true (n.trySend p ctx here args))
    (second : Ends reached ctx protocol false (n.trySend p ctx there args)) :
    (∀ o, o ∈ n.outcomes p now ctx there args ↔ o ∈ n.outcomes p now ctx here args) ↔
      fault? (n.trySend p ctx here args) = fault? (n.trySend p ctx there args) ∧
        (fault? (n.trySend p ctx here args) = none → ∀ c ∈ ctx, ∀ j svc entry, reached = .ok (j, svc, entry) →
          p.host.Quick now svc.mailbox c) := by
  have refused {fault other : Fault} {quick : Prop} :
      (∀ o, o ∈ [Outcome.refused other] ↔ o ∈ [Outcome.refused fault]) ↔
        some fault = some other ∧ (some fault = none → quick) := by
    simp only [List.mem_singleton, reduceCtorEq, false_implies, and_true, Option.some.injEq]
    constructor
    · intro same
      exact Outcome.refused.inj ((same _).mpr rfl)
    · rintro rfl o
      exact Iff.rfl
  unfold Notification.outcomes
  generalize n.trySend p ctx here args = own at first
  generalize n.trySend p ctx there args = away at second
  -- a check wraps its error and the mailbox does not, so a route turned down is never taken for one that arrived
  cases first with
  | turned sentinel detail =>
    cases second with
    | turned | missed => exact refused
    | posted =>
      refine iff_of_false (fun same => Host.offer_bare ((same (.refused (.wrapped sentinel detail))).mpr ?_)) fun both => ?_
      · exact List.mem_singleton.mpr rfl
      · cases both.1
  | missed fault missing =>
    cases second with
    | turned | missed => exact refused
    | posted _ _ _ _ _ found => cases missing.symm.trans found
  | posted j svc entry c request found is =>
    cases second with
    | turned sentinel detail =>
      refine iff_of_false (fun same => Host.offer_bare ((same (.refused (.wrapped sentinel detail))).mp ?_)) fun both => ?_
      · exact List.mem_singleton.mpr rfl
      · cases both.1
    | missed fault missing => cases missing.symm.trans found
    | posted _ _ _ _ _ again same =>
      -- both found the same handler, so it is one envelope but for the flag
      cases found.symm.trans again
      cases is.symm.trans same
      subst found is
      refine Iff.trans (Host.offer_agree rfl rfl rfl rfl) ⟨fun quick => ⟨rfl, fun _ _ known _ _ _ same => ?_⟩, fun both => ?_⟩
      · cases known
        cases same
        exact quick
      · exact both.2 rfl c rfl j svc entry rfl

def Notification.Carried (n : Notification Args Payload Msg) (p : Process Args Payload Msg) (ref : Ref) (args : Args) :
    Prop :=
  n.name ≠ "" ∧ ∃ token codec, n.token = some token ∧ n.wire = some codec ∧
    (∃ payload decoded request packed, codec.marshalRequest args = .ok payload ∧
      codec.unmarshalRequest payload = .ok decoded ∧ codec.packRequest args = .ok request ∧
      codec.packRequest decoded = .ok packed) ∧
    ∀ j svc entry, p.reach ref n.name = .ok (j, svc, entry) → entry.fingerprint = some codec.fingerprint ∧
      p.binding j entry = ⟨some token, codec.packRequest, codec.unmarshalRequest⟩

theorem Notification.carried_checks (carried : n.Carried p ref args) :
    n.localCheck p ref args (some c) = fault? (p.reach ref n.name) ∧
      n.nodeCheck p ref args (some c) = fault? (p.reach ref n.name) := by
  obtain ⟨named, token, codec, has, wired, ⟨payload, decoded, request, packed, marshals, decodes, packs, repacks⟩, bound⟩ := carried
  have described : n.emptyDescriptor = none := by simp [emptyDescriptor, named, has]
  have wires : n.noWireCodec = none := by simp [noWireCodec, has, wired]
  have marshaled : n.unmarshaled args = none := by simp [unmarshaled, wired, marshals, uncoded]
  unfold localCheck nodeCheck
  rw [described, wires, marshaled]
  cases reached : p.reach ref n.name with
  | error fault => exact ⟨rfl, rfl⟩
  | ok found =>
    obtain ⟨j, svc, entry⟩ := found
    obtain ⟨fingerprint, binding⟩ := bound j svc entry reached
    have descriptor : n.otherDescriptor p ref = none := by simp [otherDescriptor, has, reached, binding, Except.toOption]
    have request : n.unpacked p ref args = none := by simp [unpacked, reached, binding, packs, uncoded, Except.toOption]
    have print : n.otherFingerprint p ref = none := by simp [otherFingerprint, wired, reached, fingerprint, Except.toOption]
    have carries : n.garbled p ref args = none := by
      simp [garbled, wired, reached, binding, marshals, decodes, repacks, uncoded, Except.toOption]
    rw [descriptor, request, print, carries]
    exact ⟨rfl, rfl⟩

theorem Notification.alike_iff (carried : n.Carried p ref args) : n.Alike p now (some c) ref args ↔
    ∀ j svc entry, p.reach ref n.name = .ok (j, svc, entry) → p.host.Quick now svc.mailbox c := by
  obtain ⟨own, away⟩ := n.carried_checks (c := c) carried
  unfold Notification.Alike
  rw [own, away]
  constructor
  · intro alike j svc entry reached
    exact alike.2 (by rw [reached]; rfl) c rfl j svc entry reached
  · intro quick
    refine ⟨rfl, fun _ _ known => ?_⟩
    cases known
    exact quick

theorem Host.resolveRemote_ok {host : Host Msg} {h : Nat} {name : String} (resolved : host.resolveRemote h name = .ok ref) :
    ref.remote = some ⟨host.node, host.incarnation, name, ref.address, ref.generation⟩ := by
  unfold Host.resolveRemote at resolved
  cases found : host.resolve h name with
  | error fault =>
    rw [found] at resolved
    cases resolved
  | ok own =>
    rw [found] at resolved
    change (if host.node = "" ∨ own.address = 0 ∨ own.generation = 0 then _ else _) = _ at resolved
    split_ifs at resolved
    · cases resolved
    · obtain rfl := Except.ok.inj resolved
      rfl

/-- `TrySend` through a reference that `ResolveRemote` made for the own node has the outcomes it has through the local
one exactly if the checks of both routes come to the same, and `trackAdmission` refuses the envelope, or a slot is free
and nothing else is ready. For a notification with its own handler and a request that its codec carries, the mailbox
alone decides. -/
theorem Notification.transparent_iff {before : Host Msg} {h : Nat} {name : String}
    (resolved : before.resolveRemote h name = .ok there) (node : before.node = p.host.node)
    (incarnation : before.incarnation = p.host.incarnation) (own : here.remote = none)
    (address : here.address = there.address) (generation : here.generation = there.generation) :
    ((∀ o, o ∈ n.outcomes p now ctx there args ↔ o ∈ n.outcomes p now ctx here args) ↔
      n.Alike p now ctx here args) ∧
    (n.Carried p here args → ∀ c, ctx = some c → (n.Alike p now ctx here args ↔
      ∀ j svc entry, p.reach here n.name = .ok (j, svc, entry) → p.host.Quick now svc.mailbox c)) := by
  have remote := Host.resolveRemote_ok resolved
  refine ⟨?_, ?_⟩
  · unfold Notification.Alike
    rw [← Notification.localCheck_eq own, ← Notification.nodeCheck_eq remote node incarnation address generation]
    exact Ends.agree (Notification.ends_local own) (Notification.ends_remote remote node incarnation address generation)
  · rintro carried c rfl
    exact Notification.alike_iff carried

end Routes

/-! A mailbox of one -/

section Full

def pingToken : MethodToken := ⟨0, "Ping", "<nil>"⟩

def ping : Notification Unit Unit Unit := ⟨"ping", some pingToken, some ⟨"f", .ok, .ok, .ok⟩⟩

def pinged (host : Host Unit) : Process Unit Unit Unit := ⟨host, fun _ _ => ⟨some pingToken, .ok, .ok⟩⟩

def oneSlot : List (WorldAction Unit) :=
  [.boot "n" 1 false, .reserve 0 "s" { mailboxSize := 1 }, .handle 0 0 ⟨"ping", some "f"⟩, .start 0 0, .resolve 0 "s",
    .resolveRemote 0 0 "s"]

def slotTaken : List (WorldAction Unit) :=
  oneSlot ++ [.begin 1 true .trySend "ping" (some "f") none .background false, .lookup 0, .check 0 0, .submit 0 0 0 0,
    .internal 0 (.mail 0 (.track 0 true)), .internal 0 (.mail 0 (.acquire 0))]

theorem Notification.transparent_iff_oneSlot :
    ∃ host here there, ((World.machine Unit).after {} oneSlot).hosts[0]? = some host ∧
      host.resolve 0 "s" = .ok here ∧ host.resolveRemote 0 "s" = .ok there ∧
      ping.outcomes (pinged host) {} (some .background) here () = [.admitted] ∧
      ping.outcomes (pinged host) {} (some .background) there () = [.admitted] ∧
      ping.Alike (pinged host) {} (some .background) here () := by
  have known : At ((World.machine Unit).after {} oneSlot).hosts 0 fun host =>
      At ((World.machine Unit).after {} oneSlot).refs 1 fun here =>
      At ((World.machine Unit).after {} oneSlot).refs 2 fun there =>
        host.resolve 0 "s" = .ok here ∧ host.resolveRemote 0 "s" = .ok there ∧
        (here.remote = none ∧ here.address = there.address ∧ here.generation = there.generation) ∧
        ping.outcomes (pinged host) {} (some .background) here () = [.admitted] ∧
        ping.outcomes (pinged host) {} (some .background) there () = [.admitted] := by
    decide +kernel
  obtain ⟨host, found, known⟩ := at_iff.mp known
  obtain ⟨here, -, known⟩ := at_iff.mp known
  obtain ⟨there, -, resolved, remote, ⟨own, address, generation⟩, first, second⟩ := at_iff.mp known
  refine ⟨host, here, there, found, resolved, remote, first, second, ?_⟩
  refine (Notification.transparent_iff remote rfl rfl own address generation).1.mp fun o => ?_
  rw [first, second]

/-- The mailbox is full: `TrySend` through the local reference is refused at once, and through the other it waits and
then runs into the admission timeout. -/
theorem trySend_waits :
    (World.machine Unit).Reachable {} ((World.machine Unit).after {} slotTaken) ∧
    At ((World.machine Unit).after {} slotTaken).hosts 0 fun host =>
      At ((World.machine Unit).after {} slotTaken).refs 1 fun here =>
      At ((World.machine Unit).after {} slotTaken).refs 2 fun there =>
        host.resolve 0 "s" = .ok here ∧ host.resolveRemote 0 "s" = .ok there ∧
        ping.outcomes (pinged host) {} (some .background) here () = [.refused (.bare .mailboxFull)] ∧
        ping.outcomes (pinged host) {} (some .background) there () = [.waits] ∧
        ping.outcomes (pinged host) { timer := true } (some .background) here () = [.refused (.bare .mailboxFull)] ∧
        ping.outcomes (pinged host) { timer := true } (some .background) there () = [.refused (.bare .mailboxTimeout)] := by
  refine ⟨⟨_, Machine.run_after ?_⟩, ?_⟩
  · decide +kernel
  · decide +kernel

end Full

end Skygo.Cluster
