import Skygo.Transport.InboundBounds
import Skygo.Transport.InboundRead

/-! One response for each call read.

A CANCEL frame and the `Range` of `close` look a call up in `conn.calls` and mark it afterwards, and other
goroutines may act in between: the mark may come when the call has long left the map. `Canceling` adds
these late marks to the inbound side of a node.
-/

set_option autoImplicit false

attribute [-instance] instBooleanRingBool

namespace Skygo.Transport

open Semantics

namespace Inbound

variable {s t : Inbound} {c j w : Nat} {before after : Option (Stage × Nat)} {told : List Notice}

/-- A request is handled until its response is written or it is dropped. -/
def underWay (stage : Stage) (_ : Nat) : Nat := if stage = .returning then 0 else 1

def filed (stage : Stage) (_ : Nat) : Nat := if stage.isOpen then 1 else 0

def handling (s : Inbound) (j : Nat) : Nat := s.census (only j underWay)

def answers (s : Inbound) (j : Nat) : Nat := s.notices.countP fun notice => notice.job = j

section Account

theorem Passage.told_job (passage : s.Passage before after told) :
    ∀ notice ∈ told, ∃ stage, before = some (stage, notice.job) := by
  intro notice member
  cases passage with
  | reject j other turned | stale j other turned | fail j other turned =>
    obtain rfl := List.mem_singleton.mp member
    exact ⟨_, by rw [turned.1]⟩
  | discard j | respond j =>
    obtain rfl := List.mem_singleton.mp member
    exact ⟨_, rfl⟩
  | _ => cases member

section

variable (passes : Passes s t before after told)
include passes

theorem answers_next (j : Nat) : t.answers j = s.answers j + told.countP fun notice => notice.job = j := by
  unfold answers
  rw [passes.notices, List.countP_append]

theorem Passes.old {job : InboundJob} (found : s.jobs[j]? = some job) :
    ∃ later, t.jobs[j]? = some later ∧ later.conn = job.conn ∧ later.envelope = job.envelope ∧
      (job.canceled = true → later.canceled = true) := by
  have recorded := passes.jobs
  generalize t.jobs = later at recorded ⊢
  cases recorded <;> grind

theorem account_next {job later : InboundJob} (found : s.jobs[j]? = some job)
    (there : t.jobs[j]? = some later) (call : job.envelope.kind = .call) :
    t.handling j + t.answers j = s.handling j + s.answers j ∨
      t.handling j + t.answers j + 1 = s.handling j + s.answers j ∧ later.canceled = true := by
  have moved := passes.census (only j underWay)
  have answered := answers_next passes j
  obtain ⟨old, same, _, _, keeps⟩ := passes.old found
  obtain rfl : later = old := Option.some.inj (there.symm.trans same)
  have quiet (other : ∀ stage, before ≠ some (stage, j)) : told.countP (fun notice => notice.job = j) = 0 := by
    refine List.countP_eq_zero.mpr fun notice member is => ?_
    obtain ⟨stage, at_⟩ := passes.passage.told_job notice member
    exact other stage (by rw [at_, of_decide_eq_true is])
  unfold handling
  rcases before with _ | ⟨stage, i⟩
  · have silent := quiet (by simp)
    have light : weigh (only j underWay) after = 0 := by
      rcases after with _ | ⟨stage, i⟩
      · rfl
      · obtain ⟨rfl, _⟩ := passes.passage.of_fresh
        exact weigh_only_ne (Nat.ne_of_gt (lookup_lt found))
    rw [light] at moved
    have nowhere : weigh (only j underWay) none = 0 := rfl
    omega
  · by_cases here : i = j
    · subst here
      rw [weigh_only_self] at moved
      have passage := passes.passage
      have jobs := passes.jobs
      cases passage with
      | deliverSend _ send => rw [send.here found] at call; cases call
      | cutOff =>
        right
        refine ⟨?_, ?_⟩
        · simp [weigh, only, underWay] at moved answered ⊢
          omega
        · generalize is : t.jobs = table at jobs there
          cases jobs with
          | same none => cases none
          | moved _ other => exact absurd rfl (other i rfl)
          | cutOff =>
            rw [lookup_modify_self found] at there
            cases there
            rfl
      | silent _ canceled =>
        right
        refine ⟨?_, keeps (canceled.here found)⟩
        simp [weigh, only, underWay] at moved answered ⊢
        omega
      | reject _ notice turned | stale _ notice turned | fail _ notice turned =>
        left
        simp [weigh, underWay, turned.1] at moved answered ⊢
        omega
      | _ =>
        left
        simp [weigh, only, underWay, Notice.job] at moved answered ⊢
        omega
    · have none := quiet fun stage is => here (by cases is; rfl)
      have enters : weigh (only j underWay) after = 0 := by
        rcases after with _ | ⟨later, k⟩
        · rfl
        · obtain rfl : i = k := passes.passage.same
          exact weigh_only_ne here
      rw [weigh_only_ne here, enters] at moved
      left
      omega

theorem Passes.fresh {later : InboundJob} (there : t.jobs[j]? = some later) :
    (∃ job, s.jobs[j]? = some job) ∨ (j = s.jobs.length ∧ before = none ∧ told = [] ∧
      ∃ stage, after = some (stage, j) ∧ underWay stage j = 1 ∧ later.canceled = false) := by
  have passage := passes.passage
  have recorded := passes.jobs
  generalize t.jobs = table at recorded there
  cases recorded with
  | read job unmarked kind =>
    rcases lookup_append there with old | ⟨rfl, rfl⟩
    · exact .inl ⟨later, old⟩
    · refine .inr ⟨rfl, rfl, ?_, _, rfl, ?_, unmarked⟩
      · cases passage <;> rfl
      · rcases kind with ⟨_, rfl⟩ | ⟨_, rfl⟩ <;> rfl
  | _ => grind

end

end Account

def Spoken (s : Inbound) (notice : Notice) : Prop :=
  At s.jobs notice.job fun job => job.envelope.kind = .call →
    (∃ err, notice = .response notice.job job.envelope.requestID err) ∨ notice = .discard notice.job ∧ job.canceled = true

theorem Passes.spoken (passes : Passes s t before after told) (known : s.Known) {notice : Notice} (member : notice ∈ told) :
    t.Spoken notice := by
  obtain ⟨stage, at_⟩ := passes.passage.told_job notice member
  obtain ⟨job, found⟩ : ∃ job, s.jobs[notice.job]? = some job := by
    subst at_
    exact ⟨_, List.getElem?_eq_getElem (known.lt passes)⟩
  obtain ⟨later, there, _, envelope, keeps⟩ := passes.old found
  refine at_iff.mpr ⟨later, there, fun call => ?_⟩
  rw [envelope] at call ⊢
  have turned {other : Notice} (turned : s.Turned notice.job other) (is : notice = other) :
      ∃ err, notice = .response notice.job job.envelope.requestID err := by
    obtain ⟨err, same⟩ := turned.2.here found (by rw [call]; simp)
    exact ⟨some err, is.trans same⟩
  cases passes.passage with
  | reject _ _ away | stale _ _ away | fail _ _ away =>
    cases at_
    exact .inl (turned away (List.mem_singleton.mp member))
  | discard _ canceled =>
    cases at_
    exact .inr ⟨List.mem_singleton.mp member, keeps (canceled.here found)⟩
  | respond _ id err same =>
    cases at_
    have same : job.envelope.requestID = id := same.here found
    rw [same]
    exact .inl ⟨err, List.mem_singleton.mp member⟩
  | _ => cases member

structure Answered (s : Inbound) : Prop where
  balanced : s.Balanced
  sound : s.core.Sound
  staffed : s.Staffed
  once : ∀ (j : Nat) (job : InboundJob), s.jobs[j]? = some job → job.envelope.kind = .call →
    s.handling j + s.answers j ≤ 1 ∧ (job.canceled = false → s.handling j + s.answers j = 1)
  spoken : ∀ notice ∈ s.notices, s.Spoken notice

namespace Answered

theorem unread (answered : s.Answered) (fresh : s.jobs.length ≤ j) : s.handling j = 0 ∧ s.answers j = 0 := by
  constructor
  · have none := answered.balanced.known (only j underWay) (fun _ _ => 0) fun stage i read =>
      if_neg (Nat.ne_of_lt (Nat.lt_of_lt_of_le read fresh))
    rw [handling, none, census_zero]
  · refine List.countP_eq_zero.mpr fun notice member is => ?_
    obtain ⟨job, found, _⟩ := at_iff.mp (answered.spoken notice member)
    have read := lookup_lt found
    have is : notice.job = j := of_decide_eq_true is
    omega

theorem next (answered : s.Answered) (passes : Passes s t before after told) (later : t.Told) (sound : t.core.Sound)
    (staffed : t.Staffed) : t.Answered := by
  refine ⟨answered.balanced.next passes later, sound, staffed, fun j job there call => ?_, fun notice member => ?_⟩
  · rcases passes.fresh there with ⟨old, found⟩ | ⟨rfl, rfl, rfl, stage, rfl, weighs, _⟩
    · obtain ⟨_, same, _, envelope, keeps⟩ := passes.old found
      cases there.symm.trans same
      obtain ⟨atMost, exactly⟩ := answered.once j old found (envelope ▸ call)
      rcases account_next passes found there (envelope ▸ call) with equal | ⟨less, canceled⟩
      · refine ⟨by omega, fun unmarked => ?_⟩
        have before : old.canceled = false := by
          by_contra marked
          rw [keeps (by simpa using marked)] at unmarked
          cases unmarked
        have := exactly before
        omega
      · refine ⟨by omega, fun unmarked => ?_⟩
        rw [canceled] at unmarked
        cases unmarked
    · -- a call just read is with its reader
      obtain ⟨nobody, silent⟩ := answered.unread (Nat.le_refl s.jobs.length)
      have moved := passes.census (only s.jobs.length underWay)
      have quiet := answers_next passes s.jobs.length
      rw [weigh_only_self] at moved
      simp only [weigh, weighs, List.countP_nil] at moved quiet
      unfold handling at nobody ⊢
      exact ⟨by omega, fun _ => by omega⟩
  · rw [passes.notices] at member
    rcases List.mem_append.mp member with old | new
    · obtain ⟨job, found, known⟩ := at_iff.mp (answered.spoken notice old)
      obtain ⟨later, there, _, envelope, keeps⟩ := passes.old found
      refine at_iff.mpr ⟨later, there, fun call => ?_⟩
      rw [envelope] at call ⊢
      exact (known call).imp_right (And.imp_right keeps)
    · exact passes.spoken answered.balanced.known new

end Answered

section Entries

def IsCall (s : Inbound) (j c id : Nat) : Prop :=
  At s.jobs j fun job => job.conn = c ∧ job.envelope.kind = .call ∧ job.envelope.requestID = id

def Distinct (s : Inbound) : Prop := ∀ i j c id, s.IsCall i c id → s.IsCall j c id → i = j

def Filed (s : Inbound) : Prop := ∀ c id j, s.entry c id = some j ↔ s.IsCall j c id ∧ 0 < s.census (only j filed)

theorem isCall_next (passes : Passes s t before after told) (read : j < s.jobs.length) (c id : Nat) :
    t.IsCall j c id ↔ s.IsCall j c id := by
  have found := List.getElem?_eq_getElem read
  obtain ⟨later, there, conn, envelope, _⟩ := passes.old found
  rw [IsCall, IsCall, At, At, there, found]
  simp only [conn, envelope]

theorem Passes.read_of {place : Stage × Nat} (passes : Passes s t (some place) after told) {p : InboundJob → Prop}
    (known : At t.jobs j p) : j < s.jobs.length := by
  obtain ⟨job, there, _⟩ := at_iff.mp known
  rcases passes.fresh there with ⟨old, was⟩ | ⟨_, nowhere, _⟩
  · exact lookup_lt was
  · cases nowhere

theorem weigh_filed (place : Option (Stage × Nat)) : weigh (only j filed) place = (openFor j place).toNat := by
  rcases place with _ | ⟨stage, i⟩
  · rfl
  · by_cases here : i = j <;> cases stage <;> simp [weigh, only, openFor, here, filed, Stage.isOpen]

theorem filed_le (s : Inbound) (j : Nat) : s.census (only j filed) ≤ s.handling j := by
  refine census_mono fun stage i => ?_
  unfold only
  split
  · cases stage <;> simp [filed, underWay, Stage.isOpen]
  · exact Nat.le_refl _

theorem Answered.own (answered : s.Answered) {job : InboundJob} (found : s.jobs[j]? = some job)
    (storing : At s.conns c fun conn => conn.reader = .storing j) : job.conn = c ∧ job.envelope.kind = .call := by
  obtain ⟨conn, there, at_⟩ := at_iff.mp storing
  have line : s.core.lines[c]? = some conn.line := by simp [core, there]
  have owns := answered.sound.own c conn.line j line (by simp [InboundConn.line, at_, Reader.hand])
  have kind := (answered.balanced.told.storing c conn there j at_).here found
  refine ⟨(at_ticket.mp owns).here found, ?_⟩
  exact (answered.balanced.kinds job (List.mem_of_getElem? found)).resolve_right kind

theorem filed_next (answered : s.Answered) (distinct : s.Distinct) (filed : s.Filed)
    (passes : Passes s t before after told) : t.Filed := by
  -- the entries of other requests and of other connections are left alone
  have others {stage : Stage} {j d id : Nat} {job : InboundJob} (at_ : before = some (stage, j))
      (found : s.jobs[j]? = some job) (apart : ¬ (d = job.conn ∧ id = job.envelope.requestID)) (i : Nat) :
      s.entry d id = some i ↔ t.IsCall i d id ∧ 0 < t.census (only i Inbound.filed) := by
    rw [filed]
    by_cases here : i = j
    · subst here
      rw [isCall_next passes (lookup_lt found)]
      have no : ¬ s.IsCall i d id := fun is => apart ⟨(is.here found).1.symm, (is.here found).2.2.symm⟩
      simp only [no, false_and]
    · have moved := passes.census (only i Inbound.filed)
      have enters : weigh (only i Inbound.filed) after = 0 := by
        rcases after with _ | ⟨later, k⟩
        · rfl
        · subst at_
          obtain rfl : j = k := passes.passage.same
          exact weigh_only_ne (Ne.symm here)
      rw [at_, weigh_only_ne (Ne.symm here), enters] at moved
      have same : t.census (only i Inbound.filed) = s.census (only i Inbound.filed) := moved
      rw [same]
      refine ⟨fun known => ⟨?_, known.2⟩, fun known => ⟨?_, known.2⟩⟩
      · obtain ⟨entry, read, _⟩ := at_iff.mp known.1
        exact (isCall_next passes (lookup_lt read) d id).mpr known.1
      · by_cases read : i < s.jobs.length
        · exact (isCall_next passes read d id).mp known.1
        · have none := answered.unread (Nat.le_of_not_lt read)
          have less := filed_le s i
          omega
  intro d id i
  cases passes.entries with
  | same kept still =>
    rw [kept, filed]
    have census (call : t.IsCall i d id) : t.census (only i Inbound.filed) = s.census (only i Inbound.filed) := by
      have moved := passes.census (only i Inbound.filed)
      rw [weigh_filed, weigh_filed, still i (call.mono fun job is => is.2.1)] at moved
      omega
    constructor
    · rintro ⟨call, inside⟩
      obtain ⟨entry, read, _⟩ := at_iff.mp call
      have later := (isCall_next passes (lookup_lt read) d id).mpr call
      exact ⟨later, census later ▸ inside⟩
    · rintro ⟨call, inside⟩
      rw [census call] at inside
      refine ⟨?_, inside⟩
      by_cases read : i < s.jobs.length
      · exact (isCall_next passes read d id).mp call
      · have none := answered.unread (Nat.le_of_not_lt read)
        have less := filed_le s i
        omega
  | store c j job found storing stored =>
    obtain ⟨rfl, call⟩ := answered.own found storing
    rw [stored]
    by_cases here : d = job.conn ∧ id = job.envelope.requestID
    · rw [if_pos here]
      obtain ⟨rfl, rfl⟩ := here
      have is : s.IsCall j job.conn job.envelope.requestID := at_iff.mpr ⟨job, found, rfl, call, rfl⟩
      have moved := passes.census (only j Inbound.filed)
      rw [weigh_only_self, weigh_only_self] at moved
      simp only [weigh, Inbound.filed, Stage.isOpen] at moved
      constructor
      · rintro ⟨rfl⟩
        exact ⟨(isCall_next passes (lookup_lt found) ..).mpr is, by simp at moved; omega⟩
      · -- no other call of the connection has this ID
        rintro ⟨other, _⟩
        exact congrArg some (distinct j i _ _ is ((isCall_next passes (passes.read_of other) ..).mp other))
    · rw [if_neg here]
      exact others rfl found here i
  | forget j job found other isOpen closed forgot =>
    have call := (answered.balanced.kinds job (List.mem_of_getElem? found)).resolve_right other
    rw [forgot]
    by_cases here : d = job.conn ∧ id = job.envelope.requestID
    · rw [if_pos here]
      obtain ⟨rfl, rfl⟩ := here
      have is : s.IsCall j job.conn job.envelope.requestID := at_iff.mpr ⟨job, found, rfl, call, rfl⟩
      constructor
      · rintro ⟨⟩
      · rintro ⟨later, inside⟩
        exfalso
        obtain rfl : j = i := distinct j i _ _ is ((isCall_next passes (passes.read_of later) ..).mp later)
        have moved := passes.census (only j Inbound.filed)
        rw [weigh_filed, weigh_filed, closed] at moved
        have leaves {stage : Stage} (isOpen : stage.isOpen = true) : openFor j (some (stage, j)) = true := by
          simp [openFor, isOpen]
        rw [leaves isOpen] at moved
        have atMost := (answered.once j job found call).1
        have less := filed_le s j
        simp only [Bool.toNat_true, Bool.toNat_false] at moved
        omega
    · rw [if_neg here]
      exact others rfl found here i

/-- A call that is read has a request ID that no other call of its connection has. -/
def Fresh (s : Inbound) : Action → Prop
  | .read c e => e.kind = .call → ∀ j < s.jobs.length, ¬ s.IsCall j c e.requestID
  | _ => True

instance (s : Inbound) (j c id : Nat) : Decidable (s.IsCall j c id) := by
  unfold IsCall
  infer_instance

instance (s : Inbound) (a : Action) : Decidable (s.Fresh a) := by
  rcases a with _ | _ <;> unfold Fresh <;> infer_instance

theorem read_of_new {a : Action} {job : InboundJob} (new : (s.next a).jobs[s.jobs.length]? = some job) :
    a = .read job.conn job.envelope := by
  revert new
  cases a with
  | read c e | submit c j | push c j | reject c j | check w j | acquire w j | deliver w j | fail w j err =>
    dsimp only [next, withJob, Inbound.read, beginAdmission, submit, push, acquire, deliver, fail, turnAway]
    repeat' split
    all_goals grind [List.getElem?_concat_length]
  | _ => grind

theorem distinct_next {a : Action} (distinct : s.Distinct) (passes : Passes s (s.next a) before after told) (fresh : s.Fresh a) :
    (s.next a).Distinct := by
  have split {i c id : Nat} (is : (s.next a).IsCall i c id) :
      (i < s.jobs.length ∧ s.IsCall i c id) ∨ (i = s.jobs.length ∧ ∀ j < s.jobs.length, ¬ s.IsCall j c id) := by
    obtain ⟨job, there, rfl, call, rfl⟩ := at_iff.mp is
    rcases passes.fresh there with ⟨old, was⟩ | ⟨rfl, _⟩
    · exact .inl ⟨lookup_lt was, (isCall_next passes (lookup_lt was) ..).mp is⟩
    · cases read_of_new there
      exact .inr ⟨rfl, fresh call⟩
  intro i j c id first second
  rcases split first with ⟨read, was⟩ | ⟨rfl, none⟩
  · rcases split second with ⟨_, other⟩ | ⟨_, none⟩
    · exact distinct i j c id was other
    · exact absurd was (none i read)
  · rcases split second with ⟨read, other⟩ | ⟨rfl, _⟩
    · exact absurd other (none j read)
    · rfl

end Entries

section Responses

def responses (s : Inbound) (j : Nat) : Nat :=
  s.notices.countP fun
    | .response i _ _ => i = j
    | _ => false

def frames (s : Inbound) (c id : Nat) : Nat :=
  s.notices.countP fun
    | .response i other _ => other = id ∧ At s.jobs i fun job => job.conn = c
    | _ => false

theorem responses_le (s : Inbound) (j : Nat) : s.responses j ≤ s.answers j := by
  refine List.countP_mono_left fun notice _ is => ?_
  cases notice with
  | response i id err => exact is
  | _ => cases is

theorem Answered.responses_eq (answered : s.Answered) {job : InboundJob} (found : s.jobs[j]? = some job)
    (call : job.envelope.kind = .call) (unmarked : job.canceled = false) : s.responses j = s.answers j := by
  refine List.countP_congr fun notice member => ?_
  have known := answered.spoken notice member
  cases notice with
  | response i id err => exact Iff.rfl
  | report i error =>
    refine ⟨fun is => (by cases is), fun is => ?_⟩
    obtain rfl : i = j := of_decide_eq_true is
    rcases known.here found call with ⟨err, other⟩ | ⟨other, _⟩ <;> cases other
  | discard i =>
    refine ⟨fun is => (by cases is), fun is => ?_⟩
    obtain rfl : i = j := of_decide_eq_true is
    rcases known.here found call with ⟨err, other⟩ | ⟨_, marked⟩
    · cases other
    · rw [unmarked] at marked
      cases marked

theorem Answered.frames_le (answered : s.Answered) (distinct : s.Distinct) {id : Nat} (is : s.IsCall j c id) :
    s.frames c id ≤ s.answers j := by
  refine List.countP_mono_left fun notice member counts => ?_
  cases notice with
  | response i other err =>
    obtain ⟨rfl, on⟩ := of_decide_eq_true counts
    obtain ⟨job, found, rfl⟩ := at_iff.mp on
    have kind : job.envelope.kind ≠ .send := by
      rcases answered.balanced.told.notices _ member with ⟨_, report⟩ | answers
      · cases report
      · exact answers.here found
    have call := (answered.balanced.kinds job (List.mem_of_getElem? found)).resolve_right kind
    have own : job.envelope.requestID = other := by
      rcases (answered.spoken _ member).here found call with ⟨_, same⟩ | ⟨discard, _⟩
      · cases same
        rfl
      · cases discard
    exact decide_eq_true (distinct i j _ _ (at_iff.mpr ⟨job, found, rfl, call, own⟩) is)
  | _ => cases counts

end Responses

section Progress

theorem answered_next {a : Action} (answered : s.Answered) (enabled : s.Enabled a) : (s.next a).Answered := by
  obtain ⟨_, _, _, passes, _⟩ := acts_next answered.balanced.kinds answered.balanced.told enabled
  exact answered.next passes (told_next answered.balanced.told enabled) (sound_later answered.sound (reachable_next enabled))
    (staffed_next answered.staffed enabled)

theorem answered_later (answered : s.Answered) (reach : machine.Reachable s t) : t.Answered :=
  reach.invariant answered fun _ _ answered enabled => answered_next answered enabled

theorem census_pos {W : Stage → Nat → Nat} (positive : 0 < s.census W) :
    (∃ c, At s.conns c fun conn => 0 < weigh W conn.reader.stage) ∨
      (∃ w, At s.shards w fun shard => 0 < shard.weigh W) ∨ ∃ r, At s.replies r fun reply => 0 < weigh W reply.stage := by
  have somewhere {α : Type} {table : List α} {g : α → Nat} (some_ : 0 < (table.map g).sum) :
      ∃ i, At table i fun entry => 0 < g entry := by
    by_contra none
    push Not at none
    refine absurd (List.sum_eq_zero fun n member => ?_) (Nat.ne_of_gt some_)
    obtain ⟨entry, inside, rfl⟩ := List.mem_map.mp member
    obtain ⟨i, found⟩ := List.mem_iff_getElem?.mp inside
    exact Nat.eq_zero_of_not_pos fun positive => none i (at_iff.mpr ⟨entry, found, positive⟩)
  have split : 0 < (s.conns.map fun conn => weigh W conn.reader.stage).sum ∨ 0 < (s.shards.map (Shard.weigh W)).sum ∨
      0 < (s.replies.map fun reply => weigh W reply.stage).sum := by
    unfold census at positive
    omega
  exact split.imp somewhere (Or.imp somewhere somewhere)

theorem weigh_only_pos {place : Option (Stage × Nat)} (positive : 0 < weigh (only j underWay) place) :
    ∃ stage, place = some (stage, j) ∧ stage ≠ .returning := by
  rcases place with _ | ⟨stage, i⟩
  · cases positive
  · by_cases here : i = j
    · subst here
      refine ⟨stage, rfl, fun returning => ?_⟩
      subst returning
      simp [weigh, only, underWay] at positive
    · rw [weigh_only_ne here] at positive
      cases positive

/-- A call that its reader has finished, or its shard's worker, is with its reader or with the goroutine of its response. -/
theorem handled_at (done : s.core.held j = 0) (positive : 0 < s.handling j) :
    (∃ c, At s.conns c fun conn => conn.reader = .rejected j) ∨
      ∃ r, At s.replies r fun reply => reply.job = j ∧ (reply.place = .waiting ∨ ∃ err, reply.place = .responding err) := by
  rcases census_pos positive with ⟨c, known⟩ | ⟨w, known⟩ | ⟨r, known⟩
  · obtain ⟨conn, found, weighs⟩ := at_iff.mp known
    obtain ⟨stage, is, _⟩ := weigh_only_pos weighs
    refine .inl ⟨c, at_iff.mpr ⟨conn, found, ?_⟩⟩
    have holds : conn.reader.job? ≠ some j := fun holds =>
      absurd (held_of_pending (.inl ⟨c, at_iff.mpr ⟨conn, found, holds⟩⟩)) (by omega)
    cases reader : conn.reader <;> simp_all [Reader.stage, Reader.job?]
  · obtain ⟨shard, found, weighs⟩ := at_iff.mp known
    refine absurd (held_of_pending (s := s) (j := j) (.inr ⟨w, at_iff.mpr ⟨shard, found, ?_⟩⟩)) (by omega)
    by_cases queued : j ∈ shard.queue
    · exact .inl queued
    · right
      have none : (shard.queue.map (only j underWay .queued)).sum = 0 := by
        refine List.sum_eq_zero fun n member => ?_
        obtain ⟨i, inside, rfl⟩ := List.mem_map.mp member
        exact if_neg fun (same : i = j) => queued (same ▸ inside)
      rw [Shard.weigh, none, Nat.zero_add] at weighs
      obtain ⟨stage, is, _⟩ := weigh_only_pos weighs
      cases worker : shard.worker <;> simp_all [Worker.stage, Worker.job?]
  · obtain ⟨reply, found, weighs⟩ := at_iff.mp known
    obtain ⟨stage, is, other⟩ := weigh_only_pos weighs
    refine .inr ⟨r, at_iff.mpr ⟨reply, found, ?_⟩⟩
    cases place : reply.place <;> simp_all [Reply.stage]

theorem respond_ends {r : Nat} {reply : Reply} {job : InboundJob} {err : Option Actor.Fault} (answered : s.Answered)
    (found : s.replies[r]? = some reply) (at_ : reply.place = .responding err) (known : s.jobs[reply.job]? = some job)
    (call : job.envelope.kind = .call) : ∃ t, machine.Reachable s t ∧ t.handling reply.job = 0 := by
  have enabled : s.Enabled (.respond r reply.job err) := at_iff.mpr ⟨reply, found, rfl, at_⟩
  refine ⟨s.next (.respond r reply.job err), reachable_next enabled, ?_⟩
  have moved : (s.next (.respond r reply.job err)).census (only reply.job underWay) + 1 =
      s.census (only reply.job underWay) := by
    simp only [next, withJob_of known]
    split <;> grind [only, underWay]
  have atMost := (answered.once reply.job job known call).1
  unfold handling at atMost ⊢
  omega

theorem can_end {job : InboundJob} (answered : s.Answered) (running : s.stopped = false) (found : s.jobs[j]? = some job)
    (call : job.envelope.kind = .call) : ∃ t, machine.Reachable s t ∧ t.handling j = 0 := by
  -- its admission is finished first
  obtain ⟨u, steps, done⟩ : ∃ u, machine.Reachable s u ∧ u.core.held j = 0 := by
    rcases Nat.eq_zero_or_pos (s.core.held j) with none | held
    · exact ⟨s, .refl s, none⟩
    · obtain ⟨u, steps, ended⟩ := can_finish answered.sound answered.staffed running (pending_of_held held)
      refine ⟨u, steps, ?_⟩
      have conserved := (sound_later answered.sound steps).conserved j
      have counted : 0 < u.core.ended.count j := List.count_pos_iff.mpr ended
      split at conserved <;> omega
  have later := answered_later answered steps
  obtain ⟨job, known, call⟩ : ∃ job, u.jobs[j]? = some job ∧ job.envelope.kind = .call := by
    refine at_iff.mp (steps.invariant_with (I := fun u => At u.jobs j fun job => job.envelope.kind = .call)
      (at_iff.mpr ⟨job, found, call⟩) fun v a reached known enabled => ?_)
    have answered := answered_later answered reached
    obtain ⟨_, _, _, passes, _⟩ := acts_next answered.balanced.kinds answered.balanced.told enabled
    obtain ⟨job, there, _⟩ := at_iff.mp known
    exact (passes.at_envelope (p := fun e => e.kind = .call) (lookup_lt there)).mpr known
  rcases Nat.eq_zero_or_pos (u.handling j) with none | positive
  · exact ⟨u, steps, none⟩
  · rcases handled_at done positive with ⟨c, rejected⟩ | ⟨r, known'⟩
    · -- the reader writes the response
      refine ⟨u.next (.reject c j), steps.trans (reachable_next rejected), ?_⟩
      obtain ⟨notice, turned, away⟩ := turnedAway (s := u.setReader c .reading) (j := j) known (.bare .transportBackpressure)
      have next := answered_next later (a := .reject c j) rejected
      have is : u.next (.reject c j) = (u.setReader c .reading).turnAway j (.bare .transportBackpressure) := withJob_of known
      obtain ⟨last, there⟩ : ∃ last, (u.next (.reject c j)).jobs[j]? = some last ∧ last.envelope.kind = .call :=
        ⟨job, by rw [is, away.jobs]; exact known, call⟩
      have atMost := (next.once j last there.1 there.2).1
      have told : 0 < (u.next (.reject c j)).answers j := by
        rw [answers, is, away.notices]
        refine List.countP_pos_iff.mpr ⟨notice, by simp, decide_eq_true turned.1⟩
      omega
    · obtain ⟨reply, there, rfl, waiting | ⟨err, responding⟩⟩ := at_iff.mp known'
      · -- its result arrives, and the goroutine responds
        have enabled : u.Enabled (.complete r reply.job none) := at_iff.mpr ⟨reply, there, rfl, waiting⟩
        have is : u.next (.complete r reply.job none) = (u.forgetCall job).setReply r (.responding none) := withJob_of known
        have moved : (u.next (.complete r reply.job none)).replies[r]? = some { reply with place := .responding none } := by
          rw [is]
          exact lookup_modify_self there
        have kept : (u.next (.complete r reply.job none)).jobs[reply.job]? = some job := by
          rw [is]
          exact known
        obtain ⟨t, rest, ended⟩ := respond_ends (answered_next later enabled) moved rfl kept call
        exact ⟨t, (steps.trans (reachable_next enabled)).trans rest, ended⟩
      · obtain ⟨t, rest, ended⟩ := respond_ends later there responding known call
        exact ⟨t, steps.trans rest, ended⟩

end Progress

end Inbound

/-- The inbound side of a node, and the calls that a CANCEL or a `close` has found in the map and has not marked yet. -/
structure Canceling where
  inbound : Inbound
  found : List Nat := []

namespace Canceling

open Inbound (only filed)

variable {s t : Canceling} {c j : Nat} {nodeID incarnation : String} {inboundShards inboundQueue maxInboundCalls : Nat}

inductive Action where
  | inbound (a : Inbound.Action)
  | find (c requestID : Nat)
  | mark (k : Nat)
  deriving DecidableEq

def Enabled (s : Canceling) : Action → Prop
  | .inbound a => s.inbound.Enabled a
  | .find c requestID => (s.inbound.entry c requestID).isSome = true
  | .mark k => k < s.found.length

def next (s : Canceling) : Action → Canceling
  | .inbound a => { s with inbound := s.inbound.next a }
  | .find c requestID => { s with found := s.found ++ (s.inbound.entry c requestID).toList }
  | .mark k =>
    match s.found[k]? with
    | some j => { s with inbound := s.inbound.cancel j }
    | none => s

def machine : Machine Canceling Action where
  Enabled := Enabled
  next := next
  decideEnabled s a := by
    cases a with
    | inbound a => exact Inbound.machine.decideEnabled s.inbound a
    | find c requestID => unfold Enabled; infer_instance
    | mark k => unfold Enabled; infer_instance

def initial (nodeID incarnation : String) (inboundShards inboundQueue maxInboundCalls : Nat) : Canceling where
  inbound := .initial nodeID incarnation inboundShards inboundQueue maxInboundCalls

def Fresh (s : Canceling) : Action → Prop
  | .inbound a => s.inbound.Fresh a
  | _ => True

structure Sound (s : Canceling) : Prop where
  answered : s.inbound.Answered
  distinct : s.inbound.Distinct
  filed : s.inbound.Filed
  found : ∀ j ∈ s.found, s.inbound.Answers j

theorem sound_next {a : Action} (sound : s.Sound) (fresh : s.Fresh a) (enabled : s.Enabled a) : (s.next a).Sound := by
  have told := sound.answered.balanced.told
  have answers {t : Inbound} {before after : Option (Stage × Nat)} {notices : List Notice}
      (passes : Inbound.Passes s.inbound t before after notices) : ∀ j ∈ s.found, t.Answers j := by
    intro j member
    obtain ⟨job, read, _⟩ := at_iff.mp (sound.found j member)
    exact (passes.at_envelope (p := fun e => e.kind ≠ .send) (lookup_lt read)).mpr (sound.found j member)
  cases a with
  | inbound a =>
    obtain ⟨_, _, _, passes, _⟩ := Inbound.acts_next sound.answered.balanced.kinds told enabled
    exact ⟨Inbound.answered_next sound.answered enabled, Inbound.distinct_next sound.distinct passes fresh,
      Inbound.filed_next sound.answered sound.distinct sound.filed passes, answers passes⟩
  | find c requestID =>
    refine ⟨sound.answered, sound.distinct, sound.filed, fun j member => ?_⟩
    rcases List.mem_append.mp member with old | new
    · exact sound.found j old
    · exact ((sound.filed c requestID j).mp (Option.mem_toList.mp new)).1.mono fun job is => by simp [is.2.1]
  | mark k =>
    obtain ⟨j, found⟩ : ∃ j, s.found[k]? = some j := ⟨_, List.getElem?_eq_getElem enabled⟩
    have passes := Inbound.Passes.cancel s.inbound j
    have is : s.next (.mark k) = { s with inbound := s.inbound.cancel j } := by simp [next, found]
    rw [is]
    refine ⟨?_, fun i l d id first second => ?_, Inbound.filed_next sound.answered sound.distinct sound.filed passes,
      answers passes⟩
    · refine sound.answered.next passes (told.cancel (sound.found j (List.mem_of_getElem? found))) ?_ sound.answered.staffed
      rw [Inbound.core_cancel]
      exact sound.answered.sound
    · have read {i d id : Nat} (call : (s.inbound.cancel j).IsCall i d id) : s.inbound.IsCall i d id := by
        obtain ⟨job, there, _⟩ := at_iff.mp call
        have bound := lookup_lt there
        rw [Inbound.cancel, List.length_modify] at bound
        exact (Inbound.isCall_next passes bound d id).mp call
      exact sound.distinct i l d id (read first) (read second)

theorem sound_initial : (initial nodeID incarnation inboundShards inboundQueue maxInboundCalls).Sound := by
  refine ⟨⟨Inbound.balanced_initial, Inbound.sound_core (.refl _), Inbound.staffed_initial, fun j job found => ?_,
    fun notice member => ?_⟩, fun i j c id is => ?_, fun c id j => ?_, fun j member => ?_⟩
  · cases found
  · cases member
  · cases is
  · constructor
    · rintro ⟨⟩
    · rintro ⟨is, _⟩
      cases is
  · cases member

theorem reachable_inbound {t : Inbound} (reach : Inbound.machine.Reachable s.inbound t) :
    machine.Reachable s { s with inbound := t } :=
  reach.invariant (I := fun t => machine.Reachable s { s with inbound := t }) (.refl s)
    fun t a known enabled => known.next (show machine.Enabled { s with inbound := t } (.inbound a) from enabled)

/-- In every run in which the calls of a connection have distinct request IDs: at most one RESPONSE frame is written for
a call read, on its connection. When its handling is over, one was written or tried to, unless the call was marked as
canceled, and nothing of it is left in `conn.calls`, where it is between `Store` and `Delete`. While the node runs, the
handling can come to its end. -/
theorem one_response {actions : List Action}
    (ran : machine.run (initial nodeID incarnation inboundShards inboundQueue maxInboundCalls) actions = some s)
    (fresh : machine.Meets Fresh (initial nodeID incarnation inboundShards inboundQueue maxInboundCalls) actions)
    {job : InboundJob} (found : s.inbound.jobs[j]? = some job) (call : job.envelope.kind = .call) :
    (s.inbound.responses j ≤ 1 ∧ s.inbound.frames job.conn job.envelope.requestID ≤ 1) ∧
    (0 < s.inbound.handling j → s.inbound.responses j = 0) ∧
    (s.inbound.handling j = 0 → job.canceled = false → s.inbound.responses j = 1) ∧
    (s.inbound.handling j = 0 → ∀ c id, s.inbound.entry c id ≠ some j) ∧
    (∀ c id, s.inbound.entry c id = some j ↔
      c = job.conn ∧ id = job.envelope.requestID ∧ 0 < s.inbound.census (only j filed)) ∧
    (s.inbound.stopped = false → ∃ t, machine.Reachable s t ∧ t.inbound.handling j = 0) := by
  have sound : s.Sound := Machine.run_keeps_where (I := Sound) (fun _ _ sound fresh enabled => sound_next sound fresh enabled)
    ran fresh sound_initial
  have is : s.inbound.IsCall j job.conn job.envelope.requestID := at_iff.mpr ⟨job, found, rfl, call, rfl⟩
  have entries (c id : Nat) : s.inbound.entry c id = some j ↔
      c = job.conn ∧ id = job.envelope.requestID ∧ 0 < s.inbound.census (only j filed) := by
    rw [sound.filed c id j]
    constructor
    · rintro ⟨call, inside⟩
      obtain ⟨conn, _, id⟩ := call.here found
      exact ⟨conn.symm, id.symm, inside⟩
    · rintro ⟨rfl, rfl, inside⟩
      exact ⟨is, inside⟩
  obtain ⟨atMost, exactly⟩ := sound.answered.once j job found call
  have responses := s.inbound.responses_le j
  have frames := sound.answered.frames_le sound.distinct is
  refine ⟨⟨by omega, by omega⟩, fun busy => by omega, fun past unmarked => ?_, fun past c id entry => ?_, entries,
    fun running => ?_⟩
  · have answered := exactly unmarked
    rw [sound.answered.responses_eq found call unmarked]
    omega
  · have inside := ((entries c id).mp entry).2.2
    have less := s.inbound.filed_le j
    omega
  · obtain ⟨t, reach, ended⟩ := Inbound.can_end sound.answered running found call
    exact ⟨_, reachable_inbound reach, ended⟩

instance (s : Canceling) (a : Action) : Decidable (s.Fresh a) := by
  cases a <;> unfold Fresh <;> infer_instance

def answeredAndDropped : List Action :=
  [.inbound (.accept "a"), .inbound (.read 0 (Inbound.callTo 1 0)), .inbound (.store 0 0), .inbound (.submit 0 0),
    .inbound (.push 0 0), .inbound (.read 0 (Inbound.callTo 2 0)), .inbound (.store 0 1), .inbound (.submit 0 1),
    .inbound (.push 0 1), .find 0 2, .mark 0, .inbound (.take 0 0), .inbound (.release 0 0), .inbound (.check 0 0),
    .inbound (.acquire 0 0), .inbound (.deliver 0 0), .inbound (.finish 0 0), .find 0 1, .inbound (.complete 0 0 none),
    .inbound (.respond 0 0 none), .inbound (.take 0 1), .inbound (.release 0 1), .inbound (.check 0 1)]

theorem one_response_answeredAndDropped :
    ∃ s, machine.run (initial "b" "1" 2 2 1) answeredAndDropped = some s ∧ s.found = [1, 0] ∧
      s.inbound.notices = [.response 0 1 none, .discard 1] ∧ s.inbound.responses 0 = 1 ∧
      (∀ c id, s.inbound.entry c id ≠ some 0) ∧ s.inbound.responses 1 ≤ 1 := by
  have ran : machine.run (initial "b" "1" 2 2 1) answeredAndDropped =
      some (machine.after (initial "b" "1" 2 2 1) answeredAndDropped) := Machine.run_after (by decide +kernel)
  have fresh : machine.Meets Fresh (initial "b" "1" 2 2 1) answeredAndDropped := by decide +kernel
  have first : (machine.after (initial "b" "1" 2 2 1) answeredAndDropped).inbound.jobs[0]? =
      some ⟨0, 1, Inbound.callTo 1 0, false⟩ := by decide +kernel
  have second : (machine.after (initial "b" "1" 2 2 1) answeredAndDropped).inbound.jobs[1]? =
      some ⟨0, 2, Inbound.callTo 2 0, true⟩ := by decide +kernel
  obtain ⟨_, _, exactly, gone, _⟩ := one_response ran fresh first rfl
  obtain ⟨⟨atMost, _⟩, _⟩ := one_response ran fresh second rfl
  exact ⟨_, ran, by decide +kernel, by decide +kernel, exactly (by decide +kernel) rfl, gone (by decide +kernel), atMost⟩

end Canceling

end Skygo.Transport
