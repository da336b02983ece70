import Skygo.Actor.RuntimeSound

/-! The actions that take or move a request in the loop's variables keep the
runtime invariant, and with that every reachable runtime satisfies it. -/

set_option autoImplicit false

attribute [-instance] instBooleanRingBool

namespace Skygo.Actor

open Semantics

variable {Msg : Type} {m m' : ServiceRuntime Msg} {id : Nat} {r : Request Msg}
  {f : Request Msg → Request Msg}

attribute [grind] LoopPc.place ServiceRuntime.place ServiceRuntime.shares Request.Fits

namespace LoopPc

@[simp] theorem discarding_select : LoopPc.select.discarding = [] := rfl

@[simp] theorem place_select (id : Nat) : LoopPc.select.place id = .outside := rfl

@[simp] theorem discarding_discard (stage : Stage) (act : Nat) (rest : List Nat) (inSchedule : Bool) :
    (LoopPc.discard stage act rest inSchedule).discarding = act :: rest := rfl

@[simp] theorem place_discard (stage : Stage) (act : Nat) (rest : List Nat) (inSchedule : Bool) (id : Nat) :
    (LoopPc.discard stage act rest inSchedule).place id =
      if id = act then .discarding stage else if id ∈ rest then .discarding .track else .outside := rfl

@[simp] theorem discarding_resume (rest : List Nat) (inSchedule : Bool) :
    (LoopPc.resume rest inSchedule).discarding = rest := by
  cases rest with
  | nil => cases inSchedule <;> rfl
  | cons act rest => rfl

@[simp] theorem place_resume (rest : List Nat) (inSchedule : Bool) (id : Nat) :
    (LoopPc.resume rest inSchedule).place id = if id ∈ rest then .discarding .track else .outside := by
  cases rest with
  | nil => cases inSchedule <;> rfl
  | cons act rest =>
    simp only [resume, place, List.mem_cons]
    split_ifs <;> simp_all

theorem resume_ne_exited (rest : List Nat) (inSchedule : Bool) :
    LoopPc.resume rest inSchedule ≠ .exited := by
  cases rest with
  | nil => cases inSchedule <;> decide
  | cons act rest => simp [resume]

theorem place_eq_outside (loop : LoopPc) (id : Nat) :
    loop.place id = .outside ↔ id ∉ loop.discarding := by
  cases loop <;> simp only [place, discarding, List.mem_cons] <;> (try split_ifs) <;> simp_all

end LoopPc

namespace ServiceRuntime

theorem shares_eq_zero (m : ServiceRuntime Msg) (id : Nat) :
    m.shares id = 0 ↔
      m.current ≠ some id ∧ id ∉ m.ready ∧ id ∉ m.suspended ∧ id ∉ m.loop.discarding := by
  simp only [shares, Nat.add_eq_zero_iff, List.count_eq_zero, and_assoc]
  simp

theorem place_eq_outside (m : ServiceRuntime Msg) (id : Nat) :
    m.place id = .outside ↔ m.shares id = 0 := by
  rw [shares_eq_zero, ← LoopPc.place_eq_outside]
  unfold place
  split_ifs <;> simp_all

theorem loop_of_place {stage : Stage} (here : m.place id = .discarding stage) :
    m.loop.place id = .discarding stage := by
  grind [place]

theorem current_of_place (here : m.place id = .current) : m.current = some id := by
  cases loop : m.loop <;> grind [place, LoopPc.place]

theorem mem_of_place_ready (here : m.place id = .ready) : id ∈ m.ready := by
  cases loop : m.loop <;> grind [place, LoopPc.place]

theorem mem_of_place_suspended (here : m.place id = .suspended) : id ∈ m.suspended := by
  cases loop : m.loop <;> grind [place, LoopPc.place]

structure Moves (m m' : ServiceRuntime Msg) (id : Nat) : Prop where
  current : ∀ j ≠ id, m'.current = some j ↔ m.current = some j
  ready : ∀ j ≠ id, m'.ready.count j = m.ready.count j
  suspended : ∀ j ≠ id, m'.suspended.count j = m.suspended.count j
  discarding : ∀ j ≠ id, m'.loop.discarding.count j = m.loop.discarding.count j
  stage : ∀ j ≠ id, m'.loop.place j = m.loop.place j

theorem Moves.shares_eq (moves : m.Moves m' id) {j : Nat} (other : j ≠ id) :
    m'.shares j = m.shares j := by
  simp only [shares, moves.current j other, moves.ready j other, moves.suspended j other,
    moves.discarding j other]

theorem Moves.place_eq (moves : m.Moves m' id) {j : Nat} (other : j ≠ id) :
    m'.place j = m.place j := by
  have ready : j ∈ m'.ready ↔ j ∈ m.ready := by
    rw [← List.count_pos_iff, moves.ready j other, List.count_pos_iff]
  have suspended : j ∈ m'.suspended ↔ j ∈ m.suspended := by
    rw [← List.count_pos_iff, moves.suspended j other, List.count_pos_iff]
  simp only [place, moves.current j other, ready, suspended, moves.stage j other]

/-- Move one request to another place and change its record to one that fits there. -/
theorem Sound.move (sound : m.Sound) (found : m.requests[id]? = some r) (moves : m.Moves m' id)
    (requests : m'.requests = m.requests.modify id f)
    (same : m'.opts = m.opts ∧ m'.drainable = m.drainable ∧ m'.done = m.done)
    (open_ : m.loop ≠ .exited ∧ m'.loop ≠ .exited)
    (exclusive : m'.shares id ≤ 1) (fits : (f r).Fits m.drainable (m'.place id))
    (tokens : m'.slots + r.slotHeld.toNat = m.slots + (f r).slotHeld.toNat)
    (bounded : m'.slots ≤ m.slots)
    (limited : (m'.suspended.length : Int) ≤ m.opts.maxSuspended)
    (atomic : m.opts.noInterleave = true → m'.suspended = [] ∧ (f r).yielded = false)
    (settled : m'.stopping = true → ∀ j ∈ m'.ready, m'.isStarted j = true) : m'.Sound := by
  have shared := fun j (other : j ≠ id) => moves.shares_eq other
  have placed := fun j (other : j ≠ id) => moves.place_eq other
  obtain ⟨once, known, fitted, counted, within, _, alike, _, closed, _⟩ := sound
  clear moves
  refine ⟨fun j => ?_, fun j => ?_, fun j entry => ?_, ?_, ?_, ?_, ?_, settled, ?_, ?_⟩
  · grind
  · grind
  · rw [requests, same.2.1]
    intro was
    by_cases here : j = id
    · grind
    · rw [placed j here]
      grind
  · have recounted := countP_modify (p := (·.slotHeld)) (f := f) found
    rw [requests]
    omega
  · grind
  · grind
  · grind
  · grind
  · grind

theorem Sound.goto (sound : m.Sound) {loop : LoopPc} (from_ : m.loop = .top ∨ m.loop = .select)
    (to_ : loop = .top ∨ loop = .select) : ServiceRuntime.Sound { m with loop := loop } := by
  obtain ⟨exclusive, known, fits, tokens, bounded, limited, atomic, settled, closed, idle⟩ := sound
  have shared : ∀ j, ({ m with loop := loop } : ServiceRuntime Msg).shares j = m.shares j := by grind
  have placed : ∀ j, ({ m with loop := loop } : ServiceRuntime Msg).place j = m.place j := by grind
  constructor <;> grind

end ServiceRuntime

namespace Runtime

open ServiceRuntime Request

theorem sound_submit {ctx : Context} {protocol : String} {session : Nat} {expects nonBlocking : Bool}
    (sound : m.Sound) : (next m (.submit ctx protocol session expects nonBlocking)).Sound := by
  have unheld : m.place m.requests.length = .outside := by
    rw [place_eq_outside]
    by_contra held
    exact absurd (sound.known m.requests.length (by omega)) (by omega)
  obtain ⟨exclusive, known, fits, tokens, bounded, limited, atomic, settled, closed, idle⟩ := sound
  refine ⟨exclusive, fun j held => ?_, fun j entry was => ?_, ?_, bounded, limited, ?_, ?_, closed, idle⟩
  · have before := known j held
    grind
  · rcases lookup_append was with old | ⟨rfl, rfl⟩
    · exact fits j entry old
    · have placed : (next m (.submit ctx protocol session expects nonBlocking)).place m.requests.length =
          .outside := unheld
      rw [placed]
      exact .inl (by grind)
  · grind
  · grind
  · grind

theorem sound_enqueue (sound : m.Sound) (enabled : Enabled m (.enqueue id)) :
    (next m (.enqueue id)).Sound := by
  obtain ⟨⟨r, found, here⟩, select⟩ := And.imp_left at_iff.mp enabled
  obtain ⟨outside, unsent⟩ := (sound.fits id r found).unsent (by simp [here])
  obtain ⟨current, ready, suspended, _⟩ := (shares_eq_zero m id).mp ((place_eq_outside m id).mp outside)
  have queued : Queued m.drainable { r with admission := .returned none } := by grind
  have atomic : m.opts.noInterleave = true → m.suspended = [] ∧ r.yielded = false :=
    fun solo => ⟨(sound.atomic solo).1, unsent.1.yielded⟩
  have limited := sound.limited
  have settled := sound.settled
  refine sound.move found (f := fun r => { r with admission := .returned none }) ⟨?_, ?_, ?_, ?_, ?_⟩
    ?_ ?_ ?_ ?_ ?_ ?_ ?_ ?_ ?_ ?_ <;> grind

theorem yieldReply_eq_none :
    m.yieldReply id = none ↔ m.opts.noInterleave = false ∧ m.current = some id ∧
      (m.suspended.length : Int) < m.opts.maxSuspended := by
  unfold yieldReply
  split_ifs <;> simp_all

section

variable (sound : m.Sound)
include sound

theorem Sound.alone_current (current : m.current = some id) : id ∉ m.ready ∧ id ∉ m.suspended ∧ id ∉ m.loop.discarding := by
  have once := sound.exclusive id
  simp only [shares, current, if_true] at once
  simp only [← List.count_eq_zero]
  omega

theorem Sound.alone_suspended (held : id ∈ m.suspended) :
    m.current ≠ some id ∧ id ∉ m.ready ∧ m.suspended.count id = 1 ∧ id ∉ m.loop.discarding := by
  have once := sound.exclusive id
  have positive := List.count_pos_iff.mpr held
  simp only [shares] at once
  split_ifs at once with current
  · omega
  · simp only [← List.count_eq_zero]
    exact ⟨current, by omega, by omega, by omega⟩

theorem Sound.alone_ready (held : id ∈ m.ready) :
    m.current ≠ some id ∧ m.ready.count id = 1 ∧ id ∉ m.suspended ∧ id ∉ m.loop.discarding := by
  have once := sound.exclusive id
  have positive := List.count_pos_iff.mpr held
  simp only [shares] at once
  split_ifs at once with current
  · omega
  · simp only [← List.count_eq_zero]
    exact ⟨current, by omega, by omega, by omega⟩

theorem sound_yieldEvent {depth : Nat} (enabled : Enabled m (.yieldEvent id depth)) :
    (next m (.yieldEvent id depth)).Sound := by
  obtain ⟨⟨r, found, here⟩, select⟩ := And.imp_left at_iff.mp enabled
  have deep : depth ≠ 0 → ¬holdsTurn r.pc r.grant := by cases depth <;> simp [holdsTurn, here]
  simp only [next]
  split
  · next fault rejected =>
    -- a rejected yield leaves every request where it is
    have told : (m.update id fun r => { r with pc := .answered depth (some fault) }).Sound := by
      refine sound.activation found ?_ ?_ ?_ ?_ ?_ <;> grind
    exact told.goto (.inr select) (.inl rfl)
  · next accepted =>
    obtain ⟨interleaves, current, room⟩ := yieldReply_eq_none.mp accepted
    obtain ⟨ready, suspended, _⟩ := Sound.alone_current sound current
    have fits := sound.fits id r found
    have settled := sound.settled
    cases depth with
    | succ depth => grind
    | zero =>
      refine sound.move found (f := fun r => { r with
          pc := .answered 0 none, yieldAtSegment := m.segmentSeq, yielded := true }) ⟨?_, ?_, ?_, ?_, ?_⟩
        rfl ⟨rfl, rfl, rfl⟩ ?_ ?_ ?_ rfl (Nat.le_refl _) ?_ ?_ ?_ <;> grind

theorem sound_resumeEvent {depth : Nat} (enabled : Enabled m (.resumeEvent id depth)) :
    (next m (.resumeEvent id depth)).Sound := by
  obtain ⟨⟨r, found, here⟩, select⟩ := And.imp_left at_iff.mp enabled
  obtain ⟨held, live, dones, yielded, grant, given⟩ :
      id ∈ m.suspended ∧ r.Suspended m.drainable := by
    rcases (sound.fits id r found).active (by simp [here]) (by simp [here]) with
      ⟨_, running⟩ | ⟨placed, suspended⟩ | ⟨_, resumed⟩
    · have turn := running.2.2.2
      simp [holdsTurn, here] at turn
    · exact ⟨mem_of_place_suspended placed, suspended⟩
    · have parked := resumed.2.2.2.2
      simp [here] at parked
  have outermost : depth = 0 := by
    cases depth with
    | zero => rfl
    | succ depth => simp [givenUpTurn, here] at given
  subst outermost
  obtain ⟨current, ready, once, _⟩ := Sound.alone_suspended sound held
  have limited := sound.limited
  have atomic := sound.atomic
  have settled := sound.settled
  have shorter := List.length_erase_of_mem held
  refine sound.move found (f := fun r => { r with pc := .parked 0 }) ⟨?_, ?_, ?_, ?_, ?_⟩
    ?_ ?_ ?_ ?_ ?_ ?_ ?_ ?_ ?_ ?_ <;> grind

theorem Sound.leaving_held (found : m.requests[id]? = some r) (here : r.pc = .leaving) :
    (m.current = some id ∨ id ∈ m.suspended) ∧ r.Live m.drainable ∧ r.dones = 0 ∧ r.grant = false := by
  rcases (sound.fits id r found).active (by simp [here]) (by simp [here]) with
    ⟨placed, live, dones, _, turn⟩ | ⟨placed, live, dones, _, grant, _⟩ | ⟨_, _, _, _, _, parked⟩
  · exact ⟨.inl (current_of_place placed), live, dones, by simpa [holdsTurn, here] using turn⟩
  · exact ⟨.inr (mem_of_place_suspended placed), live, dones, grant⟩
  · simp [here] at parked

theorem sound_doneEvent (enabled : Enabled m (.doneEvent id)) : (next m (.doneEvent id)).Sound := by
  obtain ⟨⟨r, found, here⟩, select⟩ := And.imp_left at_iff.mp enabled
  obtain ⟨held, live, dones, grant⟩ := Sound.leaving_held sound found here
  have unqueued : id ∉ m.ready := by
    rcases held with current | suspended
    · exact (Sound.alone_current sound current).1
    · exact (Sound.alone_suspended sound suspended).2.1
  have once := sound.exclusive id
  have left : id ∉ m.suspended.erase id := by
    rw [← List.count_eq_zero, List.count_erase_self]
    grind
  have limited := sound.limited
  have atomic := sound.atomic
  have settled := sound.settled
  have shorter := List.length_erase_le (a := id) (l := m.suspended)
  refine sound.move found (f := fun r => { r with pc := .ended, dones := r.dones + 1 }) ⟨?_, ?_, ?_, ?_, ?_⟩
    rfl ⟨rfl, rfl, rfl⟩ ?_ ?_ ?_ rfl (Nat.le_refl _) ?_ ?_ ?_ <;> grind

theorem sound_exit (enabled : Enabled m .exit) : ServiceRuntime.Sound { m with loop := .exited, done := true } := by
  obtain ⟨exclusive, known, fits, tokens, bounded, limited, atomic, settled, closed, idle⟩ := sound
  have shared : ∀ j, ({ m with loop := .exited, done := true } : ServiceRuntime Msg).shares j = m.shares j := by
    simp [shares, enabled.1, LoopPc.discarding]
  have placed : ∀ j, ({ m with loop := .exited, done := true } : ServiceRuntime Msg).place j = m.place j := by
    simp [place, enabled.1, LoopPc.place]
  constructor <;> grind

end

theorem picked_eq_some {act : Nat} :
    m.picked = some act ↔ m.current = none ∧ ∃ rest, m.ready = act :: rest := by
  unfold picked
  split <;> simp_all

def granted (segmentSeq : Nat) (r : Request Msg) : Request Msg :=
  { r with
    slotHeld := false
    releases := if r.slotHeld then r.releases + 1 else r.releases
    interleaveVersion :=
      if r.started ∧ r.yieldAtSegment < segmentSeq then r.interleaveVersion + 1
      else r.interleaveVersion
    pc := if r.started then r.pc else .first
    executions := if r.started then r.executions else r.executions + 1
    started := true
    grant := true
    yielded := false
    grants := r.grants + 1 }

theorem holdsSlot_eq (found : m.requests[id]? = some r) : m.holdsSlot id = r.slotHeld := by
  simp [holdsSlot, At, found]

theorem grantTurn_eq (found : m.requests[id]? = some r) :
    m.grantTurn id = { m with
      slots := m.slots - r.slotHeld.toNat
      current := some id
      segmentSeq := m.segmentSeq + 1
      loop := .select
      requests := m.requests.modify id (granted m.segmentSeq) } := by
  have lookup : ∀ f g : Request Msg → Request Msg, f r = g r →
      m.requests.modify id f = m.requests.modify id g := by
    intro f g same
    refine List.ext_getElem? fun j => ?_
    grind
  cases slot : r.slotHeld <;>
    simp only [grantTurn, freeSlot, holdsSlot_eq found, slot, Bool.false_eq_true, if_false, if_true, update,
      List.modify_modify_eq, Bool.toNat_true, Bool.toNat_false, Nat.sub_zero] <;>
    congr 1 <;> exact lookup _ _ (by simp [granted, slot])

theorem running_granted {drainable : Bool} {segmentSeq : Nat}
    (fits : r.Queued drainable ∨ r.Resumed drainable) : (granted segmentSeq r).Running drainable := by
  rcases fits with queued | resumed <;> grind [granted]

theorem sound_grantTurn {rest : List Nat} (sound : m.Sound) (found : m.requests[id]? = some r)
    (idle : m.current = none) (ready : m.ready = id :: rest) (top : m.loop = .top)
    (slot : r.slotHeld = true → 0 < m.slots) :
    ({ m with ready := m.ready.tail }.grantTurn id).Sound := by
  have held : id ∈ m.ready := by simp [ready]
  obtain ⟨_, once, suspended, _⟩ := Sound.alone_ready sound held
  have gone : id ∉ rest := by
    rw [ready, List.count_cons_self] at once
    exact List.count_eq_zero.mp (by omega)
  have fits : r.Queued m.drainable ∨ r.Resumed m.drainable := by
    have before := sound.fits id r found
    rwa [show m.place id = .ready by simp [place, idle, held]] at before
  rw [grantTurn_eq (by exact found)]
  have running : (granted m.segmentSeq r).Running m.drainable := running_granted fits
  have limited := sound.limited
  have atomic := sound.atomic
  have settled := sound.settled
  have paid : r.slotHeld.toNat ≤ m.slots := by cases taken : r.slotHeld <;> grind
  refine sound.move found ⟨?_, ?_, ?_, ?_, ?_⟩ rfl ⟨rfl, rfl, rfl⟩ ?_ ?_ ?_ (Nat.sub_add_cancel paid)
    (Nat.sub_le _ _) ?_ ?_ ?_
  · grind
  · intro j other
    simp [ready, Ne.symm other]
  · grind
  · intro j _
    simp [LoopPc.discarding, top]
  · grind
  · grind
  · simp [shares, LoopPc.discarding, ready, List.count_eq_zero_of_not_mem, gone, suspended]
  · simp only [place, if_true]
    exact running
  · exact limited
  · exact fun solo => ⟨(atomic solo).1, rfl⟩
  · grind [granted]

theorem sound_schedule (sound : m.Sound) (enabled : Enabled m .schedule) :
    (next m .schedule).Sound := by
  obtain ⟨top, _, ready_⟩ := enabled
  simp only [next]
  split
  · exact sound.goto (.inl top) (.inr rfl)
  · next act chosen =>
    obtain ⟨idle, rest, ready⟩ := picked_eq_some.mp chosen
    obtain ⟨r, found, slot, _⟩ := at_iff.mp (ready_ act chosen)
    split
    · next unstarted =>
      obtain ⟨stopping, fresh⟩ := unstarted
      have held : act ∈ m.ready := by simp [ready]
      -- the stop branch has already thinned `ready` out to started activations
      exact absurd (sound.settled stopping act held) (by simp [fresh])
    · exact sound_grantTurn sound found idle ready top slot

theorem count_filter_split (l : List Nat) (p : Nat → Bool) (j : Nat) :
    (l.filter p).count j + (l.filter fun a => !p a).count j = l.count j := by
  induction l with grind

theorem sound_observeStop (sound : m.Sound) (enabled : Enabled m .observeStop) :
    ServiceRuntime.Sound { m with
      stopping := true
      ready := m.ready.filter m.isStarted
      loop := .resume (m.ready.filter fun act => !m.isStarted act) false } := by
  obtain ⟨select, _, _⟩ := enabled
  have shared : ∀ j, ({ m with
      stopping := true
      ready := m.ready.filter m.isStarted
      loop := .resume (m.ready.filter fun act => !m.isStarted act) false } : ServiceRuntime Msg).shares j =
      m.shares j := by
    intro j
    have split := count_filter_split m.ready m.isStarted j
    simp only [shares, LoopPc.discarding_resume, select, LoopPc.discarding_select, List.count_nil]
    omega
  refine ⟨fun j => ?_, fun j held => ?_, fun j entry was => ?_, sound.tokens, sound.bounded,
    sound.limited, sound.atomic, fun _ j queued => ?_, ?_, fun exited => ?_⟩
  · rw [shared]
    exact sound.exclusive j
  · exact sound.known j (shared j ▸ held)
  · have before := sound.fits j entry was
    have alone (held : j ∈ m.ready) := Sound.alone_ready sound held
    cases started : m.isStarted j <;> grind [LoopPc.place_resume]
  · exact (List.mem_filter.mp queued).2
  · have before := sound.closed
    grind [LoopPc.resume_ne_exited]
  · exact absurd exited (LoopPc.resume_ne_exited _ _)

/-! `finishPending`, statement by statement. -/

section Discard

variable {stage : Stage} {rest : List Nat} {inSchedule : Bool}

theorem Sound.discarding (sound : m.Sound) (here : m.loop = .discard stage id rest inSchedule) :
    m.current ≠ some id ∧ id ∉ m.ready ∧ id ∉ m.suspended ∧ id ∉ rest ∧
      ∃ r : Request Msg, m.requests[id]? = some r ∧ r.Discarding m.drainable stage := by
  have once := sound.exclusive id
  have positive : 0 < m.shares id := by
    simp only [shares, here, LoopPc.discarding, List.count_cons_self]
    omega
  have known := List.getElem?_eq_getElem (sound.known id positive)
  simp only [shares, here, LoopPc.discarding, List.count_cons_self] at once
  have current : m.current ≠ some id := by
    intro same
    simp only [same, if_true] at once
    omega
  simp only [current, if_false] at once
  have ready : id ∉ m.ready := List.count_eq_zero.mp (by omega)
  have suspended : id ∉ m.suspended := List.count_eq_zero.mp (by omega)
  refine ⟨current, ready, suspended, List.count_eq_zero.mp (by omega), _, known, ?_⟩
  have fits := sound.fits id _ known
  rwa [show m.place id = .discarding stage by
    simp [place, current, ready, suspended, here, LoopPc.place]] at fits

theorem Sound.discard (sound : m.Sound) (here : m.loop = .discard stage id rest inSchedule)
    (found : m.requests[id]? = some r) {loop : LoopPc} {slots : Nat}
    (onward : (∃ stage', loop = .discard stage' id rest inSchedule ∧ (f r).Discarding m.drainable stage') ∨
      (loop = .resume rest inSchedule ∧ (f r).Discarded m.drainable))
    (same : (f r).started = r.started ∧ (f r).yielded = r.yielded)
    (tokens : slots + r.slotHeld.toNat = m.slots + (f r).slotHeld.toNat) (bounded : slots ≤ m.slots) :
    ServiceRuntime.Sound { m with loop := loop, slots := slots, requests := m.requests.modify id f } := by
  obtain ⟨current, ready, suspended, gone, _⟩ := Sound.discarding sound here
  have limited := sound.limited
  have atomic := sound.atomic
  have settled := sound.settled
  refine sound.move found ⟨fun _ _ => Iff.rfl, fun _ _ => rfl, fun _ _ => rfl, ?_, ?_⟩ rfl ⟨rfl, rfl, rfl⟩
    ⟨by simp [here], ?_⟩ ?_ ?_ tokens bounded ?_ ?_ ?_ <;>
      grind [LoopPc.discarding_resume, LoopPc.place_resume, LoopPc.resume_ne_exited]

end Discard

theorem sound_finishPending {won : Bool} (sound : m.Sound) (enabled : Enabled m (.finishPending won)) :
    (next m (.finishPending won)).Sound := by
  simp only [next, discardStep]
  split
  · next act rest inSchedule here =>
    obtain ⟨_, _, _, _, r, found, fits⟩ := Sound.discarding sound here
    simp only [markFinished]
    split
    · simp only [update, List.modify_modify_eq]
      refine Sound.discard sound here found (.inl ⟨.slot, rfl, ?_⟩) ⟨rfl, rfl⟩ rfl (Nat.le_refl _)
      grind
    · refine Sound.discard sound here found (.inl ⟨.slot, rfl, ?_⟩) ⟨rfl, rfl⟩ rfl (Nat.le_refl _)
      grind
  · next act rest inSchedule here =>
    obtain ⟨_, _, _, _, r, found, fits⟩ := Sound.discarding sound here
    have slot : r.slotHeld = true := by grind
    simp only [freeSlot, holdsSlot_eq found, slot, if_true, update]
    refine Sound.discard sound here found ?_ ⟨rfl, rfl⟩ ?_ (Nat.sub_le _ _)
    · cases expects : r.expectsResponse with
      | true => exact .inl ⟨.complete, by grind, by grind⟩
      | false => exact .inr ⟨by grind, by grind⟩
    · grind
  · next act rest inSchedule here =>
    obtain ⟨_, _, _, _, r, found, fits⟩ := Sound.discarding sound here
    refine Sound.discard sound here found (.inl ⟨_, rfl, ?_⟩) ⟨rfl, rfl⟩ rfl (Nat.le_refl _)
    cases won <;> grind
  · next act rest inSchedule here =>
    obtain ⟨_, _, _, _, r, found, fits⟩ := Sound.discarding sound here
    exact Sound.discard sound here found (.inr ⟨rfl, by grind⟩) ⟨rfl, rfl⟩ rfl (Nat.le_refl _)
  · next act rest inSchedule here =>
    obtain ⟨_, _, _, _, r, found, fits⟩ := Sound.discarding sound here
    exact Sound.discard sound here found (.inr ⟨rfl, by grind⟩) ⟨rfl, rfl⟩ rfl (Nat.le_refl _)
  · exact sound

theorem sound_next (sound : m.Sound) (a : Action Msg) (enabled : Enabled m a) : (next m a).Sound := by
  cases a with
  | submit => exact sound_submit sound
  | track id admitted => exact sound_track sound enabled
  | acquire id => exact sound_acquire sound enabled
  | refuse id fault => exact sound_refuse sound enabled
  | enqueue id => exact sound_enqueue sound enabled
  | emitFailed id => exact sound_emitFailed sound enabled
  | release id => exact sound_release sound enabled
  | unwind id fault => exact sound_unwind sound enabled
  | receiveGrant id => exact sound_receiveGrant sound enabled
  | unpackFailed id detail => exact sound_unpackFailed sound enabled
  | invoke id => exact sound_invoke sound enabled
  | yield id depth => exact sound_yield sound enabled
  | yieldEvent id depth => exact sound_yieldEvent sound enabled
  | hear id depth reply => exact sound_hear sound enabled
  | waitReturned id depth => exact sound_waitReturned sound enabled
  | resumeEvent id depth => exact sound_resumeEvent sound enabled
  | regrant id depth => exact sound_regrant sound enabled
  | recovered id depth kept => exact sound_recovered sound enabled
  | handlerReturned id depth result => exact sound_handlerReturned sound enabled
  | finishTracked id => exact sound_finishTracked sound enabled
  | complete id won => exact sound_complete sound enabled
  | respond id => exact sound_respond sound enabled
  | missed id => exact sound_missed sound enabled
  | report id => exact sound_report sound enabled
  | doneEvent id => exact sound_doneEvent sound enabled
  | cancel => exact { sound with }
  | exit => exact sound_exit sound enabled
  | schedule => exact sound_schedule sound enabled
  | observeStop => exact sound_observeStop sound enabled
  | finishPending won => exact sound_finishPending sound enabled
  -- no goroutine can still be waiting on the loop after it has returned
  | yieldFailed id depth | resumeFailed id depth | grantLost id depth | doneFailed id =>
    obtain ⟨⟨r, found, here⟩, done⟩ := And.imp_left at_iff.mp enabled
    rcases Sound.quiet sound done found with idle | ended
    · simp [here] at idle
    · simp [here] at ended

theorem sound_start (name : String) (opts : ServiceOptions) (drainable : Bool) :
    (ServiceRuntime.start name opts drainable : ServiceRuntime Msg).Sound where
  exclusive id := by simp [start, shares, LoopPc.discarding]
  known id held := by simp [start, shares, LoopPc.discarding] at held
  fits id r found := by simp [start] at found
  tokens := by simp [start]
  bounded := by simp [start]
  limited := by
    have positive := opts.withDefaults_settled.2.2.1
    simp only [start, List.length_nil]
    omega
  atomic solo := by simp [start]
  settled stopping := by simp [start] at stopping
  closed := by simp [start]
  idle exited := by simp [start] at exited

theorem reachable_sound {name : String} {opts : ServiceOptions} {drainable : Bool}
    (reached : (machine Msg).Reachable (ServiceRuntime.start name opts drainable) m) : m.Sound :=
  reached.invariant (sound_start name opts drainable) fun _ a sound enabled => sound_next sound a enabled

end Runtime

end Skygo.Actor
