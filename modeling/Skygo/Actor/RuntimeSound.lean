import Skygo.Actor.RuntimeInvariant

/-! Every action of a service runtime keeps the runtime invariant.

Most actions change one record and leave the loop's variables alone. The loop's
own actions move a request from one place to another; for them the records of
the other requests and their places stay as they are.
-/

set_option autoImplicit false

attribute [-instance] instBooleanRingBool

namespace Skygo.Actor

open Semantics

variable {Msg : Type} {m : ServiceRuntime Msg} {id : Nat} {r : Request Msg}
  {f : Request Msg → Request Msg}

namespace ServiceRuntime

theorem isStarted_iff {j : Nat} :
    m.isStarted j = true ↔ ∃ r : Request Msg, m.requests[j]? = some r ∧ r.started = true := by
  simp [isStarted, at_iff]

section

variable (sound : m.Sound) (found : m.requests[id]? = some r)
include sound found

/-- Change one record in place, together with the slot tokens it accounts for. -/
theorem Sound.amend (fits : (f r).Fits m.drainable (m.place id)) (started : (f r).started = r.started)
    (yielded : (f r).yielded = r.yielded) {slots : Nat} (tokens : slots + r.slotHeld.toNat = m.slots + (f r).slotHeld.toNat)
    (bounded : slots ≤ m.capacity) :
    ServiceRuntime.Sound { m with slots := slots, requests := m.requests.modify id f } := by
  have counted := countP_modify (p := (·.slotHeld)) (f := f) found
  obtain ⟨exclusive, known, fitted, before, _, limited, atomic, settled, closed, idle⟩ := sound
  refine ⟨exclusive, fun j held => ?_, forall_modify_at found fits fun j entry _ was => fitted j entry was, ?_, bounded,
    limited, ?_, ?_, closed, idle⟩
  · simpa using known j held
  · dsimp only at counted ⊢
    omega
  · grind
  · grind

theorem Sound.admission (sending : r.admission ≠ .returned none)
    (keeps : r.Unsent m.drainable → (f r).Unsent m.drainable) {slots : Nat}
    (tokens : slots + r.slotHeld.toNat = m.slots + (f r).slotHeld.toNat) (bounded : slots ≤ m.capacity) :
    ServiceRuntime.Sound { m with slots := slots, requests := m.requests.modify id f } := by
  obtain ⟨outside, unsent⟩ := (sound.fits id r found).unsent sending
  have after := keeps unsent
  refine sound.amend found ?_ ?_ ?_ tokens bounded
  · rw [outside]
    exact .inl after
  · rw [after.1.started, unsent.1.started]
  · rw [after.1.yielded, unsent.1.yielded]

/-- A step of the activation's goroutine that leaves the loop's variables alone. -/
theorem Sound.activation (begun : r.pc ≠ .idle) (open_ : r.pc ≠ .ended)
    (running : r.Running m.drainable → (f r).Running m.drainable)
    (suspended : r.Suspended m.drainable → (f r).Suspended m.drainable)
    (resumed : r.Resumed m.drainable → (f r).Resumed m.drainable) : (m.update id f).Sound := by
  have slots : ∀ {r : Request Msg}, r.Live m.drainable → r.slotHeld = false := fun live => live.slotHeld
  rcases (sound.fits id r found).active begun open_ with ⟨here, was⟩ | ⟨here, was⟩ | ⟨here, was⟩
  · have now := running was
    exact sound.amend found (by rw [here]; exact now) (now.1.started.trans was.1.started.symm)
      (now.2.2.1.trans was.2.2.1.symm) (by rw [slots now.1, slots was.1]) sound.bounded
  · have now := suspended was
    exact sound.amend found (by rw [here]; exact now) (now.1.started.trans was.1.started.symm)
      (now.2.2.1.trans was.2.2.1.symm) (by rw [slots now.1, slots was.1]) sound.bounded
  · have now := resumed was
    exact sound.amend found (by rw [here]; exact .inr now) (now.1.started.trans was.1.started.symm)
      (now.2.2.1.trans was.2.2.1.symm) (by rw [slots now.1, slots was.1]) sound.bounded

end

end ServiceRuntime

open ServiceRuntime Request

attribute [grind] holdsTurn givenUpTurn


namespace Runtime

/-! The goroutine in `admit` or `tryAdmit`. -/

theorem sound_track {admitted : Bool} (sound : m.Sound)
    (enabled : Enabled m (.track id admitted)) : (next m (.track id admitted)).Sound := by
  obtain ⟨r, found, here⟩ := at_iff.mp enabled.1
  cases admitted <;> refine sound.admission found ?_ ?_ ?_ sound.bounded <;> grind

theorem sound_acquire (sound : m.Sound) (enabled : Enabled m (.acquire id)) :
    (next m (.acquire id)).Sound := by
  obtain ⟨r, found, here⟩ := at_iff.mp enabled.1
  have unsent := ((sound.fits id r found).unsent (by simp [here])).2
  refine sound.admission found ?_ ?_ ?_ enabled.2 <;> grind

theorem sound_refuse {fault : Fault} (sound : m.Sound) (enabled : Enabled m (.refuse id fault)) :
    (next m (.refuse id fault)).Sound := by
  obtain ⟨r, found, here, _⟩ := at_iff.mp enabled
  refine sound.admission found ?_ ?_ rfl sound.bounded <;> grind

theorem sound_emitFailed (sound : m.Sound) (enabled : Enabled m (.emitFailed id)) :
    (next m (.emitFailed id)).Sound := by
  obtain ⟨r, found, here⟩ := at_iff.mp enabled.1
  refine sound.admission found ?_ ?_ rfl sound.bounded <;> grind

theorem sound_release (sound : m.Sound) (enabled : Enabled m (.release id)) :
    (next m (.release id)).Sound := by
  obtain ⟨r, found, here⟩ := at_iff.mp enabled.1
  have unsent := ((sound.fits id r found).unsent (by simp [here])).2
  have holds : m.holdsSlot id = true := by grind
  simp only [next, freeSlot, holds, if_true, update, List.modify_modify_eq]
  refine sound.admission found ?_ ?_ ?_ (by have := sound.bounded; omega) <;> grind

theorem sound_unwind {fault : Fault} (sound : m.Sound) (enabled : Enabled m (.unwind id fault)) :
    (next m (.unwind id fault)).Sound := by
  obtain ⟨r, found, here⟩ := at_iff.mp enabled
  simp only [next, markFinished]
  split
  · simp only [update, List.modify_modify_eq]
    refine sound.admission found ?_ ?_ rfl sound.bounded <;> grind
  · refine sound.admission found ?_ ?_ rfl sound.bounded <;> grind

/-! The activation's goroutine between two events. -/

theorem Sound.quiet (sound : m.Sound) (done : m.done = true) (found : m.requests[id]? = some r) :
    r.pc = .idle ∨ r.pc = .ended := by
  have exited := sound.closed.mp done
  obtain ⟨_, current, ready, suspended⟩ := sound.idle exited
  have fits := sound.fits id r found
  rw [show m.place id = .outside by simp [place, LoopPc.place, current, ready, suspended, exited]] at fits
  rcases fits with unsent | executed | discarded <;> grind

theorem sound_receiveGrant (sound : m.Sound) (enabled : Enabled m (.receiveGrant id)) :
    (next m (.receiveGrant id)).Sound := by
  obtain ⟨r, found, here, _⟩ := at_iff.mp enabled
  refine sound.activation found ?_ ?_ ?_ ?_ ?_ <;> grind

theorem sound_unpackFailed {detail : String} (sound : m.Sound)
    (enabled : Enabled m (.unpackFailed id detail)) : (next m (.unpackFailed id detail)).Sound := by
  obtain ⟨r, found, here⟩ := at_iff.mp enabled
  refine sound.activation found ?_ ?_ ?_ ?_ ?_ <;> grind

theorem sound_invoke (sound : m.Sound) (enabled : Enabled m (.invoke id)) :
    (next m (.invoke id)).Sound := by
  obtain ⟨r, found, here⟩ := at_iff.mp enabled
  refine sound.activation found ?_ ?_ ?_ ?_ ?_ <;> grind

variable {depth : Nat}

section

variable (sound : m.Sound)
include sound

theorem sound_yield (enabled : Enabled m (.yield id depth)) : (next m (.yield id depth)).Sound := by
  obtain ⟨r, found, here⟩ := at_iff.mp enabled
  refine sound.activation found ?_ ?_ ?_ ?_ ?_ <;> grind

theorem sound_hear {reply : Option Fault}
    (enabled : Enabled m (.hear id depth reply)) : (next m (.hear id depth reply)).Sound := by
  obtain ⟨r, found, here⟩ := at_iff.mp enabled
  -- a goroutine that holds the turn can only hear that its yield was rejected
  have deep : depth ≠ 0 → ¬holdsTurn r.pc r.grant := by cases depth <;> simp [holdsTurn, here]
  cases reply <;> refine sound.activation found ?_ ?_ ?_ ?_ ?_ <;> grind

theorem sound_waitReturned (enabled : Enabled m (.waitReturned id depth)) : (next m (.waitReturned id depth)).Sound := by
  obtain ⟨r, found, here⟩ := at_iff.mp enabled
  refine sound.activation found ?_ ?_ ?_ ?_ ?_ <;> grind

theorem sound_regrant (enabled : Enabled m (.regrant id depth)) : (next m (.regrant id depth)).Sound := by
  obtain ⟨r, found, here, granted⟩ := at_iff.mp enabled
  refine sound.activation found ?_ ?_ ?_ ?_ ?_ <;> grind

theorem sound_recovered {depth kept : Nat}
    (enabled : Enabled m (.recovered id depth kept)) : (next m (.recovered id depth kept)).Sound := by
  obtain ⟨⟨r, found, here⟩, below⟩ := And.imp_left at_iff.mp enabled
  refine sound.activation found ?_ ?_ ?_ ?_ ?_ <;> grind

theorem sound_handlerReturned {result : CallResult Msg} (enabled : Enabled m (.handlerReturned id depth result)) :
    (next m (.handlerReturned id depth result)).Sound := by
  obtain ⟨r, found, here⟩ := at_iff.mp enabled.1
  refine sound.activation found ?_ ?_ ?_ ?_ ?_ <;> grind

theorem sound_finishTracked (enabled : Enabled m (.finishTracked id)) : (next m (.finishTracked id)).Sound := by
  obtain ⟨r, found, here⟩ := at_iff.mp enabled
  simp only [next, markFinished]
  split
  · next on =>
    simp only [update, List.modify_modify_eq]
    refine sound.activation found ?_ ?_ ?_ ?_ ?_ <;> grind
  · next off =>
    refine sound.activation found ?_ ?_ ?_ ?_ ?_ <;> grind

theorem sound_complete {won : Bool} (enabled : Enabled m (.complete id won)) : (next m (.complete id won)).Sound := by
  obtain ⟨r, found, here, expects⟩ := at_iff.mp enabled
  cases won <;> refine sound.activation found ?_ ?_ ?_ ?_ ?_ <;> grind

theorem sound_respond (enabled : Enabled m (.respond id)) : (next m (.respond id)).Sound := by
  obtain ⟨r, found, here⟩ := at_iff.mp enabled
  refine sound.activation found ?_ ?_ ?_ ?_ ?_ <;> grind

theorem sound_missed (enabled : Enabled m (.missed id)) : (next m (.missed id)).Sound := by
  obtain ⟨r, found, here⟩ := at_iff.mp enabled
  refine sound.activation found ?_ ?_ ?_ ?_ ?_ <;> grind

theorem sound_report (enabled : Enabled m (.report id)) : (next m (.report id)).Sound := by
  obtain ⟨r, found, here, silent⟩ := at_iff.mp enabled
  refine sound.activation found ?_ ?_ ?_ ?_ ?_ <;> grind

end

end Runtime

end Skygo.Actor
