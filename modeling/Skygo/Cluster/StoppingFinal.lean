import Skygo.Cluster.StoppingSound

/-! `System.Stop` stops what it finds in the registry.

`Reserve` looks at the flag of the system before it takes the lock, so it may insert a service after `System.Stop`
has looked at the registry. The other way to be overlooked is to be unpublished and not yet stopped at that moment.
-/

set_option autoImplicit false

attribute [-instance] instBooleanRingBool

namespace Skygo.Cluster.Stopping

open Semantics Actor

namespace System

variable {s : System} {a : Action} {j c k : Nat}

def Ended (s : System) : Prop :=
  ∀ c j, s.CallAt c j (.stopReturned true) → At s.services j fun svc => svc.hasStored = true

/-- What a call of `System.Stop` that has looked at the registry knows: each service has been stopped or is yet to be. -/
def Covers (s : System) : ShutdownPlace → Prop
  | .flagging | .snapshotting | .returned false => True
  | .next rest => ∀ (j : Nat) (svc : Service), s.services[j]? = some svc → svc.hasStored = true ∨ j ∈ rest
  | .inside c rest => ∀ (j : Nat) (svc : Service), s.services[j]? = some svc →
      svc.hasStored = true ∨ j ∈ rest ∨ At s.calls c fun call => call.service = j
  | .returned true => ∀ (j : Nat) (svc : Service), s.services[j]? = some svc → svc.hasStored = true

structure Covered (s : System) : Prop where
  ended : s.Ended
  covers : ∀ (k : Nat) (place : ShutdownPlace), s.shutdowns[k]? = some place → s.Covers place
  flagged : ∀ (k : Nat) (place : ShutdownPlace), s.shutdowns[k]? = some place → place ≠ .flagging → s.stopping = true

/-- The action neither inserts a service behind a `System.Stop` that has looked at the registry, nor lets one look while a
service is unpublished and not yet stopped. -/
def InTime (s : System) : Action → Prop
  | .reserveInsert _ name => (s.byName name).isSome = true ∨ ∀ place ∈ s.shutdowns, place.looked = false
  | .snapshot _ _ => ∀ svc ∈ s.services, svc.finalizing ≠ some .storing
  | _ => True

instance (s : System) (a : Action) : Decidable (s.InTime a) := by
  rcases a with _ | _ <;> dsimp only [InTime] <;> infer_instance

theorem services_later (enabled : s.Enabled a) :
    Grows (fun svc svc' => svc.hasStored = true → svc'.hasStored = true) s.services (s.next a).services := by
  intro j svc found
  cases a with
  | startLoad | stopLoad | stopStore =>
    dsimp only [next, withService, startLoad, stopLoad, stopStore]
    grind
  | beginFinalize =>
    simp only [next, beginFinalize, begin_eq]
    grind
  | _ => grind

theorem calls_later (known : At s.calls c fun call => call.service = j) :
    At (s.next a).calls c fun call => call.service = j := by
  cases a with
  | startLoad | stopLoad =>
    dsimp only [next, withService, startLoad, stopLoad]
    grind
  | _ => grind

theorem services_old (inTime : s.InTime a) :
    (s.next a).services.length = s.services.length ∨
      ((s.next a).shutdowns = s.shutdowns ∧ ∀ place ∈ s.shutdowns, place.looked = false) := by
  cases a <;> grind [InTime]

variable {place : ShutdownPlace}

theorem covers_next (enabled : s.Enabled a) (old : (s.next a).services.length = s.services.length) (covers : s.Covers place) :
    (s.next a).Covers place := by
  have later := services_later enabled
  have before : ∀ (j : Nat) (svc' : Service), (s.next a).services[j]? = some svc' →
      ∃ svc, s.services[j]? = some svc ∧ (svc.hasStored = true → svc'.hasStored = true) := by
    grind [Grows]
  unfold Covers at covers ⊢
  split
  · trivial
  · trivial
  · trivial
  · intro j svc' there
    obtain ⟨svc, found, kept⟩ := before j svc' there
    exact (covers j svc found).imp_left kept
  · intro j svc' there
    obtain ⟨svc, found, kept⟩ := before j svc' there
    exact (covers j svc found).imp kept (.imp_right calls_later)
  · intro j svc' there
    obtain ⟨svc, found, kept⟩ := before j svc' there
    exact kept (covers j svc found)

theorem ended_next (sound : s.Sound) (ended : s.Ended) (enabled : s.Enabled a) : (s.next a).Ended := by
  intro c j returned
  have recorded := sound.recorded
  have was := ended c j
  -- a `Stop` that returns nil finds the service stopped or the finalizer at its end
  suffices stored : At s.services j fun svc => svc.hasStored = true from
    (services_later enabled).at_mono stored fun _ _ kept was => kept was
  clear sound ended
  cases a with
  | startLoad | stopLoad =>
    dsimp only [next, withService, startLoad, stopLoad] at returned
    grind
  | _ => grind

theorem covers_snapshot (sound : s.Sound) {order : List Nat} (settled : ∀ svc ∈ s.services, svc.finalizing ≠ some .storing)
    (order_ : order.Perm s.registered) : s.Covers (.next order) := by
  intro j svc found
  cases unlisted : svc.unlisted with
  | true =>
    left
    have early := settled svc (List.mem_of_getElem? found)
    unfold Service.unlisted at unlisted
    unfold Service.hasStored
    split at unlisted <;> simp_all
  | false =>
    right
    refine order_.mem_iff.mpr (List.mem_filter.mpr ⟨List.mem_range.mpr (lookup_lt found), ?_⟩)
    simpa using at_iff.mpr ⟨svc, found, sound.registry.listed j svc found unlisted⟩

theorem Covered.shutdown (covered : s.Covered) {place' : ShutdownPlace} (enabled : s.Enabled a) (ended : (s.next a).Ended)
    (old : (s.next a).services.length = s.services.length)
    (shutdowns : (s.next a).shutdowns = s.shutdowns.modify k fun _ => place') (covers : (s.next a).Covers place')
    (stopping : (s.next a).stopping = true) : (s.next a).Covered where
  ended := ended
  covers := by
    rw [shutdowns]
    exact forall_modify (fun _ _ => covers) fun i other _ there => covers_next enabled old (covered.covers i other there)
  flagged _ _ _ _ := stopping

theorem covered_next (sound : s.Sound) (covered : s.Covered) (inTime : s.InTime a) (enabled : s.Enabled a) :
    (s.next a).Covered := by
  have ended := ended_next sound covered.ended enabled
  have old := services_old inTime
  -- the calls of `System.Stop` stay where they are
  have rest : (s.next a).shutdowns = s.shutdowns → (s.next a).stopping = s.stopping → (s.next a).Covered := by
    intro shutdowns stopping
    refine ⟨ended, fun k place found => ?_, fun k place found other => ?_⟩
    · rw [shutdowns] at found
      rcases old with same | ⟨_, none⟩
      · exact covers_next enabled same (covered.covers k place found)
      · have early := none place (List.mem_of_getElem? found)
        cases place <;> trivial
    · rw [shutdowns] at found
      rw [stopping]
      exact covered.flagged k place found other
  cases a with
  | shutdown =>
    refine ⟨ended, fun k place found => ?_, fun k place found other => ?_⟩
    · rcases lookup_append found with was | ⟨_, rfl⟩
      · exact covers_next enabled rfl (covered.covers k place was)
      · trivial
    · rcases lookup_append found with was | ⟨_, rfl⟩
      · exact covered.flagged k place was other
      · exact absurd rfl other
  | flag k => exact covered.shutdown enabled ended rfl rfl trivial rfl
  | snapshot k order =>
    refine covered.shutdown enabled ended rfl rfl (covers_next enabled rfl ?_) (covered.flagged k _ enabled.1 (by simp))
    exact covers_snapshot sound inTime enabled.2
  | callStop k j rest =>
    have covers := covered.covers k _ enabled
    refine covered.shutdown enabled ended rfl rfl (fun i svc found => ?_) (covered.flagged k _ enabled (by simp))
    have last : At (s.calls ++ [⟨j, .stop⟩]) s.calls.length fun call => call.service = j := (at_last _ _).mpr rfl
    have known := covers i svc found
    grind
  | stopReturned k c rest ok =>
    have covers := covered.covers k _ enabled.1
    refine covered.shutdown enabled ended rfl rfl ?_ (covered.flagged k _ enabled.1 (by simp))
    cases ok with
    | false => trivial
    | true =>
      intro i svc found
      rcases covers i svc found with stored | later | here
      · exact .inl stored
      · exact .inr later
      · -- its `Stop` has returned nil
        obtain ⟨call, there, rfl⟩ := at_iff.mp here
        have returned : s.CallAt c call.service (.stopReturned true) := by
          rw [CallAt, there, ← enabled.2.here there]
        exact .inl ((covered.ended c _ returned).here found)
  | shutdownDone k =>
    have covers := covered.covers k _ enabled
    refine covered.shutdown enabled ended rfl rfl (fun i svc found => ?_) (covered.flagged k _ enabled (by simp))
    exact (covers i svc found).resolve_right List.not_mem_nil
  | _ => exact rest (by grind) (by grind)

/-- Once `System.Stop` has returned nil, every service is in the state `stopped` and none is reserved any more. -/
def StopIsFinal (s : System) : Prop :=
  .returned true ∈ s.shutdowns → (∀ svc ∈ s.services, svc.state = .stopped) ∧
    ∀ name, s.reserveCheck name = .returned (.error (.bare .serviceStopping))

theorem Covered.stopIsFinal (covered : s.Covered)
    (steady : ∀ (j : Nat) (svc : Service), s.services[j]? = some svc → svc.Steady) : s.StopIsFinal := by
  intro returned
  obtain ⟨k, found⟩ := List.getElem?_of_mem returned
  refine ⟨fun svc member => ?_, fun name => ?_⟩
  · obtain ⟨j, there⟩ := List.getElem?_of_mem member
    exact (steady j svc there).ended (covered.covers k _ found j svc there)
  · simp [reserveCheck, covered.flagged k _ found nofun]

/-- In every run whose actions are all in time, and whose stores by `Start` and `Stop` all find the state that their call
has loaded, `System.Stop` is final. -/
theorem stopIsFinal_of_inTime (actions : List Action) (s : System) (ran : machine.run {} actions = some s)
    (inTime : machine.Meets (fun s a => s.InTime a ∧ s.StoresLoaded a) {} actions) : s.StopIsFinal := by
  have known := Machine.run_keeps_where
    (I := fun s => s.Sound ∧ s.Covered ∧ ∀ (j : Nat) (svc : Service), s.services[j]? = some svc → svc.Steady)
    (fun s a known allowed enabled => ⟨sound_next known.1 enabled, covered_next known.1 known.2.1 allowed.1 enabled,
      steady_next known.1 known.2.2 allowed.2 enabled⟩) ran inTime
    ⟨sound_initial, ⟨fun _ _ at_ => by simp [CallAt] at at_, fun _ _ found => by simp at found,
      fun _ _ found => by simp at found⟩, fun _ _ found => by simp at found⟩
  exact known.2.1.stopIsFinal known.2.2

def stopsAll : List Action :=
  [.reserve "a", .reserveCheck 0 "a", .reserveInsert 0 "a", .reserve "b", .reserveCheck 1 "b", .reserveInsert 1 "b",
    .start 1, .startLoad 0 1, .startStore 0 1, .shutdown, .flag 0, .snapshot 0 [1, 0],
    .callStop 0 1 [0], .stopLoad 1 1, .stopStore 1 1, .beginFinalize 1 1 .afterLoop, .loopExit 1, .finalizerWake 1,
    .unpublish 1, .finalizerStore 1, .finalizerClose 1, .finalized 1 1, .stopReturned 0 1 [0] true,
    .callStop 0 0 [], .stopLoad 2 0, .beginFinalize 2 0 .immediate, .finalizerWake 0, .unpublish 0, .finalizerStore 0,
    .finalizerClose 0, .finalized 2 0, .stopReturned 0 2 [] true, .shutdownDone 0]

theorem stopIsFinal_of_inTime_all :
    (machine.after {} stopsAll).StopIsFinal ∧ .returned true ∈ (machine.after {} stopsAll).shutdowns ∧
      (machine.after {} stopsAll).services.length = 2 :=
  ⟨stopIsFinal_of_inTime stopsAll _ (Machine.run_after (by decide +kernel)) (by decide +kernel), by decide +kernel,
    by decide +kernel⟩

/-- `Reserve` has passed the flag when `System.Stop` begins, and inserts the service when it has returned nil. The service
starts and runs. -/
theorem reserved_after_stop :
    ∃ s, machine.run {}
        [.reserve "a", .reserveCheck 0 "a", .shutdown, .flag 0, .snapshot 0 [], .shutdownDone 0, .reserveInsert 0 "a",
          .start 0, .startLoad 0 0, .startStore 0 0] = some s ∧
      s.shutdowns = [.returned true] ∧ s.services.map (fun svc => (svc.name, svc.state, svc.finalizing)) = [("a", .running, none)] ∧
      s.calls = [⟨0, .startReturned true⟩] := by
  refine ⟨_, Machine.run_after (by decide +kernel), ?_⟩
  decide +kernel

end System

end Skygo.Cluster.Stopping
