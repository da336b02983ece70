import Skygo.Cluster.Stopping

/-! The life of a service moves forward, as long as nobody stores its state between another's load and store.

The lock orders `Start` and `Stop` among themselves, but the finalizer stores the state without it. A call that has
loaded `reserved` or `running` may find the service stopped when it stores. These stores are the only ones that move
the state back, and the only way in which a `Start` returns nil after a `Stop` has.
-/

set_option autoImplicit false

attribute [-instance] instBooleanRingBool

namespace Skygo.Cluster.Stopping

open Semantics Actor

def rank : ServiceState → Nat
  | .reserved => 0
  | .running => 1
  | .stopping => 2
  | .stopped => 3

/-- `later` may come after `earlier`: states move forward, and no `Start` returns nil after a `Stop` has. -/
def Event.Follows : Event → Event → Prop
  | .stored earlier, .stored later => rank earlier ≤ rank later
  | .stopReturned, .startReturned => False
  | _, _ => True

namespace Service

def unlisted (svc : Service) : Bool :=
  match svc.finalizing with
  | some .storing | some .closing | some .finished => true
  | _ => false

def hasStored (svc : Service) : Bool :=
  match svc.finalizing with
  | some .closing | some .finished => true
  | _ => false

end Service

variable {s : System} {a : System.Action} {j : Nat} {svc : Service}

attribute [grind] rank Event.Follows Service.unlisted Service.hasStored

theorem begin_eq (finalizing : Option Finalizing) (kind : Finalizer) :
    (finalizing <|> some (.waiting kind)) = if finalizing = none then some (.waiting kind) else finalizing := by
  cases finalizing <;> rfl

namespace Service

structure Recorded (svc : Service) : Prop where
  current : .stored svc.state ∈ svc.events
  stopped : svc.state = .stopped → svc.hasStored = true
  returned : .stopReturned ∈ svc.events → svc.hasStored = true
  stored : svc.hasStored = true → .stored .stopped ∈ svc.events

structure Steady (svc : Service) : Prop where
  forward : svc.events.Pairwise Event.Follows
  highest : ∀ state, .stored state ∈ svc.events → rank state ≤ rank svc.state
  ended : svc.hasStored = true → svc.state = .stopped

theorem rank_le_stopped (state : ServiceState) : rank state ≤ rank .stopped := by
  cases state <;> decide

theorem Steady.store (steady : svc.Steady) (state : ServiceState) (rises : rank svc.state ≤ rank state) :
    (svc.events ++ [Event.stored state]).Pairwise Event.Follows ∧
      ∀ early, .stored early ∈ svc.events ++ [.stored state] → rank early ≤ rank state := by
  refine ⟨List.pairwise_append.mpr ⟨steady.forward, List.pairwise_singleton _ _, fun event member last is => ?_⟩,
    fun early member => ?_⟩
  · rw [List.mem_singleton.mp is]
    cases event with
    | stored early => exact Nat.le_trans (steady.highest early member) rises
    | startReturned | stopReturned => trivial
  · rcases List.mem_append.mp member with old | new
    · exact Nat.le_trans (steady.highest early old) rises
    · cases List.mem_singleton.mp new
      exact Nat.le_refl _

theorem not_forward {state : ServiceState} {rest : List Event} (recorded : svc.Recorded) (stopped : svc.state = .stopped)
    (back : rank state < rank .stopped) : ¬ (svc.events ++ .stored state :: rest).Pairwise Event.Follows := by
  intro forward
  have follows := (List.pairwise_append.mp forward).2.2 _ (stopped ▸ recorded.current) _ List.mem_cons_self
  exact absurd follows (Nat.not_le.mpr back)

attribute [grind] Recorded Steady

end Service

def Place.Fits : Place → ServiceState → Prop
  | .startStoring, state => state = .reserved ∨ state = .stopped
  | .stopStoring, state => state = .running ∨ state = .stopped
  | _, _ => True

namespace System

def Absent (s : System) (j : Nat) : Prop := (∀ name, s.byName name ≠ some j) ∧ ∀ address, s.byAddress address ≠ some j

attribute [grind] Absent Place.Fits

structure Registry (s : System) : Prop where
  named : ∀ name j, s.byName name = some j → At s.services j fun svc => svc.name = name
  addressed : ∀ address j, s.byAddress address = some j → At s.services j fun svc => svc.address = address
  fresh : ∀ (j : Nat) (svc : Service), s.services[j]? = some svc → svc.address ≤ s.nextAddress
  listed : ∀ (j : Nat) (svc : Service), s.services[j]? = some svc → svc.unlisted = false →
    s.byAddress svc.address = some j
  absent : ∀ (j : Nat) (svc : Service), s.services[j]? = some svc → svc.unlisted = true → s.Absent j

theorem drop_iff {α : Type} [DecidableEq α] {map : α → Option Nat} {key other : α} {i : Nat} :
    (if map key = some j then Function.update map key none else map) other = some i ↔
      map other = some i ∧ ¬ (other = key ∧ i = j) := by
  split <;> grind [Function.update_apply]

theorem maps_next (kept : ∀ r name, a ≠ .reserveInsert r name) (listed : ∀ j, a ≠ .unpublish j) :
    (s.next a).byName = s.byName ∧ (s.next a).byAddress = s.byAddress ∧ (s.next a).nextAddress = s.nextAddress := by
  cases a <;> first | exact ⟨rfl, rfl, rfl⟩ | grind

def Listed (svc svc' : Service) : Prop :=
  svc'.name = svc.name ∧ svc'.address = svc.address ∧ svc'.unlisted = svc.unlisted

theorem services_next (enabled : s.Enabled a) (listed : ∀ j, a ≠ .unpublish j) :
    Grows Listed s.services (s.next a).services := by
  intro j svc found
  unfold Listed
  cases a with
  | startLoad | stopLoad | stopStore =>
    dsimp only [next, withService, startLoad, stopLoad, stopStore]
    grind
  | beginFinalize =>
    dsimp only [next, beginFinalize]
    simp only [begin_eq]
    grind
  | _ => first | exact ⟨svc, found, rfl, rfl, rfl⟩ | grind

theorem length_next (kept : ∀ r name, a ≠ .reserveInsert r name) : (s.next a).services.length = s.services.length := by
  cases a <;> first | rfl | grind

theorem Registry.reserve (registry : s.Registry) (r : Nat) (name : String) : (s.reserveInsert r name).Registry := by
  obtain ⟨named, addressed, fresh, listed, absent⟩ := registry
  unfold Absent at absent
  cases taken : s.byName name with
  | none =>
    have last := List.getElem?_concat_length (l := s.services) (a := { name := name, address := s.nextAddress + 1 })
    constructor <;> simp only [reserveInsert, setReservation, taken, Option.isSome_none, Bool.false_eq_true, if_false,
      Function.update_apply, Absent, ne_eq] <;> grind
  | some i =>
    simp only [reserveInsert, taken, Option.isSome_some, if_true]
    exact ⟨named, addressed, fresh, listed, absent⟩

theorem Registry.unpublish (registry : s.Registry) (found : s.services[j]? = some svc) : (s.unpublish j svc).Registry := by
  obtain ⟨named, addressed, fresh, listed, absent⟩ := registry
  unfold Absent at absent
  constructor <;> simp only [System.unpublish, drop_iff, Absent, ne_eq] <;> grind

theorem Registry.keep {s' : System} (registry : s.Registry)
    (later : Grows Listed s.services s'.services) (same : s'.services.length = s.services.length)
    (maps : s'.byName = s.byName ∧ s'.byAddress = s.byAddress ∧ s'.nextAddress = s.nextAddress) :
    s'.Registry := by
  obtain ⟨byName, byAddress, nextAddress⟩ := maps
  obtain ⟨named, addressed, fresh, listed, absent⟩ := registry
  have earlier : ∀ (j : Nat) (svc' : Service), s'.services[j]? = some svc' →
      ∃ svc, s.services[j]? = some svc ∧ Listed svc svc' := by
    intro j svc' found
    grind [Grows]
  unfold Listed at earlier
  unfold Absent at absent
  refine ⟨?_, ?_, ?_, ?_, ?_⟩
  · rw [byName]
    grind [Grows]
  · rw [byAddress]
    grind [Grows]
  · grind [Grows]
  · rw [byAddress]
    grind [Grows]
  · unfold Absent
    rw [byName, byAddress]
    grind [Grows]

theorem registry_next (registry : s.Registry) (enabled : s.Enabled a) : (s.next a).Registry := by
  have keep (later : Grows Listed s.services (s.next a).services) := registry.keep later
  cases a with
  | reserveInsert r name => exact registry.reserve r name
  | unpublish j =>
    obtain ⟨svc, found, _⟩ := at_iff.mp enabled
    simp only [next, withService, found]
    exact registry.unpublish found
  | _ => exact keep (services_next enabled nofun) (length_next nofun) (maps_next nofun nofun)

def Locked (s : System) : Prop :=
  ∀ c j place, s.CallAt c j place → place.stores = true → At s.services j fun svc => svc.mu = some c ∧ place.Fits svc.state

attribute [grind] Locked

theorem locked_next (locked : s.Locked) (enabled : s.Enabled a) : (s.next a).Locked := by
  intro c j place at_ stores
  have mine := locked c j place
  cases a with
  | finalizerStore => cases place <;> grind
  | _ => first | exact mine at_ stores | grind

/-- The state of every service has only moved forward. Where a `Stop` has returned nil, the service is stopped and in
neither map, and no `Start` has returned nil since. -/
def Monotone (s : System) : Prop :=
  ∀ (j : Nat) (svc : Service), s.services[j]? = some svc → svc.events.Pairwise Event.Follows ∧
    (.stopReturned ∈ svc.events → svc.state = .stopped ∧ s.Absent j)

/-- A store by `Start` or `Stop` finds the state that its call has loaded. -/
def StoresLoaded (s : System) : Action → Prop
  | .startStore _ j => At s.services j fun svc => svc.state = .reserved
  | .stopStore _ j => At s.services j fun svc => svc.state = .running
  | _ => True

instance (s : System) (a : Action) : Decidable (s.StoresLoaded a) := by
  rcases a with _ | _ <;> dsimp only [StoresLoaded] <;> infer_instance

theorem recorded_next (recorded : ∀ (j : Nat) (svc : Service), s.services[j]? = some svc → svc.Recorded)
    (enabled : s.Enabled a) : ∀ (j : Nat) (svc : Service), (s.next a).services[j]? = some svc → svc.Recorded := by
  intro j svc found
  cases a with
  | startLoad | stopLoad | stopStore =>
    dsimp only [next, withService, startLoad, stopLoad, stopStore] at found
    constructor <;> grind
  | beginFinalize =>
    simp only [next, beginFinalize, begin_eq] at found
    constructor <;> grind
  | _ => first | exact recorded j svc found | (constructor <;> grind)

structure Sound (s : System) : Prop where
  registry : s.Registry
  locked : s.Locked
  recorded : ∀ (j : Nat) (svc : Service), s.services[j]? = some svc → svc.Recorded

theorem sound_next (sound : s.Sound) (enabled : s.Enabled a) : (s.next a).Sound :=
  ⟨registry_next sound.registry enabled, locked_next sound.locked enabled, recorded_next sound.recorded enabled⟩

theorem sound_initial : Sound {} where
  registry := by constructor <;> simp
  locked _ _ _ at_ := by simp [CallAt] at at_
  recorded _ _ found := by simp at found

theorem steady_next (sound : s.Sound) (steady : ∀ (j : Nat) (svc : Service), s.services[j]? = some svc → svc.Steady)
    (loaded : s.StoresLoaded a) (enabled : s.Enabled a) :
    ∀ (j : Nat) (svc : Service), (s.next a).services[j]? = some svc → svc.Steady := by
  intro j svc found
  have recorded := sound.recorded
  clear sound
  cases a with
  | startStore c i =>
    rcases lookup_modify found with ⟨rfl, old, was, rfl⟩ | ⟨_, was⟩
    · have at_ := loaded.here was
      have before := steady j old was
      obtain ⟨forward, highest⟩ := before.store .running (by simp [at_, rank])
      constructor <;> grind
    · exact steady j svc was
  | stopStore c i =>
    obtain ⟨old, there, at_⟩ := at_iff.mp loaded
    simp only [next, withService, there] at found
    rcases lookup_modify found with ⟨rfl, old, was, rfl⟩ | ⟨_, was⟩
    · have before := steady j old was
      obtain ⟨forward, highest⟩ := before.store .stopping (by grind)
      constructor <;> grind
    · exact steady j svc was
  | finalizerStore i =>
    rcases lookup_modify found with ⟨rfl, old, was, rfl⟩ | ⟨_, was⟩
    · obtain ⟨forward, highest⟩ := (steady j old was).store .stopped (Service.rank_le_stopped old.state)
      exact ⟨forward, highest, fun _ => rfl⟩
    · exact steady j svc was
  | startLoad | stopLoad =>
    dsimp only [next, withService, startLoad, stopLoad] at found
    constructor <;> grind
  | beginFinalize =>
    simp only [next, beginFinalize, begin_eq] at found
    constructor <;> grind
  | _ => first | exact steady j svc found | (constructor <;> grind)

theorem Sound.monotone (sound : s.Sound) (steady : ∀ (j : Nat) (svc : Service), s.services[j]? = some svc → svc.Steady) :
    s.Monotone := by
  intro j svc found
  refine ⟨(steady j svc found).forward, fun returned => ?_⟩
  have past := (sound.recorded j svc found).returned returned
  refine ⟨(steady j svc found).ended past, sound.registry.absent j svc found ?_⟩
  unfold Service.hasStored at past
  split at past <;> simp_all [Service.unlisted]

/-- A store that finds something else than its call has loaded finds the service stopped. -/
theorem not_monotone (sound : s.Sound) (late : ¬ s.StoresLoaded a) (enabled : s.Enabled a) : ¬ (s.next a).Monotone := by
  intro monotone
  unfold StoresLoaded at late
  split at late
  · next c j =>
    obtain ⟨svc, found, _, fits⟩ := at_iff.mp (sound.locked c j _ enabled rfl)
    have stopped : svc.state = .stopped := fits.resolve_left fun same => late (at_iff.mpr ⟨svc, found, same⟩)
    exact Service.not_forward (sound.recorded j svc found) stopped (by decide)
      (monotone j _ (lookup_modify_self found)).1
  · next c j =>
    obtain ⟨svc, found, _, fits⟩ := at_iff.mp (sound.locked c j _ enabled rfl)
    have stopped : svc.state = .stopped := fits.resolve_left fun same => late (at_iff.mpr ⟨svc, found, same⟩)
    dsimp only [next] at monotone
    simp only [withService, found] at monotone
    exact Service.not_forward (sound.recorded j svc found) stopped (by decide)
      (monotone j _ (lookup_modify_self found)).1
  · exact late trivial

/-- Along every run the lives of the services are monotone, exactly if every store by `Start` or `Stop` finds the state that
its call has loaded. -/
theorem monotone_iff (actions : List Action) (s : System) (ran : machine.run {} actions = some s) :
    machine.Along Monotone {} actions ↔ machine.Meets StoresLoaded {} actions := by
  refine Machine.along_iff_meets
    (I := fun s => s.Sound ∧ ∀ (j : Nat) (svc : Service), s.services[j]? = some svc → svc.Steady)
    (fun s known => known.1.monotone known.2) (fun s a known loaded enabled => ?_)
    (fun s a known late enabled => not_monotone known.1 late enabled) ran
    ⟨sound_initial, fun _ _ found => by simp at found⟩
  exact ⟨sound_next known.1 enabled, steady_next known.1 known.2 loaded enabled⟩

/-- A service is started and stopped, and a second `Stop` and `Start` come too late. -/
theorem monotone_iff_orderly :
    machine.Along Monotone {}
      [.reserve "a", .reserveCheck 0 "a", .reserveInsert 0 "a", .start 0, .startLoad 0 0, .startStore 0 0, .stop 0, .stopLoad 1 0,
        .stopStore 1 0, .beginFinalize 1 0 .afterLoop, .loopExit 0, .finalizerWake 0, .unpublish 0, .finalizerStore 0,
        .finalizerClose 0, .finalized 1 0, .stop 0, .stopLoad 2 0, .start 0, .startLoad 3 0] :=
  (monotone_iff _ _ (Machine.run_after (by decide +kernel))).mpr (by decide +kernel)

/-- `Start` has loaded `reserved` when the finalizer of a `Stop` runs. The `Stop` returns nil, then `Start` stores
`running` and returns nil. -/
theorem started_after_stop :
    ∃ s, machine.run {}
        [.reserve "a", .reserveCheck 0 "a", .reserveInsert 0 "a", .stop 0, .stopLoad 0 0, .start 0, .startLoad 1 0,
          .beginFinalize 0 0 .immediate, .finalizerWake 0, .unpublish 0, .finalizerStore 0, .finalizerClose 0,
          .finalized 0 0, .startStore 1 0] = some s ∧
      s.calls.map Call.place = [.stopReturned true, .startReturned true] ∧
      At s.services 0 fun svc => svc.state = .running ∧
        svc.events = [.stored .reserved, .stored .stopped, .stopReturned, .stored .running, .startReturned] := by
  refine ⟨_, Machine.run_after (by decide +kernel), ?_⟩
  decide +kernel

end System

end Skygo.Cluster.Stopping
