import Skygo.Transport.NodeSound

/-! The inbound connections that a `Reload` has to close: those whose node it changed after their handshake was
checked. -/

set_option autoImplicit false

attribute [-instance] instBooleanRingBool

namespace Skygo.Transport

open Semantics

namespace Sweep

def conns (sweep : Sweep) : List Nat :=
  match sweep.place with
  | .entered conns | .detaching _ _ conns | .closing _ conns | .revoking conns => conns
  | _ => []

end Sweep

def AcceptPlace.Registered : AcceptPlace → Prop
  | .reading | .leaving | .gone => True
  | _ => False

namespace Node

variable {s : Node} {w x : Nat}

/-- A connection that a `Reload` has to close. -/
def Revoked (s : Node) (w x : Nat) : Prop := At s.accepts x fun accept => w ∈ accept.revoked

def Dispatching (s : Node) (x : Nat) : Prop :=
  At s.accepts x fun accept => accept.place = .reading ∧ accept.closed = false

instance (s : Node) (w x : Nat) : Decidable (s.Revoked w x) := inferInstanceAs (Decidable (At ..))
instance (s : Node) (x : Nat) : Decidable (s.Dispatching x) := inferInstanceAs (Decidable (At ..))

structure Inbounds (s : Node) : Prop where
  /-- An open connection that is to be closed is on the list of the `Reload`. -/
  listed : ∀ (x : Nat) (accept : Accept), s.accepts[x]? = some accept → accept.place = .reading →
    accept.closed = false → ∀ w ∈ accept.revoked, At s.sweeps w fun sweep => x ∈ sweep.conns
  fresh : ∀ (x : Nat) (accept : Accept), s.accepts[x]? = some accept → ¬ accept.place.Registered → accept.closed = false
  entered : ∀ (x : Nat) (accept : Accept), s.accepts[x]? = some accept → ∀ w ∈ accept.revoked,
    At s.sweeps w fun sweep => sweep.isReload = true ∧ sweep.place ≠ .called ∧ sweep.place ≠ .returned false
  conns : ∀ (w : Nat) (sweep : Sweep), s.sweeps[w]? = some sweep → ∀ x ∈ sweep.conns,
    At s.accepts x fun accept => accept.place.Registered

/-- A connection goes on with its handshake only if no `Reload` has changed its node since the check. -/
def Unrevoked (s : Node) : Action → Prop
  | .register x => s.stopping = false → At s.accepts x fun accept => accept.revoked = []
  | _ => True

instance (s : Node) (a : Action) : Decidable (s.Unrevoked a) := by
  rcases a with _ | _ <;> dsimp only [Unrevoked] <;> infer_instance

attribute [grind] Sweep.conns AcceptPlace.Registered Unrevoked

@[grind →]
theorem registered_of {concerns : String → Bool} (member : x ∈ s.registered concerns) :
    At s.accepts x fun accept => accept.place.Registered := by
  obtain ⟨_, known⟩ := List.mem_filter.mp member
  refine (of_decide_eq_true known).mono fun accept mine => ?_
  rcases mine.1 with place | place <;> simp [AcceptPlace.Registered, place]

theorem mem_registered {concerns : String → Bool} {accept : Accept} (found : s.accepts[x]? = some accept)
    (reading : accept.place = .reading) (concerned : concerns accept.remoteNode = true) : x ∈ s.registered concerns :=
  List.mem_filter.mpr ⟨List.mem_range.mpr (lookup_lt found), decide_eq_true (at_iff.mpr ⟨accept, found, .inl reading, concerned⟩)⟩

section Steps

variable {t : Node} {action : Action}

inductive AcceptMoves (s t : Node) (x : Nat) (accept : Accept) : Action → Accept → Prop where
  | same (action : Action) : AcceptMoves s t x accept action accept
  | marks (w : Nat) (changed : List String) :
      (At t.sweeps w fun sweep => sweep.isReload = true ∧ sweep.place = .entered (s.registered changed.contains)) →
      AcceptMoves s t x accept (.enter w) (accept.mark w changed)
  | checks (place : AcceptPlace) : accept.place = .checking → ¬ place = .reading → ¬ place = .leaving →
      AcceptMoves s t x accept (.check x) { accept with place := place }
  | acks (ok : Bool) : accept.place = .acking →
      AcceptMoves s t x accept (.ack x ok) { accept with place := if ok then .registering else .gone }
  | refuses : AcceptMoves s t x accept (.register x) { accept with closed := true, place := .gone }
  | registers : accept.place = .registering → s.stopping = false →
      AcceptMoves s t x accept (.register x) { accept with place := .reading }
  | fails : AcceptMoves s t x accept (.readFailed x) { accept with closed := true, place := .leaving }
  | leaves : AcceptMoves s t x accept (.deregister x) { accept with place := .gone }
  | closes (w : Nat) (conns : List Nat) : s.SweepAt w (.revoking (x :: conns)) →
      AcceptMoves s t x accept (.revoke w x conns) { accept with closed := true }

attribute [local grind] AcceptMoves

theorem accept_origin (enabled : s.Enabled action) (steps : s.Steps action t) {later : Accept}
    (found : t.accepts[x]? = some later) :
    (∃ accept, s.accepts[x]? = some accept ∧ s.AcceptMoves t x accept action later) ∨
      s.accepts[x]? = none ∧ later.place = .checking ∧ later.closed = false ∧ later.revoked = [] := by
  have same (was : s.accepts[x]? = some later) : ∃ accept, s.accepts[x]? = some accept ∧
      s.AcceptMoves t x accept action later := ⟨later, was, .same action⟩
  have here {y : Nat} {f : Accept → Accept} (found : (s.accepts.modify y f)[x]? = some later) :=
    modify_origin (M := fun accept later => s.AcceptMoves t x accept action later) found fun _ => .same _
  cases steps with
  | plain =>
    cases action with
    | accept => grind
    | check y =>
      left
      dsimp only [next] at found
      split at found
      · exact here found (by grind)
      · exact same found
    | register => grind
    | ack | readFailed | deregister | revoke => exact .inl (here found (by grind))
    | _ => exact .inl (same (by first | exact found | grind))
  | reload w sweep snapshot has kind =>
    left
    rw [List.getElem?_map] at found
    obtain ⟨accept, was, rfl⟩ := Option.map_eq_some_iff.mp found
    exact ⟨accept, was, .marks w _ (by grind)⟩
  | _ => exact .inl (same found)

theorem accepts_le (steps : s.Steps action t) : s.accepts.length ≤ t.accepts.length := by
  cases steps with
  | plain => cases action <;> grind
  | _ => grind

section

variable (inbounds : s.Inbounds) (enabled : s.Enabled action) (steps : s.Steps action t)
include inbounds enabled steps

theorem Inbounds.fresh_next (x : Nat)
    (accept : Accept) (found : t.accepts[x]? = some accept) (other : ¬ accept.place.Registered) : accept.closed = false := by
  rcases accept_origin enabled steps found with ⟨old, was, moves⟩ | ⟨-, -, live, -⟩
  · have before := inbounds.fresh x old was
    have conns (w : Nat) (sweep : Sweep) (has : s.sweeps[w]? = some sweep) := inbounds.conns w sweep has x
    clear inbounds
    cases moves <;> grind
  · exact live

theorem Inbounds.entered_next (x : Nat)
    (accept : Accept) (found : t.accepts[x]? = some accept) (w : Nat) (member : w ∈ accept.revoked) :
    At t.sweeps w fun sweep => sweep.isReload = true ∧ sweep.place ≠ .called ∧ sweep.place ≠ .returned false := by
  rcases accept_origin enabled steps found with ⟨old, was, moves⟩ | ⟨-, -, -, none⟩
  · have before (member : w ∈ old.revoked) : At t.sweeps w fun sweep =>
        sweep.isReload = true ∧ sweep.place ≠ .called ∧ sweep.place ≠ .returned false := by
      obtain ⟨sweep, has, known⟩ := at_iff.mp (inbounds.entered x old was w member)
      obtain ⟨later, after, moved⟩ := sweep_moves enabled steps has
      clear inbounds
      cases moved <;> grind
    clear inbounds
    cases moves <;> grind
  · simp [none] at member

theorem Inbounds.conns_next (w : Nat)
    (sweep : Sweep) (found : t.sweeps[w]? = some sweep) (x : Nat) (member : x ∈ sweep.conns) :
    At t.accepts x fun accept => accept.place.Registered := by
  have kept (known : At s.accepts x fun accept => accept.place.Registered) :
      At t.accepts x fun accept => accept.place.Registered := by
    obtain ⟨accept, has, registered⟩ := at_iff.mp known
    obtain ⟨later, after⟩ := lookup_of_le (accepts_le steps) has
    rcases accept_origin enabled steps after with ⟨old, was, moves⟩ | ⟨absent, -⟩
    · cases has.symm.trans was
      refine at_iff.mpr ⟨later, after, ?_⟩
      cases moves <;> grind
    · cases has.symm.trans absent
  rcases sweep_origin enabled steps found with ⟨old, was, moved⟩ | ⟨-, called⟩
  · have before := inbounds.conns w old was x
    clear inbounds
    cases moved <;> grind
  · simp [Sweep.conns, called] at member

end

theorem Inbounds.listed_next (inbounds : s.Inbounds) (unrevoked : s.Unrevoked action) (enabled : s.Enabled action)
    (steps : s.Steps action t) (x : Nat) (accept : Accept) (found : t.accepts[x]? = some accept)
    (reading : accept.place = .reading) (live : accept.closed = false) (w : Nat) (member : w ∈ accept.revoked) :
    At t.sweeps w fun sweep => x ∈ sweep.conns := by
  rcases accept_origin enabled steps found with ⟨old, was, moves⟩ | ⟨-, -, -, none⟩
  · have before (reads : old.place = .reading) (opens : old.closed = false) (member : w ∈ old.revoked) :
        At t.sweeps w fun sweep => x ∈ sweep.conns := by
      obtain ⟨sweep, has, listed⟩ := at_iff.mp (inbounds.listed x old was reads opens w member)
      obtain ⟨later, after, moved⟩ := sweep_moves enabled steps has
      clear inbounds moves
      cases moved <;> grind
    clear inbounds
    cases moves with
    | marks v changed entered =>
      -- a connection that is marked for the sweep is on its list
      have listed (changes : changed.contains old.remoteNode = true) (reads : old.place = .reading) :=
        mem_registered was reads changes
      grind
    | _ => grind
  · simp [none] at member

end Steps

theorem inbounds_next {action : Action} (inbounds : s.Inbounds) (unrevoked : s.Unrevoked action)
    (enabled : s.Enabled action) : (s.next action).Inbounds := by
  have steps := next_steps s action
  exact ⟨inbounds.listed_next unrevoked enabled steps, inbounds.fresh_next enabled steps,
    inbounds.entered_next enabled steps, inbounds.conns_next enabled steps⟩

theorem inbounds_initial (nodeID : String) (connectionsPerPeer : Nat) (registry : Snapshot) :
    (initial nodeID connectionsPerPeer registry).Inbounds := by
  constructor <;> simp [initial]

/-- After a `Reload` has returned, no connection that was checked before and whose node it changed dispatches. -/
def Revokes (s : Node) : Prop :=
  ∀ w x, (At s.sweeps w fun sweep => sweep.isReload = true ∧ sweep.place = .returned true) → s.Revoked w x →
    ¬ s.Dispatching x

theorem Inbounds.revokes_all (inbounds : s.Inbounds) : s.Revokes := by
  intro w x returned revoked dispatching
  obtain ⟨accept, found, member⟩ := at_iff.mp revoked
  obtain ⟨reading, live⟩ := dispatching.here found
  obtain ⟨sweep, has, listed⟩ := at_iff.mp (inbounds.listed x accept found reading live w member)
  simp [Sweep.conns, (returned.here has).2] at listed

theorem run_revoking (conns : List Nat) : ∀ s : Node, (At s.sweeps w fun sweep => sweep.isReload = true ∧
    sweep.place = .revoking conns) → x ∉ conns → s.Revoked w x → s.Dispatching x →
    ∃ later t, machine.run s later = some t ∧ ¬ t.Revokes := by
  induction conns with
  | nil =>
    intro s at_ _ revoked dispatching
    obtain ⟨sweep, has, reload, place⟩ := at_iff.mp at_
    refine ⟨[.finish w], s.next (.finish w), Machine.run_cons.mpr ⟨at_iff.mpr ⟨sweep, has, place⟩, rfl⟩, fun revokes => ?_⟩
    exact revokes w x (at_iff.mpr ⟨_, lookup_modify_self has, reload, rfl⟩) revoked dispatching
  | cons y rest ih =>
    intro s at_ other revoked dispatching
    obtain ⟨sweep, has, reload, place⟩ := at_iff.mp at_
    obtain ⟨differs, others⟩ := not_or.mp fun either => other (List.mem_cons.mpr either)
    obtain ⟨later, t, ran, fails⟩ := ih (s.next (.revoke w y rest))
      (at_iff.mpr ⟨_, lookup_modify_self has, reload, rfl⟩) others (revoked.modify fun here => absurd here differs)
      (dispatching.modify fun here => absurd here differs)
    exact ⟨.revoke w y rest :: later, t, Machine.run_cons.mpr ⟨at_iff.mpr ⟨sweep, has, place⟩, ran⟩, fails⟩

theorem Inbounds.outlives (inbounds : s.Inbounds) (enabled : s.Enabled (.register x))
    (late : ¬ s.Unrevoked (.register x)) :
    ∃ later t, machine.run s (.register x :: later) = some t ∧ ¬ t.Revokes := by
  obtain ⟨accept, found, place⟩ := at_iff.mp enabled.1
  simp only [Unrevoked, not_forall] at late
  obtain ⟨going, late⟩ := late
  have marked : accept.revoked ≠ [] := fun none => late (at_iff.mpr ⟨accept, found, none⟩)
  obtain ⟨w, member⟩ := List.exists_mem_of_ne_nil _ marked
  obtain ⟨sweep, has, reload, begun, swept⟩ := at_iff.mp (inbounds.entered x accept found w member)
  have live := inbounds.fresh x accept found (by simp [place, AcceptPlace.Registered])
  have next : s.next (.register x) = s.setAccept x .reading := by
    simp [Node.next, going]
  have revoked : (s.setAccept x .reading).Revoked w x := at_iff.mpr ⟨_, lookup_modify_self found, member⟩
  have dispatching : (s.setAccept x .reading).Dispatching x := at_iff.mpr ⟨_, lookup_modify_self found, rfl, live⟩
  have finishes : ∃ later t, machine.run (s.setAccept x .reading) later = some t ∧ ¬ t.Revokes := by
    -- The mutex of the node is free: the `Reload` is through with the slots.
    have free : sweep.holdsNode = false := by
      simpa using List.any_eq_false.mp enabled.2 sweep (List.mem_of_getElem? has)
    cases at_ : sweep.place with
    | revoking conns =>
      refine run_revoking conns (s.setAccept x .reading) (at_iff.mpr ⟨sweep, has, reload, at_⟩) (fun listed => ?_) revoked dispatching
      have registered := (inbounds.conns w sweep has x (by simpa [Sweep.conns, at_] using listed)).here found
      simp [place, AcceptPlace.Registered] at registered
    | returned ok =>
      cases ok with
      | false => exact absurd at_ swept
      | true =>
        refine ⟨[], _, rfl, fun revokes => ?_⟩
        exact revokes w x (at_iff.mpr ⟨sweep, has, reload, at_⟩) revoked dispatching
    | _ => simp_all [Sweep.holdsNode]
  obtain ⟨later, t, ran, fails⟩ := finishes
  refine ⟨later, t, Machine.run_cons.mpr ⟨enabled, ?_⟩, fails⟩
  show machine.run (s.next (.register x)) later = some t
  rw [next, ran]

/-- In every run in which no connection is registered after a `Reload` has changed its node, `Reload` revokes the
connections of the nodes that it changes; and a run that goes on to register such a connection comes to a state in which
it dispatches after the `Reload` has returned. -/
theorem inbound_revoked (nodeID : String) (connectionsPerPeer : Nat) (registry : Snapshot) (actions : List Action)
    (s : Node) (ran : machine.run (initial nodeID connectionsPerPeer registry) actions = some s)
    (unrevoked : machine.Meets Unrevoked (initial nodeID connectionsPerPeer registry) actions) :
    s.Revokes ∧
      ∀ action, s.Enabled action → ¬ s.Unrevoked action →
        ∃ later t, machine.run s (action :: later) = some t ∧ ¬ t.Revokes := by
  have inbounds : s.Inbounds := by
    refine Machine.run_keeps_where (I := Inbounds) ?_ ran unrevoked (inbounds_initial ..)
    exact fun s action holds unrevoked enabled => inbounds_next holds unrevoked enabled
  refine ⟨inbounds.revokes_all, fun action enabled late => ?_⟩
  cases action with
  | register x => exact inbounds.outlives enabled late
  | _ => exact absurd trivial late

def listener : Node := initial "a" 1 [("a", "a:1"), ("b", "b:1")]

def revokedInTime : List Action :=
  [.accept "b", .check 0, .ack 0 true, .register 0, .reload [("a", "a:1")], .enter 0, .lockManager 0 [0],
    .unlockManager 0 [] [0], .leave 0 [0], .revoke 0 0 [], .finish 0]

theorem inbound_revoked_open :
    (machine.after listener revokedInTime).Revoked 0 0 ∧
      (machine.after listener revokedInTime).SweepAt 0 (.returned true) ∧
      (machine.after listener revokedInTime).Revokes :=
  ⟨by decide +kernel, by decide +kernel,
    (inbound_revoked "a" 1 _ revokedInTime _ (Machine.run_after (by decide +kernel)) (by decide +kernel)).1⟩

def registeredAfterReload : List Action :=
  [.accept "b", .check 0, .reload [("a", "a:1")], .enter 0, .lockManager 0 [], .unlockManager 0 [] [], .leave 0 [],
    .finish 0, .ack 0 true, .register 0]

theorem registered_after_reload :
    ∃ s, machine.run listener registeredAfterReload = some s ∧ s.registry.endpoint "b" = "" ∧
      s.SweepAt 0 (.returned true) ∧ (At s.accepts 0 fun accept =>
        accept.remoteNode = "b" ∧ 0 ∈ accept.revoked ∧ accept.place = .reading ∧ accept.closed = false) ∧
      ¬ s.Revokes := by
  refine ⟨_, Machine.run_after (by decide +kernel), by decide +kernel, by decide +kernel, by decide +kernel, fun revokes => ?_⟩
  exact revokes 0 0 (by decide +kernel) (by decide +kernel) (by decide +kernel)

end Node

end Skygo.Transport
