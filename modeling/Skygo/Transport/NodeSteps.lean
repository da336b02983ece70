import Skygo.Transport.Node

/-! The steps of a node: what a step comes to, and what it does to an entry of each table. -/

set_option autoImplicit false

attribute [-instance] instBooleanRingBool

namespace Skygo.Transport

open Semantics

def PeerHandle.Same (before after : PeerHandle) : Prop :=
  after.slot = before.slot ∧ after.remoteNode = before.remoteNode ∧ after.endpoint = before.endpoint

namespace Node

variable {s t : Node} {a j k f w : Nat} {endpoint : String}

def Action.plain : Action → Bool
  | .pick .. | .turn .. | .settle .. | .enter .. => false
  | _ => true

attribute [grind] Action.plain

/-- What a step comes to. `peerFor` finds or makes its lane; in its loop it finds a peer, waits for an attempt, backs off,
or makes an attempt if the slot has no peer or one of another endpoint. `connectSlot` discards its peer, or fails or lodges
it in the slot. `Reload` and `Stop` are refused, or enter. -/
inductive Steps (s : Node) : Action → Node → Prop where
  | plain (action : Action) : action.plain = true → Steps s action (s.next action)
  | still (action : Action) : action.plain = false → Steps s action s
  | found (f j : Nat) (endpoint : String) (find : PeerFor) : s.finds[f]? = some find →
      (s.manager find.node)[find.index]? = some j →
      Steps s (.pick f endpoint) (s.setFind f (.looping j endpoint))
  | made (f : Nat) (endpoint : String) (find : PeerFor) (finds : List PeerFor) : s.finds[f]? = some find →
      s.manager find.node = [] →
      (finds = s.finds ∨ find.index < s.connectionsPerPeer ∧
        finds = (s.setFind f (.looping (s.slots.length + find.index) endpoint)).finds) →
      Steps s (.pick f endpoint) { s with
        finds := finds
        slots := s.slots ++ List.replicate s.connectionsPerPeer { node := find.node }
        manager := Function.update s.manager find.node ((List.range s.connectionsPerPeer).map (s.slots.length + ·)) }
  | finds (f j : Nat) (endpoint : String) (expired : Bool) (slot : PeerSlot) (k : Nat) : s.slots[j]? = some slot →
      slot.peer = some k → (At s.peers k fun handle => handle.closed = false ∧ handle.endpoint = endpoint) →
      Steps s (.turn f j endpoint expired) (s.setFind f (.returned (some k)))
  | waits (f j : Nat) (endpoint : String) (expired : Bool) (slot : PeerSlot) (a : Nat) : s.slots[j]? = some slot →
      slot.connecting = some a →
      Steps s (.turn f j endpoint expired) ((s.setSlot j fun _ => s.forget slot).setFind f (.waiting j endpoint a))
  | backs (f j : Nat) (endpoint : String) (expired : Bool) (slot : PeerSlot) : s.slots[j]? = some slot →
      slot.connecting = none →
      Steps s (.turn f j endpoint expired) ((s.setSlot j fun _ => s.forget slot).setFind f (.returned none))
  | makes (f j : Nat) (endpoint : String) (expired : Bool) (find : PeerFor) (slot : PeerSlot) : s.finds[f]? = some find →
      s.slots[j]? = some slot → slot.connecting = none →
      (∀ k handle, (s.forget slot).peer = some k → s.peers[k]? = some handle → handle.endpoint ≠ endpoint) →
      Steps s (.turn f j endpoint expired)
        { (s.setSlot j fun _ => { s.forget slot with
            connecting := some s.attempts.length
            state := .connecting
            endpoint := endpoint }).setFind f (.starting j endpoint s.attempts.length) with
          attempts := s.attempts ++ [{ slot := j, node := find.node, endpoint := endpoint, place := .reserved f }] }
  | discards (a : Nat) (peer : Option Nat) (attempt : Attempt) (slot : PeerSlot) : s.attempts[a]? = some attempt →
      s.slots[attempt.slot]? = some slot → Discards a attempt slot = true →
      Steps s (.settle a peer) ((s.setSlot attempt.slot fun slot =>
        if slot.connecting = some a then { slot with connecting := none } else slot).setAttempt a (.discarding peer))
  | fails (a : Nat) (attempt : Attempt) (slot : PeerSlot) : s.attempts[a]? = some attempt →
      s.slots[attempt.slot]? = some slot → Discards a attempt slot = false →
      Steps s (.settle a none) ((s.setSlot attempt.slot fun slot =>
        { slot with connecting := none, peer := none, state := .backoff }).setAttempt a .announcing)
  | lodges (a k : Nat) (attempt : Attempt) (slot : PeerSlot) : s.attempts[a]? = some attempt →
      s.slots[attempt.slot]? = some slot → Discards a attempt slot = false →
      Steps s (.settle a (some k)) ((s.setSlot attempt.slot fun slot =>
        { slot with connecting := none, peer := some k, state := .ready, everConnected := true }).setAttempt a .announcing)
  | refused (w : Nat) : Steps s (.enter w) (s.setSweep w (.returned false))
  | reload (w : Nat) (sweep : Sweep) (snapshot : Snapshot) : s.sweeps[w]? = some sweep → sweep.kind = .reload snapshot →
      Steps s (.enter w) { s with
        registry := snapshot
        accepts := s.accepts.map (Accept.mark w (RegistryManager.changed s.registry snapshot))
        sweeps := s.sweeps.modify w fun sweep => { sweep with
          changed := RegistryManager.changed s.registry snapshot
          before := s.registry
          place := .entered (s.registered (RegistryManager.changed s.registry snapshot).contains) } }
  | stop (w : Nat) (sweep : Sweep) : s.sweeps[w]? = some sweep → sweep.kind = .stop → s.stopping = false →
      Steps s (.enter w) { s.setSweep w (.entered (s.registered fun _ => true)) with stopping := true }

theorem pick_steps (s : Node) (f : Nat) (endpoint : String) : s.Steps (.pick f endpoint) (s.next (.pick f endpoint)) := by
  dsimp only [next]
  cases there : s.finds[f]? with
  | none => exact .still _ rfl
  | some find =>
    by_cases empty : s.manager find.node = []
    · simp only [slot, empty, if_true]
      split
      · next t j is =>
        obtain ⟨rfl, chosen⟩ := Prod.mk.inj is
        obtain ⟨below, rfl⟩ : find.index < s.connectionsPerPeer ∧ s.slots.length + find.index = j := by grind
        exact .made f endpoint find _ there empty (.inr ⟨below, rfl⟩)
      · next t is =>
        obtain ⟨rfl, -⟩ := Prod.mk.inj is
        exact .made f endpoint find _ there empty (.inl rfl)
    · simp only [slot, empty, if_false]
      split
      · next t j is =>
        obtain ⟨rfl, chosen⟩ := Prod.mk.inj is
        exact .found f j endpoint find there chosen
      · next t is =>
        obtain ⟨rfl, -⟩ := Prod.mk.inj is
        exact .still _ rfl

theorem turn_steps (s : Node) (f j : Nat) (endpoint : String) (expired : Bool) :
    s.Steps (.turn f j endpoint expired) (s.next (.turn f j endpoint expired)) := by
  dsimp only [next]
  split
  · next find slot there lies =>
    have connecting : (s.forget slot).connecting = slot.connecting := by grind
    unfold turn
    split
    · next k found =>
      obtain ⟨held, live⟩ := Option.filter_eq_some_iff.mp found
      exact .finds f j endpoint expired slot k lies held (of_decide_eq_true live)
    · next missing =>
      dsimp only
      rw [connecting]
      split
      · next a waits => exact .waits f j endpoint expired slot a lies waits
      · next idle =>
        split
        · exact .backs f j endpoint expired slot lies idle
        · exact .makes f j endpoint expired find slot there lies idle (by grind)
  · exact .still _ rfl

theorem settle_steps (s : Node) (a : Nat) (peer : Option Nat) : s.Steps (.settle a peer) (s.next (.settle a peer)) := by
  dsimp only [next]
  split
  · next attempt has =>
    split
    · next slot lies =>
      unfold settle
      split
      · next gone => exact .discards a peer attempt slot has lies gone
      · next keeps =>
        cases peer with
        | none => exact .fails a attempt slot has lies (by simpa using keeps)
        | some k => exact .lodges a k attempt slot has lies (by simpa using keeps)
    · exact .still _ rfl
  · exact .still _ rfl

theorem enter_steps (s : Node) (w : Nat) : s.Steps (.enter w) (s.next (.enter w)) := by
  dsimp only [next]
  split
  · next sweep has =>
    unfold enter RegistryManager.install
    split
    · next snapshot kind =>
      split
      · exact .refused w
      · next changed installed =>
        split at installed <;> cases installed
        exact .reload w sweep snapshot has kind
    · next kind =>
      split
      · exact .refused w
      · next going => exact .stop w sweep has kind (by simpa using going)
  · exact .still _ rfl

theorem next_steps (s : Node) (action : Action) : s.Steps action (s.next action) := by
  cases action with
  | pick f endpoint => exact pick_steps s f endpoint
  | turn f j endpoint expired => exact turn_steps s f j endpoint expired
  | settle a peer => exact settle_steps s a peer
  | enter w => exact enter_steps s w
  | _ => exact .plain _ rfl

variable {action : Action}

inductive SlotMoves (s t : Node) (j : Nat) (slot : PeerSlot) : Action → PeerSlot → Prop where
  | same (action : Action) : SlotMoves s t j slot action slot
  | forgets (f : Nat) (endpoint : String) (expired : Bool) : s.isClosed slot.peer = true →
      SlotMoves s t j slot (.turn f j endpoint expired) { slot with peer := none, state := .backoff }
  | reserves (f : Nat) (endpoint : String) (expired : Bool) : slot.connecting = none →
      (At t.attempts s.attempts.length fun attempt => attempt.slot = j ∧ attempt.place = .reserved f) →
      SlotMoves s t j slot (.turn f j endpoint expired) { s.forget slot with
        connecting := some s.attempts.length
        state := .connecting
        endpoint := endpoint }
  | aborts (f a : Nat) : slot.connecting = some a → t.attempts = (s.setAttempt a (.abandoned f)).attempts →
      SlotMoves s t j slot (.abort f j a) { slot with connecting := none, state := .closing }
  | discards (a : Nat) (peer : Option Nat) : slot.connecting = some a →
      t.attempts = (s.setAttempt a (.discarding peer)).attempts →
      SlotMoves s t j slot (.settle a peer) { slot with connecting := none }
  | fails (a : Nat) (attempt : Attempt) : s.attempts[a]? = some attempt → attempt.slot = j → Discards a attempt slot = false →
      t.attempts = (s.setAttempt a .announcing).attempts →
      SlotMoves s t j slot (.settle a none) { slot with connecting := none, peer := none, state := .backoff }
  | lodges (a k : Nat) (attempt : Attempt) : s.attempts[a]? = some attempt → attempt.slot = j →
      Discards a attempt slot = false → t.attempts = (s.setAttempt a .announcing).attempts →
      SlotMoves s t j slot (.settle a (some k))
        { slot with connecting := none, peer := some k, state := .ready, everConnected := true }
  | closes (k : Nat) : slot.peer = some k →
      SlotMoves s t j slot (.peerClosed k) { slot with peer := none, state := .backoff }
  | detaches (w : Nat) (todo peers conns : List Nat) :
      t.sweeps = (s.setSweep w (.detaching (todo.erase j) (peers ++ slot.peer.toList) conns)).sweeps →
      SlotMoves s t j slot (.detach w j todo peers conns) (detachSlot slot)

inductive AttemptMoves (s t : Node) (a : Nat) (attempt : Attempt) : Action → Attempt → Prop where
  | same (action : Action) : AttemptMoves s t a attempt action attempt
  | launches (f j : Nat) (endpoint : String) : s.FindAt f (.starting j endpoint a) → s.stopping = false →
      t.FindAt f (.waiting j endpoint a) →
      AttemptMoves s t a attempt (.launch f j endpoint a) { attempt with place := .dialing }
  | aborts (f j : Nat) : s.FindAt f (.aborting j a) → t.FindAt f (.aborted a) →
      AttemptMoves s t a attempt (.abort f j a) { attempt with place := .abandoned f }
  | aborted (f : Nat) : s.FindAt f (.aborted a) → t.FindAt f (.returned none) →
      AttemptMoves s t a attempt (.abortDone f a) { attempt with place := .finished }
  | dials : attempt.place = .dialing →
      t.peers = s.peers ++ [{ slot := attempt.slot, remoteNode := attempt.node, endpoint := attempt.endpoint }] →
      AttemptMoves s t a attempt (.dial a true) { attempt with place := .dialed (some s.peers.length) }
  | dialFails : attempt.place = .dialing → AttemptMoves s t a attempt (.dial a false) { attempt with place := .dialed none }
  | discards (peer : Option Nat) (slot : PeerSlot) : attempt.place = .dialed peer → s.slots[attempt.slot]? = some slot →
      Discards a attempt slot = true → AttemptMoves s t a attempt (.settle a peer) { attempt with place := .discarding peer }
  | settles (peer : Option Nat) (slot : PeerSlot) : attempt.place = .dialed peer → s.slots[attempt.slot]? = some slot →
      Discards a attempt slot = false → (At t.slots attempt.slot fun slot => slot.connecting = none ∧ slot.peer = peer) →
      AttemptMoves s t a attempt (.settle a peer) { attempt with place := .announcing }
  | discarded (peer : Option Nat) : attempt.place = .discarding peer → (∀ k ∈ peer, s.Notified k) →
      AttemptMoves s t a attempt (.discard a peer) { attempt with place := .announcing }
  | announces : attempt.place = .announcing → AttemptMoves s t a attempt (.announce a) { attempt with place := .finished }

/-- A turn of the loop of `peerFor` makes an attempt for a slot without one. -/
inductive AttemptMade (s t : Node) : Action → Nat → Attempt → Prop where
  | mk (f j : Nat) (endpoint : String) (expired : Bool) (find : PeerFor) (slot : PeerSlot) : s.finds[f]? = some find →
      s.slots[j]? = some slot → slot.connecting = none →
      (∀ k handle, (s.forget slot).peer = some k → s.peers[k]? = some handle → handle.endpoint ≠ endpoint) →
      t.peers = s.peers → t.slots[j]? = some { s.forget slot with
        connecting := some s.attempts.length
        state := .connecting
        endpoint := endpoint } →
      t.FindAt f (.starting j endpoint s.attempts.length) →
      AttemptMade s t (.turn f j endpoint expired) s.attempts.length
        { slot := j, node := find.node, endpoint := endpoint, place := .reserved f }

inductive FindMoves (s t : Node) (f : Nat) (find : PeerFor) : Action → PeerFor → Prop where
  | same (action : Action) : FindMoves s t f find action find
  | looks : find.place = .called → FindMoves s t f find (.look f) { find with place := .looked s.stopping }
  | locates : find.place = .looked false → s.registry.endpoint find.node ≠ "" →
      FindMoves s t f find (.locate f false) { find with place := .located (s.registry.endpoint find.node) }
  | picks (j : Nat) (endpoint : String) : find.place = .located endpoint →
      (t.manager find.node)[find.index]? = some j →
      FindMoves s t f find (.pick f endpoint) { find with place := .looping j endpoint }
  | finds (j : Nat) (endpoint : String) (expired : Bool) (slot : PeerSlot) (k : Nat) : find.place = .looping j endpoint →
      s.slots[j]? = some slot → slot.peer = some k →
      (At s.peers k fun handle => handle.closed = false ∧ handle.endpoint = endpoint) →
      FindMoves s t f find (.turn f j endpoint expired) { find with place := .returned (some k) }
  | waits (j : Nat) (endpoint : String) (expired : Bool) (a : Nat) : find.place = .looping j endpoint →
      FindMoves s t f find (.turn f j endpoint expired) { find with place := .waiting j endpoint a }
  | makes (j : Nat) (endpoint : String) (expired : Bool) : find.place = .looping j endpoint →
      t.attempts[s.attempts.length]? = some { slot := j, node := find.node, endpoint := endpoint, place := .reserved f } →
      FindMoves s t f find (.turn f j endpoint expired) { find with place := .starting j endpoint s.attempts.length }
  | stops (j : Nat) (endpoint : String) (a : Nat) : find.place = .starting j endpoint a → s.stopping = true →
      t.attempts = s.attempts → FindMoves s t f find (.launch f j endpoint a) { find with place := .aborting j a }
  | launches (j : Nat) (endpoint : String) (a : Nat) : find.place = .starting j endpoint a → s.stopping = false →
      t.attempts = (s.setAttempt a .dialing).attempts →
      FindMoves s t f find (.launch f j endpoint a) { find with place := .waiting j endpoint a }
  | aborts (j a : Nat) : find.place = .aborting j a → t.attempts = (s.setAttempt a (.abandoned f)).attempts →
      FindMoves s t f find (.abort f j a) { find with place := .aborted a }
  | resumes (j : Nat) (endpoint : String) (a : Nat) : find.place = .waiting j endpoint a →
      FindMoves s t f find (.resume f j endpoint a) { find with place := .looping j endpoint }
  | fails (action : Action) : (∀ j endpoint a, find.place ≠ .starting j endpoint a) →
      FindMoves s t f find action { find with place := .returned none }

inductive SweepMoves (s t : Node) (w : Nat) (sweep : Sweep) : Action → Sweep → Prop where
  | same (action : Action) : SweepMoves s t w sweep action sweep
  | refused : sweep.place = .called → SweepMoves s t w sweep (.enter w) { sweep with place := .returned false }
  | reload (snapshot : Snapshot) : sweep.kind = .reload snapshot → sweep.place = .called →
      SweepMoves s t w sweep (.enter w) { sweep with
        changed := RegistryManager.changed s.registry snapshot
        before := s.registry
        place := .entered (s.registered (RegistryManager.changed s.registry snapshot).contains) }
  | stop : sweep.kind = .stop → sweep.place = .called → t.stopping = true →
      SweepMoves s t w sweep (.enter w) { sweep with place := .entered (s.registered fun _ => true) }
  | locks (conns : List Nat) : sweep.place = .entered conns →
      SweepMoves s t w sweep (.lockManager w conns) { sweep with place := .detaching (s.covered sweep) [] conns }
  | detaches (j : Nat) (todo peers conns : List Nat) (slot : PeerSlot) : sweep.place = .detaching todo peers conns →
      j ∈ todo → s.slots[j]? = some slot → t.slots = (s.setSlot j detachSlot).slots →
      SweepMoves s t w sweep (.detach w j todo peers conns)
        { sweep with place := .detaching (todo.erase j) (peers ++ slot.peer.toList) conns }
  | unlocks (peers conns : List Nat) : sweep.place = .detaching [] peers conns →
      SweepMoves s t w sweep (.unlockManager w peers conns) { sweep with place := .closing peers conns }
  | closed (k : Nat) (peers conns : List Nat) : sweep.place = .closing (k :: peers) conns → s.Notified k →
      SweepMoves s t w sweep (.closed w k peers conns) { sweep with place := .closing peers conns }
  | leaves (conns : List Nat) : sweep.place = .closing [] conns →
      SweepMoves s t w sweep (.leave w conns) { sweep with place := .revoking conns }
  | revokes (x : Nat) (conns : List Nat) : sweep.place = .revoking (x :: conns) →
      t.accepts = (s.accepts.modify x fun accept => { accept with closed := true }) →
      SweepMoves s t w sweep (.revoke w x conns) { sweep with place := .revoking conns }
  | finishes : sweep.place = .revoking [] → SweepMoves s t w sweep (.finish w) { sweep with place := .returned true }

inductive PeerMoves (k : Nat) (handle : PeerHandle) : Action → PeerHandle → Prop where
  | same (action : Action) : PeerMoves k handle action handle
  | closes : PeerMoves k handle (.close k) { handle with closed := true }
  | notifies : PeerMoves k handle (.peerClosed k) { handle with notified := true }

attribute [local grind] SlotMoves AttemptMoves FindMoves SweepMoves PeerMoves

theorem slot_origin (steps : s.Steps action t) {later : PeerSlot} (after : t.slots[j]? = some later) :
    (∃ slot, s.slots[j]? = some slot ∧ s.SlotMoves t j slot action later) ∨
      s.slots[j]? = none ∧ ∃ node, later = { node := node } := by
  have same (was : s.slots[j]? = some later) : ∃ slot, s.slots[j]? = some slot ∧ s.SlotMoves t j slot action later :=
    ⟨later, was, .same action⟩
  have here {i : Nat} {f : PeerSlot → PeerSlot} (after : (s.slots.modify i f)[j]? = some later) :=
    modify_origin (M := fun slot later => s.SlotMoves t j slot action later) after fun _ => .same _
  cases steps with
  | made f endpoint find => grind
  | still | found | finds | refused | reload | stop => exact .inl (same after)
  | plain =>
    left
    cases action with
    | peerClosed k =>
      dsimp only [next] at after
      split at after
      · exact here after (by grind)
      · exact same after
    | abort | detach => grind
    | _ => exact same (by first | exact after | grind)
  | makes f i endpoint expired find slot there lies idle =>
    refine .inl (here after ?_)
    rintro rfl old was
    cases lies.symm.trans was
    exact .reserves f endpoint expired idle (at_iff.mpr ⟨_, List.getElem?_concat_length .., rfl, rfl⟩)
  | waits | backs | discards | fails | lodges => exact .inl (here after (by grind))

section

variable (enabled : s.Enabled action) (steps : s.Steps action t)
include enabled steps

theorem attempt_origin {later : Attempt} (has : t.attempts[a]? = some later) :
    (∃ attempt, s.attempts[a]? = some attempt ∧ s.AttemptMoves t a attempt action later) ∨
      s.AttemptMade t action a later := by
  have same (was : s.attempts[a]? = some later) : ∃ attempt, s.attempts[a]? = some attempt ∧
      s.AttemptMoves t a attempt action later := ⟨later, was, .same action⟩
  have here {b : Nat} {f : Attempt → Attempt} (has : (s.attempts.modify b f)[a]? = some later) :=
    modify_origin (M := fun attempt later => s.AttemptMoves t a attempt action later) has fun _ => .same _
  cases steps with
  | makes f j endpoint expired find slot found lies idle others =>
    rcases lookup_append has with was | ⟨rfl, rfl⟩
    · exact .inl (same was)
    · exact .inr (.mk f j endpoint expired find slot found lies idle others rfl (lookup_modify_self lies)
        (at_iff.mpr ⟨_, lookup_modify_self found, rfl⟩))
  | plain =>
    left
    cases action with
    | dial b ok => cases ok <;> grind
    | launch => grind
    | abort | abortDone | discard | announce => exact here has (by grind)
    | _ => exact same (by first | exact has | grind)
  | discards | fails | lodges => exact .inl (here has (by grind))
  | _ => exact .inl (same has)

theorem find_origin {later : PeerFor} (found : t.finds[f]? = some later) :
    (∃ find, s.finds[f]? = some find ∧ s.FindMoves t f find action later) ∨ s.finds[f]? = none ∧ later.place = .called := by
  have same (was : s.finds[f]? = some later) : ∃ find, s.finds[f]? = some find ∧ s.FindMoves t f find action later :=
    ⟨later, was, .same action⟩
  have here {g : Nat} {h : PeerFor → PeerFor} (found : (s.finds.modify g h)[f]? = some later) :=
    modify_origin (M := fun find later => s.FindMoves t f find action later) found fun _ => .same _
  cases steps with
  | made g endpoint find finds there empty made =>
    left
    rcases made with rfl | ⟨below, rfl⟩
    · exact same found
    · refine here found ?_
      rintro rfl old was
      cases there.symm.trans was
      have place := At.here enabled.1 was
      exact .picks _ endpoint place (by simp [below])
  | plain =>
    cases action with
    | peerFor => grind
    | locate g stopping =>
      left
      dsimp only [next] at found
      split at found
      · exact here found (by grind)
      · exact same found
    | launch => grind
    | look | abort | abortDone | resume | giveUp => exact .inl (here found (by grind))
    | _ => exact .inl (same (by first | exact found | grind))
  | makes g j endpoint expired find slot there =>
    refine .inl (here found ?_)
    rintro rfl old was
    cases there.symm.trans was
    have place := At.here enabled was
    exact .makes j endpoint expired place (List.getElem?_concat_length ..)
  | found g j endpoint find there lane =>
    refine .inl (here found ?_)
    rintro rfl old was
    cases there.symm.trans was
    have place := At.here enabled.1 was
    exact .picks j endpoint place lane
  | finds | waits | backs => exact .inl (here found (by grind))
  | _ => exact .inl (same found)

theorem sweep_origin {later : Sweep} (found : t.sweeps[w]? = some later) :
    (∃ sweep, s.sweeps[w]? = some sweep ∧ s.SweepMoves t w sweep action later) ∨ s.sweeps[w]? = none ∧ later.place = .called := by
  have same (was : s.sweeps[w]? = some later) : ∃ sweep, s.sweeps[w]? = some sweep ∧ s.SweepMoves t w sweep action later :=
    ⟨later, was, .same action⟩
  have here {v : Nat} {f : Sweep → Sweep} (found : (s.sweeps.modify v f)[w]? = some later) :=
    modify_origin (M := fun sweep later => s.SweepMoves t w sweep action later) found fun _ => .same _
  cases steps with
  | plain =>
    cases action with
    | reload | stop => grind
    | closed | leave | revoke | finish => exact .inl (here found (by grind))
    | lockManager | unlockManager =>
      left
      dsimp only [next] at found
      split at found
      · exact here found (by grind)
      · exact same found
    | detach v j todo peers conns =>
      left
      cases lies : s.slots[j]? with
      | none => exact same (by simpa only [next, lies] using found)
      | some slot =>
        simp only [next, lies] at found same here ⊢
        exact here found (by grind)
    | _ => exact .inl (same (by first | exact found | grind))
  | stop v sweep has kind =>
    refine .inl (here found ?_)
    rintro rfl old was
    cases has.symm.trans was
    have place := At.here enabled.1 was
    exact .stop kind place rfl
  | refused | reload => exact .inl (here found (by grind))
  | _ => exact .inl (same found)

end

section

variable (steps : s.Steps action t)
include steps

theorem peer_origin {later : PeerHandle} (found : t.peers[k]? = some later) :
    (∃ handle, s.peers[k]? = some handle ∧ PeerMoves k handle action later) ∨ k = s.peers.length ∧ ∃ a attempt,
      action = .dial a true ∧ s.attempts[a]? = some attempt ∧ t.AttemptAt a (.dialed (some k)) ∧
      later = { slot := attempt.slot, remoteNode := attempt.node, endpoint := attempt.endpoint } := by
  have same (was : s.peers[k]? = some later) : ∃ handle, s.peers[k]? = some handle ∧ PeerMoves k handle action later :=
    ⟨later, was, .same action⟩
  cases steps with
  | plain =>
    cases action with
    | dial a ok => cases ok <;> grind
    | close | peerClosed => grind
    | _ => exact .inl (same (by first | exact found | grind))
  | _ => exact .inl (same found)

theorem manager_moves : t.manager = s.manager ∨
      (∃ node, s.manager node = [] ∧ t.slots = s.slots ++ List.replicate s.connectionsPerPeer { node := node } ∧ t.manager =
        Function.update s.manager node ((List.range s.connectionsPerPeer).map (s.slots.length + ·))) ∨
      ∃ w sweep peers conns, s.sweeps[w]? = some sweep ∧ action = .unlockManager w peers conns ∧
        t.manager = fun node => if sweep.covers node then [] else s.manager node := by
  cases steps with
  | made f endpoint find finds there empty made => exact .inr (.inl ⟨find.node, empty, rfl, rfl⟩)
  | plain =>
    cases action with
    | unlockManager => grind
    | _ => exact .inl (by first | rfl | grind)
  | _ => exact .inl rfl

theorem registry_moves : t.registry = s.registry ∨
    ∃ w sweep, action = .enter w ∧ s.sweeps[w]? = some sweep ∧ sweep.kind = .reload t.registry ∧
      At t.sweeps w fun later => later.kind = sweep.kind ∧ later.before = s.registry ∧
        later.changed = RegistryManager.changed s.registry t.registry ∧ ∃ conns, later.place = .entered conns := by
  cases steps with
  | reload w sweep snapshot has kind =>
    exact .inr ⟨w, sweep, rfl, has, kind, at_iff.mpr ⟨_, lookup_modify_self has, rfl, rfl, rfl, _, rfl⟩⟩
  | plain => exact .inl (by cases action <;> first | rfl | grind)
  | _ => exact .inl rfl

theorem stopping_kept (stopping : s.stopping = true) : t.stopping = true := by
  cases steps with
  | plain => cases action <;> first | exact stopping | grind
  | stop => rfl
  | _ => exact stopping

theorem sizes_next : s.slots.length ≤ t.slots.length ∧ s.attempts.length ≤ t.attempts.length ∧
    s.sweeps.length ≤ t.sweeps.length ∧ s.peers.length ≤ t.peers.length ∧ s.finds.length ≤ t.finds.length := by
  cases steps with
  | plain => cases action <;> grind
  | _ => grind

end

section Forward

variable {slot : PeerSlot} {attempt : Attempt} {sweep : Sweep} {find : PeerFor}

theorem slot_moves (steps : s.Steps action t) (lies : s.slots[j]? = some slot) :
    ∃ later, t.slots[j]? = some later ∧ s.SlotMoves t j slot action later := by
  obtain ⟨later, after⟩ := lookup_of_le (sizes_next steps).1 lies
  rcases slot_origin steps after with ⟨old, was, moves⟩ | ⟨absent, -⟩
  · cases lies.symm.trans was
    exact ⟨later, after, moves⟩
  · cases lies.symm.trans absent

section

variable (enabled : s.Enabled action) (steps : s.Steps action t)
include enabled steps

theorem attempt_moves (has : s.attempts[a]? = some attempt) :
    ∃ later, t.attempts[a]? = some later ∧ s.AttemptMoves t a attempt action later := by
  obtain ⟨later, after⟩ := lookup_of_le (sizes_next steps).2.1 has
  rcases attempt_origin enabled steps after with ⟨old, was, moves⟩ | made
  · cases has.symm.trans was
    exact ⟨later, after, moves⟩
  · cases made
    exact absurd (lookup_lt has) (Nat.lt_irrefl _)

theorem find_moves (found : s.finds[f]? = some find) :
    ∃ later, t.finds[f]? = some later ∧ s.FindMoves t f find action later := by
  obtain ⟨later, after⟩ := lookup_of_le (sizes_next steps).2.2.2.2 found
  rcases find_origin enabled steps after with ⟨old, was, moves⟩ | ⟨absent, -⟩
  · cases found.symm.trans was
    exact ⟨later, after, moves⟩
  · cases found.symm.trans absent

theorem sweep_moves (has : s.sweeps[w]? = some sweep) :
    ∃ later, t.sweeps[w]? = some later ∧ s.SweepMoves t w sweep action later := by
  obtain ⟨later, after⟩ := lookup_of_le (sizes_next steps).2.2.1 has
  rcases sweep_origin enabled steps after with ⟨old, was, moves⟩ | ⟨absent, -⟩
  · cases has.symm.trans was
    exact ⟨later, after, moves⟩
  · cases has.symm.trans absent

end

theorem SlotMoves.node {later : PeerSlot} (moves : s.SlotMoves t j slot action later) : later.node = slot.node := by
  cases moves <;> grind

end Forward

theorem peers_next (steps : s.Steps action t) : Grows PeerHandle.Same s.peers t.peers := by
  intro k handle found
  obtain ⟨later, after⟩ := lookup_of_le (sizes_next steps).2.2.2.1 found
  rcases peer_origin steps after with ⟨old, was, moves⟩ | ⟨rfl, -⟩
  · cases found.symm.trans was
    exact ⟨later, after, by cases moves <;> exact ⟨rfl, rfl, rfl⟩⟩
  · exact absurd (lookup_lt found) (Nat.lt_irrefl _)

theorem peer_next (steps : s.Steps action t) {later : PeerSlot} (after : t.slots[j]? = some later)
    (held : later.peer = some k) : ∃ slot, s.slots[j]? = some slot ∧ slot.node = later.node ∧
      (slot.peer = some k ∨ ∃ a attempt, action = .settle a (some k) ∧ s.attempts[a]? = some attempt ∧ attempt.slot = j ∧
        Discards a attempt slot = false) := by
  rcases slot_origin steps after with ⟨slot, lies, moves⟩ | ⟨-, node, rfl⟩
  · exact ⟨slot, lies, moves.node.symm, by cases moves <;> grind⟩
  · cases held

end Node

end Skygo.Transport
