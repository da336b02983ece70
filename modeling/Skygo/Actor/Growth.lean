import Skygo.Actor.Sessions

/-! What a system never takes back, over whole runs. -/

set_option autoImplicit false

attribute [-instance] instBooleanRingBool

namespace Skygo.Actor

open Semantics

variable {Msg : Type} {s s' s'' : System Msg}

def SystemAction.submits : SystemAction Msg → Bool
  | .admitCall .. | .mail _ (.submit ..) => true
  | _ => false

namespace System

structure Later (s s' : System Msg) : Prop where
  mailboxes : ∀ (k : Nat) (m : ServiceRuntime Msg), s.mailboxes[k]? = some m → ∃ m', s'.mailboxes[k]? = some m' ∧
    m'.name = m.name ∧ m'.opts = m.opts ∧ (m.done = true → m'.done = true)
  requests : ∀ (k id : Nat) (r : Request Msg), s.request k id = some r → ∃ r', s'.request k id = some r' ∧
    r'.ctx = r.ctx ∧ r'.protocol = r.protocol ∧ r'.expectsResponse = r.expectsResponse
  calls : ∀ (c : Nat) (call : Call Msg), s.calls[c]? = some call → ∃ call', s'.calls[c]? = some call' ∧
    call'.service = call.service ∧ ∀ id, call.request = some id → call'.request = some id

namespace Later

theorem refl (s : System Msg) : s.Later s where
  mailboxes _ m found := ⟨m, found, rfl, rfl, fun closed => closed⟩
  requests _ _ r found := ⟨r, found, rfl, rfl, rfl⟩
  calls _ call found := ⟨call, found, rfl, fun _ named => named⟩

theorem trans (first : s.Later s') (second : s'.Later s'') : s.Later s'' where
  mailboxes k m found := by
    obtain ⟨m', found', name, opts, closed⟩ := first.mailboxes k m found
    obtain ⟨m'', found'', name', opts', closed'⟩ := second.mailboxes k m' found'
    exact ⟨m'', found'', name'.trans name, opts'.trans opts, closed' ∘ closed⟩
  requests k id r found := by
    obtain ⟨r', found', ctx, protocol, expects⟩ := first.requests k id r found
    obtain ⟨r'', found'', ctx', protocol', expects'⟩ := second.requests k id r' found'
    exact ⟨r'', found'', ctx'.trans ctx, protocol'.trans protocol, expects'.trans expects⟩
  calls c call found := by
    obtain ⟨call', found', service, named⟩ := first.calls c call found
    obtain ⟨call'', found'', service', named'⟩ := second.calls c call' found'
    exact ⟨call'', found'', service'.trans service, fun id known => named' id (named id known)⟩

end Later

variable {a : SystemAction Msg} {m : ServiceRuntime Msg}

theorem mailbox_next (enabled : Enabled s a) {k : Nat}
    (found : s.mailboxes[k]? = some m) :
    ∃ m', (next s a).mailboxes[k]? = some m' ∧ m'.name = m.name ∧ m'.opts = m.opts ∧
      (m.done = true → m'.done = true) := by
  rcases mailbox_cases enabled found with same | ⟨act, _, changed, _⟩
  · exact ⟨m, same, rfl, rfl, fun closed => closed⟩
  · obtain ⟨name, opts, _, closed⟩ := Runtime.next_settings m act
    exact ⟨_, changed, name, opts, closed⟩

theorem call_next (coordinated : s.Coordinated) (enabled : Enabled s a) {c : Nat}
    {call : Call Msg} (found : s.calls[c]? = some call) :
    ∃ call', (next s a).calls[c]? = some call' ∧ call'.service = call.service ∧
      ∀ id, call.request = some id → call'.request = some id := by
  have fits := coordinated.fits c call found
  clear coordinated
  rcases calls_next (s := s) a with ⟨j, f, calls, same⟩ | ⟨_, _, rfl⟩ | ⟨j, ctx, protocol, rfl⟩
  · by_cases here : j = c
    · exact ⟨f call, by grind⟩
    · exact ⟨call, by grind⟩
  · exact ⟨call, lookup_append_old found, rfl, fun _ named => named⟩
  · -- the call that submits its envelope had none before
    simp only [next]
    grind

theorem later_next (coordinated : s.Coordinated) (enabled : Enabled s a) :
    s.Later (next s a) where
  mailboxes _ _ found := mailbox_next enabled found
  requests _ _ _ found := by
    obtain ⟨r', after, _, _, later⟩ := request_next enabled found
    exact ⟨r', after, later.ctx, later.protocol, later.expectsResponse⟩
  calls _ _ found := call_next coordinated enabled found

theorem admit_next {c : Nat} {call : Call Msg} (ctx : Context) (protocol : String)
    (called : s.calls[c]? = some call) (box : s.mailboxes[call.service]? = some m) :
    (next s (.admitCall c ctx protocol)).calls[c]? =
      some { call with pc := .admitting, request := some m.requests.length } ∧
    (next s (.admitCall c ctx protocol)).request call.service m.requests.length =
      some { ctx := ctx, protocol := protocol, session := c + 1, expectsResponse := true, nonBlocking := false } := by
  simp only [next, called, box]
  refine ⟨lookup_modify_self called, request_eq_some.mpr ⟨_, lookup_modify_self box, ?_⟩⟩
  simp [Runtime.next]

theorem submit_next {k : Nat} (ctx : Context) (protocol : String) (session : Nat)
    (expects nonBlocking : Bool) (box : s.mailboxes[k]? = some m) :
    (next s (.mail k (.submit ctx protocol session expects nonBlocking))).request k m.requests.length =
      some { ctx := ctx, protocol := protocol, session := session, expectsResponse := expects,
             nonBlocking := nonBlocking } := by
  simp only [next, box, target, Runtime.subject, Option.bind_none]
  refine request_eq_some.mpr ⟨_, lookup_modify_self box, ?_⟩
  simp [Runtime.next]

theorem unsubmitted_next {k id : Nat} (enabled : Enabled s a)
    (quiet : a.submits = false) (absent : s.request k id = none) : (next s a).request k id = none := by
  cases after : (next s a).request k id with
  | none => rfl
  | some r =>
    obtain ⟨_, _, _, ⟨_, _, _, _, rfl, _⟩ | ⟨_, _, _, _, rfl, _⟩⟩ := request_fresh enabled after absent <;> cases quiet

theorem mailboxes_length (enabled : Enabled s a) (other : ∀ name opts, a ≠ .start name opts) :
    (next s a).mailboxes.length = s.mailboxes.length := by
  rcases next_mailboxes enabled with same | ⟨name, opts, started, _⟩ | ⟨_, _, _, _, _, changed, _⟩
  · rw [same]
  · exact absurd started (other name opts)
  · rw [changed, List.length_modify]

theorem cancel_enabled {k : Nat} (known : k < s.mailboxes.length) : Enabled s (.mail k .cancel) := by
  refine at_iff.mpr ⟨s.mailboxes[k], List.getElem?_eq_getElem known, trivial, ?_, trivial⟩
  intro r found
  simp [target, Runtime.subject] at found

end System

end Skygo.Actor
