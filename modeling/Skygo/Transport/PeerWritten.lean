import Skygo.Semantics.Order
import Skygo.Transport.PeerSound

/-! The items that the write loop has written are the first that the queue took: the loop writes in order and ends with
the first failure, and `close` drains the queue only after the socket is closed. -/

set_option autoImplicit false

attribute [-instance] instBooleanRingBool

namespace Skygo.Transport

open Semantics
open scoped List

variable {M : Type}

def WriteLoop.alive : WriteLoop M → Bool
  | .first | .second | .writing _ _ => true
  | _ => false

namespace Peer

variable {p q : Peer M} {i k : Nat}

structure Ahead (p : Peer M) : Prop where
  sent : p.sent <+: p.taken
  all : p.connected = true → p.loop.alive = true → p.taken = p.sent ++ p.loop.writes.toList

theorem ahead_next {a : Action M} (ahead : p.Ahead) (enabled : p.Enabled a) : (p.next a).Ahead := by
  obtain ⟨first, all⟩ := ahead
  unfold sent at first all
  constructor
  · unfold sent
    cases a with
    | written =>
      cases loop : p.loop with
      | writing frame early => cases frame <;> grind [WriteLoop.alive]
      | _ => grind
    | _ => first | exact first | grind
  · unfold sent
    cases a with
    | written =>
      cases loop : p.loop with
      | writing frame early => cases frame <;> grind [WriteLoop.alive]
      | _ => grind
    | takeControl =>
      dsimp only [next]
      split
      · simp only [WriteLoop.writes, Frame.item?]
        grind [WriteLoop.alive]
      · exact all
    | tick =>
      simp only [next, WriteLoop.writes, Frame.item?]
      grind [WriteLoop.alive]
    | _ => first | exact all | grind [WriteLoop.alive]

variable {sendQueue : Nat}

theorem ahead_reachable [DecidableEq M] (reach : machine.Reachable { sendQueue := sendQueue } p) :
    p.Ahead :=
  reach.invariant (I := Ahead) ⟨List.prefix_rfl, fun _ _ => rfl⟩ fun _ _ ahead enabled => ahead_next ahead enabled

theorem sent_starts [DecidableEq M] (reach : machine.Reachable { sendQueue := sendQueue } p) :
    p.sent <+: p.accepted := by
  rw [(ordered_reachable reach).queue]
  exact (ahead_reachable reach).sent.trans (List.prefix_append ..)

theorem written_once [DecidableEq M] {sendQueue m n : Nat} (reach : machine.Reachable { sendQueue := sendQueue } p)
    (first : p.written[m]? = some (.item i)) (second : p.written[n]? = some (.item i)) : m = n := by
  have nodup : p.sent.Nodup := (sent_starts reach).sublist.nodup (once_reachable reach).nodup
  have twice {m n : Nat} (less : m < n) (first : p.written[m]? = some (.item i)) (second : p.written[n]? = some (.item i)) :
      Precedes p.sent i i :=
    Precedes.filterMap (precedes_iff.mpr ⟨m, n, less, first, second⟩) rfl rfl
  rcases Nat.lt_trichotomy m n with less | same | more
  · exact absurd (twice less first second) ((twice less first second).asymm nodup)
  · exact same
  · exact absurd (twice more second first) ((twice more second first).asymm nodup)

theorem eq_item {frame : Frame M} (image : frame.item? = some i) : frame = .item i := by
  cases frame <;> cases image
  rfl

/-- An item that was written stands behind everything that the queue took before it. -/
theorem written_before [DecidableEq M] {sendQueue n : Nat} (reach : machine.Reachable { sendQueue := sendQueue } p)
    (before : Precedes p.accepted i k) (written : p.written[n]? = some (.item k)) :
    ∃ m < n, p.written[m]? = some (.item i) := by
  have member : k ∈ p.sent := List.mem_filterMap.mpr ⟨_, List.mem_of_getElem? written, rfl⟩
  obtain ⟨first, second, order, one, two⟩ :=
    (before.of_prefix (once_reachable reach).nodup (sent_starts reach) member).of_filterMap
  obtain ⟨m, r, less, early, late⟩ := precedes_iff.mp order
  rw [eq_item one] at early
  rw [eq_item two] at late
  exact ⟨m, written_once reach late written ▸ less, early⟩

def Listed (p : Peer M) : Prop := ∀ i, (At p.calls i fun call => call.place.accepted = true) → i ∈ p.accepted

theorem listed_next {a : Action M} (listed : p.Listed) (enabled : p.Enabled a) : (p.next a).Listed := by
  unfold Listed at *
  cases a <;> first | exact listed | grind

theorem listed_reachable [DecidableEq M] (reach : machine.Reachable { sendQueue := sendQueue } p) :
    p.Listed :=
  reach.invariant (I := Listed) (fun i known => by simp [At] at known) fun _ _ listed enabled => listed_next listed enabled

end Peer

end Skygo.Transport
