import Mathlib.Data.List.Basic
import Mathlib.Tactic.NormNum

/-! Byte streams behind `io.Reader` and `io.Writer`, and big-endian words.

A reader delivers its bytes in chunks of any size, empty ones among them, and then fails for good;
it may report the failure together with the last bytes already. A writer answers each call with
a number of bytes and possibly an error. `ReadFull` depends on the bytes only, not on the chunks.
-/

set_option autoImplicit false

namespace Skygo.Semantics

inductive StreamError where
  | eof
  | unexpectedEOF
  | shortWrite
  | other (text : String)
  deriving DecidableEq

structure Reader where
  chunks : List (List UInt8)
  /-- What every call reports once the bytes are used up. -/
  ending : StreamError := .eof
  /-- The last bytes come together with the failure. -/
  eager : Bool := false
  deriving DecidableEq

namespace Reader

def stream (r : Reader) : List UInt8 := r.chunks.flatten

def read (r : Reader) (k : Nat) : List UInt8 × Option StreamError × Reader :=
  match r.chunks with
  | [] => ([], some r.ending, r)
  | chunk :: rest =>
      let left := if chunk.length ≤ k then rest else chunk.drop k :: rest
      (chunk.take k, if r.eager && left.isEmpty then some r.ending else none, { r with chunks := left })

/-- The loop of `ReadAtLeast` while `need` bytes are missing. A round takes a byte or a chunk. -/
def fill : Nat → Reader → Nat → List UInt8 × Option StreamError × Reader
  | 0, r, _ => ([], none, r)
  | fuel + 1, r, need =>
      if need = 0 then ([], none, r)
      else
        match r.read need with
        | (bytes, some failure, r) => (bytes, some failure, r)
        | (bytes, none, r) =>
            let further := fill fuel r (need - bytes.length)
            (bytes ++ further.1, further.2)

def readFull (r : Reader) (k : Nat) : Except StreamError (List UInt8) × Reader :=
  match fill (k + r.chunks.length) r k with
  | (bytes, failure, r) =>
      if k ≤ bytes.length then (.ok bytes, r)
      else
        match failure with
        | some .eof => (.error (if bytes = [] then .eof else .unexpectedEOF), r)
        | some failure => (.error failure, r)
        | none => (.error .unexpectedEOF, r)

variable {r r' : Reader} {k need : Nat} {bytes : List UInt8} {failure : Option StreamError}

theorem read_spec (wanted : 0 < k) (called : r.read k = (bytes, failure, r')) :
    bytes.length ≤ k ∧ r.stream = bytes ++ r'.stream ∧ r'.ending = r.ending ∧
      (failure = none → bytes = [] → r'.chunks.length < r.chunks.length) ∧
      (failure = none → r'.chunks.length ≤ r.chunks.length) ∧
      (∀ cause, failure = some cause → cause = r.ending ∧ r'.stream = []) := by
  unfold read at called
  split at called
  · next none =>
    cases called
    simp [stream, none]
  · next chunk rest chunks =>
    simp only [Prod.mk.injEq] at called
    obtain ⟨rfl, rfl, rfl⟩ := called
    refine ⟨by simp, ?_, rfl, fun _ nothing => ?_, fun _ => ?_, fun cause failed => ?_⟩
    · simp only [stream, chunks, List.flatten_cons]
      split
      · next whole => rw [List.take_of_length_le whole]
      · rw [List.flatten_cons, ← List.append_assoc, List.take_append_drop]
    · have empty : chunk = [] := by
        rcases List.take_eq_nil_iff.mp nothing with zero | empty
        · omega
        · exact empty
      simp [empty, chunks]
    · rw [chunks]
      split <;> simp
    · obtain ⟨last, same⟩ := Option.ite_none_right_eq_some.mp failed
      simp only [Bool.and_eq_true, List.isEmpty_iff] at last
      exact ⟨(Option.some.inj same).symm, by simp [stream, last.2]⟩

theorem fill_spec {fuel : Nat} (enough : need + r.chunks.length ≤ fuel) :
    ∃ failure r', fill fuel r need = (r.stream.take need, failure, r') ∧ r'.stream = r.stream.drop need ∧
      r'.ending = r.ending ∧ (r.stream.length < need → failure = some r.ending) := by
  induction fuel generalizing r need with
  | zero =>
    obtain rfl : need = 0 := by omega
    exact ⟨none, r, by simp [fill], by simp, rfl, fun short => absurd short (Nat.not_lt_zero _)⟩
  | succ fuel ih =>
    unfold fill
    split
    · next done =>
      subst done
      exact ⟨none, r, by simp, by simp, rfl, fun short => absurd short (Nat.not_lt_zero _)⟩
    · next wanted =>
      split
      · next bytes cause r' called =>
        obtain ⟨fits, cut, same, -, -, ended⟩ := read_spec (by omega) called
        obtain ⟨rfl, nothing⟩ := ended cause rfl
        rw [nothing, List.append_nil] at cut
        refine ⟨some r.ending, r', ?_, ?_, same, fun _ => rfl⟩
        · rw [cut, List.take_of_length_le fits]
        · rw [nothing, cut, List.drop_of_length_le fits]
      · next bytes r' called =>
        obtain ⟨fits, cut, same, empty, fewer, -⟩ := read_spec (by omega) called
        have progress : need - bytes.length + r'.chunks.length ≤ fuel := by
          have chunks := fewer rfl
          by_cases nothing : bytes = []
          · have less := empty rfl nothing
            omega
          · have some := List.length_pos_iff.mpr nothing
            omega
        obtain ⟨failure, last, filled, rest, ending, short⟩ := ih progress
        refine ⟨failure, last, ?_, ?_, ending.trans same, fun lacks => ?_⟩
        · dsimp only
          rw [filled, cut, List.take_append, List.take_of_length_le fits]
        · rw [rest, cut, List.drop_append, List.drop_of_length_le fits, List.nil_append]
        · rw [← same]
          refine short ?_
          rw [cut, List.length_append] at lacks
          omega

theorem readFull_of_le (r : Reader) (enough : k ≤ r.stream.length) :
    ∃ r', r.readFull k = (.ok (r.stream.take k), r') ∧ r'.stream = r.stream.drop k ∧ r'.ending = r.ending := by
  obtain ⟨failure, r', filled, rest, ending, -⟩ := fill_spec (le_refl (k + r.chunks.length))
  refine ⟨r', ?_, rest, ending⟩
  rw [readFull, filled]
  dsimp only
  rw [if_pos (by rw [List.length_take]; omega)]

/-- Too few bytes: all are taken, and the failure tells an end between frames from one within. -/
theorem readFull_of_lt (r : Reader) (short : r.stream.length < k) :
    ∃ r', r.readFull k =
        (.error (if r.ending = .eof ∧ r.stream ≠ [] then .unexpectedEOF else r.ending), r') ∧ r'.stream = [] := by
  obtain ⟨failure, r', filled, rest, -, failed⟩ := fill_spec (le_refl (k + r.chunks.length))
  refine ⟨r', ?_, rest.trans (List.drop_of_length_le short.le)⟩
  rw [readFull, filled, failed short, List.take_of_length_le short.le]
  dsimp only
  rw [if_neg (Nat.not_le.mpr short)]
  split
  · next ends =>
    simp only [Option.some.injEq] at ends
    simp only [ends, true_and]
    split <;> simp_all
  · next cause other ends =>
    simp only [Option.some.injEq] at ends
    subst ends
    rw [if_neg fun both => other (by rw [both.1])]
  · next nothing => cases nothing

end Reader

/-- An answer to a call: how many bytes are taken at most, and an error. -/
structure Answer where
  accepts : Nat
  failure : Option StreamError := none
  deriving DecidableEq

structure Writer where
  written : List UInt8 := []
  answers : List Answer := []
  deriving DecidableEq

namespace Writer

def write (w : Writer) (data : List UInt8) : Nat × Option StreamError × Writer :=
  match w.answers with
  | [] => (data.length, none, { w with written := w.written ++ data })
  | answer :: rest =>
      (min answer.accepts data.length, answer.failure,
        { written := w.written ++ data.take answer.accepts, answers := rest })

theorem write_spec {w w' : Writer} {data : List UInt8} {n : Nat} {failure : Option StreamError}
    (called : w.write data = (n, failure, w')) : n ≤ data.length ∧ w'.written = w.written ++ data.take n := by
  unfold write at called
  split at called
  · cases called
    simp
  · cases called
    exact ⟨Nat.min_le_right .., by rw [List.take_eq_take_min]⟩

/-- Every call takes at least a byte and none fails. -/
def Willing (w : Writer) : Prop := ∀ answer ∈ w.answers, 0 < answer.accepts ∧ answer.failure = none

instance (w : Writer) : Decidable w.Willing := by unfold Willing; infer_instance

theorem write_willing {w : Writer} (willing : w.Willing) {data : List UInt8} (wanted : data ≠ []) :
    ∃ n w', w.write data = (n, none, w') ∧ 0 < n ∧ w'.written = w.written ++ data.take n ∧ w'.Willing := by
  have some := List.length_pos_iff.mpr wanted
  unfold write
  split
  · exact ⟨data.length, _, rfl, some, by simp, willing⟩
  · next answer rest answers =>
    obtain ⟨accepts, succeeds⟩ := willing answer (by simp [answers])
    refine ⟨min answer.accepts data.length, _, by rw [succeeds], by omega, ?_, fun later member =>
      willing later (by simp [answers, member])⟩
    rw [List.take_eq_take_min]

end Writer

/-- The bytes of a word, the most significant one first. -/
def putUint32 (v : UInt32) : List UInt8 :=
  [(v >>> 24).toUInt8, (v >>> 16).toUInt8, (v >>> 8).toUInt8, v.toUInt8]

def uint32 : List UInt8 → UInt32
  | [b0, b1, b2, b3] => b3.toUInt32 ||| b2.toUInt32 <<< 8 ||| b1.toUInt32 <<< 16 ||| b0.toUInt32 <<< 24
  | _ => 0

theorem toNat_uint32 (b0 b1 b2 b3 : UInt8) :
    (uint32 [b0, b1, b2, b3]).toNat = b0.toNat * 2 ^ 24 + b1.toNat * 2 ^ 16 + b2.toNat * 2 ^ 8 + b3.toNat := by
  have h0 := b0.toNat_lt
  have h1 := b1.toNat_lt
  have h2 := b2.toNat_lt
  have h3 := b3.toNat_lt
  have shifted (b : UInt8) (i : UInt32) (small : b.toNat * 2 ^ (i.toNat % 32) < 2 ^ 32) :
      (b.toUInt32 <<< i).toNat = b.toNat * 2 ^ (i.toNat % 32) := by
    rw [UInt32.toNat_shiftLeft, Nat.shiftLeft_eq, UInt8.toNat_toUInt32]
    exact Nat.mod_eq_of_lt small
  have join (i a b : Nat) (small : b < 2 ^ i) : b ||| a * 2 ^ i = a * 2 ^ i + b := by
    rw [Nat.or_comm, Nat.mul_comm]
    exact (Nat.two_pow_add_eq_or_of_lt small a).symm
  have s8 : (b2.toUInt32 <<< 8).toNat = b2.toNat * 2 ^ 8 := shifted b2 8 (show b2.toNat * 2 ^ 8 < 2 ^ 32 by omega)
  have s16 : (b1.toUInt32 <<< 16).toNat = b1.toNat * 2 ^ 16 := shifted b1 16 (show b1.toNat * 2 ^ 16 < 2 ^ 32 by omega)
  have s24 : (b0.toUInt32 <<< 24).toNat = b0.toNat * 2 ^ 24 := shifted b0 24 (show b0.toNat * 2 ^ 24 < 2 ^ 32 by omega)
  rw [uint32, UInt32.toNat_or, UInt32.toNat_or, UInt32.toNat_or, UInt8.toNat_toUInt32, s8, s16, s24,
    join 8 _ _ h3, join 16 _ _ (by omega), join 24 _ _ (by omega)]
  omega

theorem toNat_byte (v : UInt32) (i : UInt32) : (v >>> i).toUInt8.toNat = v.toNat / 2 ^ (i.toNat % 32) % 2 ^ 8 := by
  rw [UInt32.toNat_toUInt8, UInt32.toNat_shiftRight, Nat.shiftRight_eq_div_pow]

theorem putUint32_uint32 (b0 b1 b2 b3 : UInt8) : putUint32 (uint32 [b0, b1, b2, b3]) = [b0, b1, b2, b3] := by
  have whole := toNat_uint32 b0 b1 b2 b3
  have h0 := b0.toNat_lt
  have h1 := b1.toNat_lt
  have h2 := b2.toNat_lt
  have h3 := b3.toNat_lt
  have e0 : (uint32 [b0, b1, b2, b3] >>> 24).toUInt8 = b0 := by
    rw [← UInt8.toNat_inj, toNat_byte, whole]
    show _ / 2 ^ 24 % 2 ^ 8 = _
    omega
  have e1 : (uint32 [b0, b1, b2, b3] >>> 16).toUInt8 = b1 := by
    rw [← UInt8.toNat_inj, toNat_byte, whole]
    show _ / 2 ^ 16 % 2 ^ 8 = _
    omega
  have e2 : (uint32 [b0, b1, b2, b3] >>> 8).toUInt8 = b2 := by
    rw [← UInt8.toNat_inj, toNat_byte, whole]
    show _ / 2 ^ 8 % 2 ^ 8 = _
    omega
  have e3 : (uint32 [b0, b1, b2, b3]).toUInt8 = b3 := by
    rw [← UInt8.toNat_inj, UInt32.toNat_toUInt8, whole]
    omega
  rw [putUint32, e0, e1, e2, e3]

theorem uint32_putUint32 (v : UInt32) : uint32 (putUint32 v) = v := by
  have bound := v.toNat_lt
  have byte (i : UInt32) := toNat_byte v i
  rw [← UInt32.toNat_inj, putUint32, toNat_uint32, byte 24, byte 16, byte 8, UInt32.toNat_toUInt8]
  show v.toNat / 2 ^ 24 % 2 ^ 8 * 2 ^ 24 + v.toNat / 2 ^ 16 % 2 ^ 8 * 2 ^ 16 + v.toNat / 2 ^ 8 % 2 ^ 8 * 2 ^ 8 +
    v.toNat % 2 ^ 8 = v.toNat
  omega

@[simp] theorem length_putUint32 (v : UInt32) : (putUint32 v).length = 4 := rfl

theorem putUint32_of_length {bytes : List UInt8} (four : bytes.length = 4) : putUint32 (uint32 bytes) = bytes := by
  match bytes, four with
  | [b0, b1, b2, b3], _ => exact putUint32_uint32 b0 b1 b2 b3

end Skygo.Semantics
