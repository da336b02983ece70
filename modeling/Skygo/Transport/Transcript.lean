import Skygo.Transport.Handshake

/-! The bytes a handshake signs and the key its nonce is remembered under.

Both are concatenations. The first can be taken apart because every field but the last has a
fixed width or its length in front, the second because a hexadecimal number has no colon.
-/

set_option autoImplicit false

namespace Skygo.Transport

open Crypto Sha256

/-- The fields of `wire.Envelope` under the MAC, in Go's types: a string is any bytes, a kind any number. -/
@[ext]
structure Transcript where
  version : UInt32
  kind : Int32
  sourceNode : Bytes
  incarnation : Bytes
  timestampUnixMilli : Int64
  nonce : Bytes
  deriving DecidableEq

/-- `writeMACString`: the length is cut to 32 bits. -/
def macString (value : Bytes) : Bytes := bigEndian32 value.length ++ value

namespace Transcript

/-- What `signHandshake` writes to the MAC. -/
def signed (t : Transcript) : Bytes :=
  bigEndian32 t.version.toNat ++ bigEndian32 t.kind.toUInt32.toNat ++ macString t.sourceNode ++ macString t.incarnation ++
  bigEndian64 t.timestampUnixMilli.toUInt64.toNat ++ t.nonce

def hexDigit (n : Nat) : UInt8 := .ofNat (Nat.digitChar n).toNat

def hex (bytes : Bytes) : Bytes := bytes.flatMap fun b => [hexDigit (b.toNat / 16), hexDigit (b.toNat % 16)]

def colon : UInt8 := .ofNat ':'.toNat

/-- The key of `verifyHandshake`. -/
def key (t : Transcript) : Bytes := t.sourceNode ++ colon :: hex t.nonce

end Transcript

def Hello.transcript (e : Hello) : Transcript where
  version := .ofNat e.version
  kind := .ofNat e.kind.number
  sourceNode := e.sourceNode.toUTF8.toList
  incarnation := e.incarnation.toUTF8.toList
  timestampUnixMilli := .ofInt e.timestampUnixMilli
  nonce := e.nonce

variable {a b x y : Bytes} {m n : Nat}

theorem bigEndian32_mod (n : Nat) : bigEndian32 (n % 2 ^ 32) = bigEndian32 n := by
  unfold bigEndian32
  simp only [List.cons.injEq, ← UInt8.toNat_inj, UInt8.toNat_ofNat', and_true]
  omega

theorem mod_of_bigEndian32 (same : bigEndian32 m = bigEndian32 n) : m % 2 ^ 32 = n % 2 ^ 32 := by
  simp only [bigEndian32, List.cons.injEq, ← UInt8.toNat_inj, UInt8.toNat_ofNat', and_true] at same
  omega

theorem mod_of_bigEndian64 (same : bigEndian64 m = bigEndian64 n) : m % 2 ^ 64 = n % 2 ^ 64 := by
  obtain ⟨high, low⟩ := List.append_inj same rfl
  have high := mod_of_bigEndian32 high
  have low := mod_of_bigEndian32 low
  omega

theorem macString_append (short : a.length < 2 ^ 32) (also : b.length < 2 ^ 32)
    (same : macString a ++ x = macString b ++ y) : a = b ∧ x = y := by
  simp only [macString, List.append_assoc] at same
  obtain ⟨lengths, rest⟩ := List.append_inj same rfl
  have equal := mod_of_bigEndian32 lengths
  rw [Nat.mod_eq_of_lt short, Nat.mod_eq_of_lt also] at equal
  exact List.append_inj rest equal

theorem append_cons_inj {α : Type} {mark : α} {first second front back : List α} (here : mark ∉ front)
    (there : mark ∉ back) (same : first ++ mark :: front = second ++ mark :: back) : first = second ∧ front = back := by
  rcases List.append_eq_append_iff.mp same with ⟨between, rfl, rest⟩ | ⟨between, rfl, rest⟩ <;>
    cases between with
    | nil => simp_all
    | cons head between =>
      rw [List.cons_append, List.cons.injEq] at rest
      simp_all

theorem toList_loop (bytes : ByteArray) (i : Nat) (taken : List UInt8) :
    ByteArray.toList.loop bytes i taken = taken.reverse ++ bytes.data.toList.drop i := by
  fun_induction ByteArray.toList.loop bytes i taken with
  | case1 i taken more ih =>
    have more : i < bytes.data.toList.length := more
    have byte : bytes.get! i = bytes.data.toList[i] := getElem!_pos bytes.data i more
    rw [ih, List.drop_eq_getElem_cons more, List.reverse_cons, List.append_assoc, byte]
    rfl
  | case2 i taken done =>
    rw [List.drop_of_length_le (Nat.not_lt.mp done), List.append_nil]

theorem toUTF8_append (s t : String) : (s ++ t).toUTF8.toList = s.toUTF8.toList ++ t.toUTF8.toList := by
  simp [ByteArray.toList, toList_loop, String.toByteArray_append]

theorem toUTF8_ofList (chars : List Char) :
    (String.ofList chars).toUTF8.toList = chars.flatMap String.utf8EncodeChar := by
  simp [ByteArray.toList, toList_loop, String.toByteArray_ofList, List.utf8Encode, List.data_toByteArray]

theorem utf8Encode_hexByte (b : UInt8) :
    (hexByte b).flatMap String.utf8EncodeChar =
      [Transcript.hexDigit (b.toNat / 16), Transcript.hexDigit (b.toNat % 16)] := by
  have digit : ∀ i : Fin 16, String.utf8EncodeChar (Nat.digitChar i) = [Transcript.hexDigit i] := by decide
  have small := b.toNat_lt
  simp only [hexByte, List.flatMap_cons, List.flatMap_nil]
  rw [digit ⟨b.toNat / 16, by omega⟩, digit ⟨b.toNat % 16, by omega⟩]
  rfl

theorem Hello.signed_transcript (e : Hello) : e.transcript.signed = e.signed := by
  have version : bigEndian32 (UInt32.ofNat e.version).toNat = bigEndian32 e.version := by
    rw [UInt32.toNat_ofNat', bigEndian32_mod]
  have kind : bigEndian32 (Int32.ofNat e.kind.number).toUInt32.toNat = bigEndian32 e.kind.number := by
    cases e.kind <;> rfl
  simp only [Transcript.signed, Hello.signed, Hello.transcript, macString, writeMACString, version, kind]
  rfl

theorem Hello.key_transcript (e : Hello) : e.key.toUTF8.toList = e.transcript.key := by
  have mark : ":".toUTF8.toList = [Transcript.colon] := toUTF8_ofList [':']
  rw [Hello.key, toUTF8_append, toUTF8_append, mark, toUTF8_ofList, List.flatMap_assoc]
  simp only [utf8Encode_hexByte, Transcript.key, Transcript.hex, Hello.transcript, List.append_assoc, List.singleton_append]

namespace Transcript

theorem hexDigit_inj : ∀ i j : Fin 16, hexDigit i = hexDigit j → i = j := by decide

theorem hexDigit_ne_colon : ∀ i : Fin 16, hexDigit i ≠ colon := by decide

theorem colon_notMem_hex (bytes : Bytes) : colon ∉ hex bytes := by
  intro member
  obtain ⟨b, -, is⟩ := List.mem_flatMap.mp member
  have small := b.toNat_lt
  rcases List.mem_pair.mp is with high | low
  · exact hexDigit_ne_colon ⟨b.toNat / 16, by omega⟩ high.symm
  · exact hexDigit_ne_colon ⟨b.toNat % 16, by omega⟩ low.symm

theorem hex_inj : ∀ {a b : Bytes}, hex a = hex b → a = b
  | [], [], _ => rfl
  | [], _ :: _, same => by simp [hex] at same
  | _ :: _, [], same => by simp [hex] at same
  | byte :: a, byte' :: b, same => by
    simp only [hex, List.flatMap_cons, List.cons_append, List.nil_append, List.cons.injEq] at same
    obtain ⟨high, low, rest⟩ := same
    have small := byte.toNat_lt
    have small' := byte'.toNat_lt
    have highs := congrArg Fin.val (hexDigit_inj ⟨byte.toNat / 16, by omega⟩ ⟨byte'.toNat / 16, by omega⟩ high)
    have lows := congrArg Fin.val (hexDigit_inj ⟨byte.toNat % 16, by omega⟩ ⟨byte'.toNat % 16, by omega⟩ low)
    have head : byte = byte' := by
      rw [← UInt8.toNat_inj]
      dsimp only at highs lows
      omega
    rw [head, hex_inj rest]

theorem key_inj {s t : Transcript} (same : s.key = t.key) : s.sourceNode = t.sourceNode ∧ s.nonce = t.nonce := by
  obtain ⟨source, nonce⟩ := append_cons_inj (colon_notMem_hex _) (colon_notMem_hex _) same
  exact ⟨source, hex_inj nonce⟩

/-- Two transcripts are signed as the same bytes only if they are the same, and share a key only if they have the same
source and nonce. -/
theorem unambiguous (s t : Transcript) (source : s.sourceNode.length < 2 ^ 32) (source' : t.sourceNode.length < 2 ^ 32)
    (incarnation : s.incarnation.length < 2 ^ 32) (incarnation' : t.incarnation.length < 2 ^ 32) :
    (s.signed = t.signed → s = t) ∧ (s.key = t.key → s.sourceNode = t.sourceNode ∧ s.nonce = t.nonce) := by
  refine ⟨fun same => ?_, key_inj⟩
  simp only [signed, List.append_assoc] at same
  obtain ⟨version, same⟩ := List.append_inj same rfl
  obtain ⟨kind, same⟩ := List.append_inj same rfl
  obtain ⟨sources, same⟩ := macString_append source source' same
  obtain ⟨incarnations, same⟩ := macString_append incarnation incarnation' same
  obtain ⟨timestamp, nonces⟩ := List.append_inj same rfl
  have version := mod_of_bigEndian32 version
  have kind := mod_of_bigEndian32 kind
  have timestamp := mod_of_bigEndian64 timestamp
  have versions : s.version = t.version := by
    rw [← UInt32.toNat_inj]
    have := s.version.toNat_lt
    have := t.version.toNat_lt
    omega
  have kinds : s.kind.toUInt32 = t.kind.toUInt32 := by
    rw [← UInt32.toNat_inj]
    have := s.kind.toUInt32.toNat_lt
    have := t.kind.toUInt32.toNat_lt
    omega
  have timestamps : s.timestampUnixMilli.toUInt64 = t.timestampUnixMilli.toUInt64 := by
    rw [← UInt64.toNat_inj]
    have := s.timestampUnixMilli.toUInt64.toNat_lt
    have := t.timestampUnixMilli.toUInt64.toNat_lt
    omega
  exact Transcript.ext versions (congrArg Int32.ofUInt32 kinds) sources incarnations
    (congrArg Int64.ofUInt64 timestamps) nonces

/-- A colon that moves from the source to the incarnation is noticed. -/
theorem unambiguous_colon :
    Transcript.signed ⟨1, 1, [97, colon], [98], 0, [7]⟩ ≠ Transcript.signed ⟨1, 1, [97], [colon, 98], 0, [7]⟩ := fun same =>
  absurd ((unambiguous _ _ (by decide) (by decide) (by decide) (by decide)).1 same) (by decide)

end Transcript

end Skygo.Transport
