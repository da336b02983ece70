import Skygo.Semantics.Stream

/-! Frames: a payload behind its length in four bytes.

Neither side sees how the other one's bytes were cut up. What is written is the encoding of the
payloads, whatever the writer takes at a time, and what is read depends on the stream only.
-/

set_option autoImplicit false

namespace Skygo.Frame

open Semantics

def headLen : Nat := 4

def maxPayload : UInt32 := 4 * 1024 * 1024

inductive Error where
  /-- `ErrPayloadTooLarge`, with what follows it in the text. -/
  | payloadTooLarge (length : Nat) (detail : String)
  | stream (failure : StreamError)
  deriving DecidableEq

def Error.text : Error → String
  | .payloadTooLarge length detail => "too large length-prefixed packet received: " ++ toString length ++ detail
  | .stream .eof => "EOF"
  | .stream .unexpectedEOF => "unexpected EOF"
  | .stream .shortWrite => "short write"
  | .stream (.other text) => text

/-- Zero stands for the default. -/
def limit (max : UInt32) : UInt32 := if max = 0 then maxPayload else max

def readLimit (r : Reader) (max : UInt32) : Except Error (List UInt8) × Reader :=
  match r.readFull headLen with
  | (.error failure, r) => (.error (.stream failure), r)
  | (.ok head, r) =>
      let dataLen := uint32 head
      if limit max < dataLen then (.error (.payloadTooLarge dataLen.toNat " bytes"), r)
      else
        match r.readFull dataLen.toNat with
        | (.error failure, r) => (.error (.stream failure), r)
        | (.ok buf, r) => (.ok buf, r)

def read (r : Reader) : Except Error (List UInt8) × Reader := readLimit r maxPayload

/-- Each round writes a byte or ends, so the length is enough fuel. -/
def writeFull : Nat → Writer → List UInt8 → Option StreamError × Writer
  | 0, w, _ => (none, w)
  | fuel + 1, w, data =>
      if data = [] then (none, w)
      else
        match w.write data with
        | (_, some failure, w) => (some failure, w)
        | (0, none, w) => (some .shortWrite, w)
        | (n + 1, none, w) => writeFull fuel w (data.drop (n + 1))

def writeUnchecked (w : Writer) (payload : List UInt8) : Option Error × Writer :=
  if 2 ^ 32 - 1 < payload.length then
    (some (.payloadTooLarge payload.length " bytes exceeds uint32 framing"), w)
  else
    match writeFull headLen w (putUint32 (.ofNat payload.length)) with
    | (some failure, w) => (some (.stream failure), w)
    | (none, w) =>
        match writeFull payload.length w payload with
        | (some failure, w) => (some (.stream failure), w)
        | (none, w) => (none, w)

def writeLimit (w : Writer) (payload : List UInt8) (max : UInt32) : Option Error × Writer :=
  if (limit max).toNat < payload.length then (some (.payloadTooLarge payload.length " bytes"), w)
  else writeUnchecked w payload

def write (w : Writer) (payload : List UInt8) : Option Error × Writer := writeLimit w payload maxPayload

def oversized (max : UInt32) (length : Nat) : Bool := (limit max).toNat < length

def encode (payload : List UInt8) : List UInt8 := putUint32 (.ofNat payload.length) ++ payload

variable {max : UInt32} {payload : List UInt8} {r : Reader} {w : Writer}

theorem writeLimit_oversized (large : oversized max payload.length = true) :
    writeLimit w payload max = (some (.payloadTooLarge payload.length " bytes"), w) :=
  if_pos (of_decide_eq_true large)

theorem length_lt (within : payload.length ≤ (limit max).toNat) : payload.length < 2 ^ 32 :=
  within.trans_lt (limit max).toNat_lt

theorem toNat_length (within : payload.length ≤ (limit max).toNat) :
    (UInt32.ofNat payload.length).toNat = payload.length := by
  rw [UInt32.toNat_ofNat']
  exact Nat.mod_eq_of_lt (length_lt within)

variable {tail : List UInt8}

theorem readLimit_encode (within : payload.length ≤ (limit max).toNat)
    (starts : r.stream = encode payload ++ tail) :
    ∃ r', readLimit r max = (.ok payload, r') ∧ r'.stream = tail ∧ r'.ending = r.ending := by
  -- two full reads: the length, and then as many bytes
  have head : headLen ≤ r.stream.length := by simp [starts, encode, headLen]
  obtain ⟨middle, first, left, ending⟩ := r.readFull_of_le head
  have taken : r.stream.take headLen = putUint32 (.ofNat payload.length) := by
    rw [starts, encode, List.append_assoc]
    exact List.take_left' (length_putUint32 _)
  have rest : middle.stream = payload ++ tail := by
    rw [left, starts, encode, List.append_assoc]
    exact List.drop_left' (length_putUint32 _)
  obtain ⟨last, second, remaining, ending'⟩ := middle.readFull_of_le (k := payload.length) (by simp [rest])
  refine ⟨last, ?_, ?_, ending'.trans ending⟩
  · rw [readLimit, first, taken]
    dsimp only
    rw [uint32_putUint32, toNat_length within, if_neg, second, rest, List.take_left]
    rw [UInt32.lt_iff_toNat_lt, toNat_length within]
    exact Nat.not_lt.mpr within
  · rw [remaining, rest, List.drop_left]

theorem encode_of_readLimit {r' : Reader} (called : readLimit r max = (.ok payload, r')) :
    payload.length ≤ (limit max).toNat ∧ r.stream = encode payload ++ r'.stream := by
  unfold readLimit at called
  by_cases head : headLen ≤ r.stream.length
  · obtain ⟨middle, first, left, -⟩ := r.readFull_of_le head
    rw [first] at called
    dsimp only at called
    split at called
    · simp at called
    · next fits =>
      by_cases enough : (uint32 (r.stream.take headLen)).toNat ≤ middle.stream.length
      · obtain ⟨last, second, remaining, -⟩ := middle.readFull_of_le enough
        rw [second] at called
        simp only [Prod.mk.injEq, Except.ok.injEq] at called
        obtain ⟨rfl, rfl⟩ := called
        have length : (middle.stream.take (uint32 (r.stream.take headLen)).toNat).length =
            (uint32 (r.stream.take headLen)).toNat := by
          rw [List.length_take]
          omega
        have four : (r.stream.take headLen).length = 4 := by
          rw [List.length_take]
          exact Nat.min_eq_left head
        constructor
        · rw [length]
          exact Nat.not_lt.mp fun beyond => fits (UInt32.lt_iff_toNat_lt.mpr beyond)
        · rw [encode, length, UInt32.ofNat_toNat, putUint32_of_length four, remaining, List.append_assoc,
            List.take_append_drop, left, List.take_append_drop]
      · -- the stream ends within the payload
        obtain ⟨last, second, -⟩ := middle.readFull_of_lt (Nat.not_le.mp enough)
        rw [second] at called
        simp at called
  · obtain ⟨middle, first, -⟩ := r.readFull_of_lt (Nat.not_le.mp head)
    rw [first] at called
    simp at called

theorem readLimit_end (ended : r.stream = []) : (readLimit r max).1 = .error (.stream r.ending) := by
  obtain ⟨r', failed, -⟩ := r.readFull_of_lt (k := headLen) (by simp [ended, headLen])
  rw [readLimit, failed]
  simp [ended]

variable {data : List UInt8}

theorem writeFull_willing {fuel : Nat} (enough : data.length ≤ fuel) (willing : w.Willing) :
    ∃ w', writeFull fuel w data = (none, w') ∧ w'.written = w.written ++ data ∧ w'.Willing := by
  induction fuel generalizing w data with
  | zero =>
    have none : data = [] := List.length_eq_zero_iff.mp (by omega)
    exact ⟨w, rfl, by simp [none], willing⟩
  | succ fuel ih =>
    unfold writeFull
    split
    · next none => exact ⟨w, rfl, by simp [none], willing⟩
    · next wanted =>
      obtain ⟨n, w', called, positive, written, still⟩ := Writer.write_willing willing wanted
      -- a willing writer takes at least one byte, so the loop never sees a write of nothing
      obtain ⟨n, rfl⟩ := Nat.exists_eq_succ_of_ne_zero positive.ne'
      rw [called]
      dsimp only
      have fewer : (data.drop (n + 1)).length ≤ fuel := by
        rw [List.length_drop]
        omega
      obtain ⟨last, done, all, kept⟩ := ih fewer still
      refine ⟨last, done, ?_, kept⟩
      rw [all, written, List.append_assoc, List.take_append_drop]

theorem writeLimit_willing (within : payload.length ≤ (limit max).toNat) (willing : w.Willing) :
    ∃ w', writeLimit w payload max = (none, w') ∧ w'.written = w.written ++ encode payload ∧ w'.Willing := by
  obtain ⟨middle, first, head, still⟩ :=
    writeFull_willing (length_putUint32 (.ofNat payload.length)).le willing
  obtain ⟨last, second, all, kept⟩ := writeFull_willing (le_refl payload.length) still
  refine ⟨last, ?_, ?_, kept⟩
  · have fits := length_lt within
    rw [writeLimit, if_neg (Nat.not_lt.mpr within), writeUnchecked, if_neg (by omega)]
    simp only [headLen, first, second]
  · rw [all, head, encode, List.append_assoc]

def writeAll (max : UInt32) : Writer → List (List UInt8) → Option Error × Writer
  | w, [] => (none, w)
  | w, payload :: payloads =>
      match writeLimit w payload max with
      | (some failure, w) => (some failure, w)
      | (none, w) => writeAll max w payloads

def readAll (max : UInt32) : Nat → Reader → List (List UInt8) × Option Error
  | 0, _ => ([], none)
  | n + 1, r =>
      match readLimit r max with
      | (.error failure, _) => ([], some failure)
      | (.ok payload, r) => (payload :: (readAll max n r).1, (readAll max n r).2)

theorem writeAll_willing {payloads : List (List UInt8)} (within : ∀ payload ∈ payloads, payload.length ≤ (limit max).toNat)
    (willing : w.Willing) :
    ∃ w', writeAll max w payloads = (none, w') ∧ w'.written = w.written ++ (payloads.map encode).flatten := by
  induction payloads generalizing w with
  | nil => exact ⟨w, rfl, by simp⟩
  | cons payload payloads ih =>
    obtain ⟨middle, first, head, still⟩ := writeLimit_willing (within payload List.mem_cons_self) willing
    obtain ⟨last, done, all⟩ := ih (fun other member => within other (List.mem_cons_of_mem _ member)) still
    refine ⟨last, ?_, ?_⟩
    · rw [writeAll, first]
      exact done
    · rw [all, head, List.map_cons, List.flatten_cons, List.append_assoc]

theorem readAll_encode {payloads : List (List UInt8)} (within : ∀ payload ∈ payloads, payload.length ≤ (limit max).toNat)
    (starts : r.stream = (payloads.map encode).flatten) :
    readAll max (payloads.length + 1) r = (payloads, some (.stream r.ending)) := by
  induction payloads generalizing r with
  | nil =>
    have failed : (readLimit r max).1 = _ := readLimit_end starts
    unfold readAll
    split
    · next failure r' called =>
      rw [called] at failed
      cases failed
      rfl
    · next payload r' called =>
      rw [called] at failed
      cases failed
  | cons payload payloads ih =>
    rw [List.map_cons, List.flatten_cons] at starts
    obtain ⟨r', called, rest, ending⟩ := readLimit_encode (within payload List.mem_cons_self) starts
    rw [List.length_cons, readAll, called]
    dsimp only
    rw [ih (fun other member => within other (List.mem_cons_of_mem _ member)) rest, ending]

/-- What is written in any portions and delivered in any chunks is what is read. A frame is read exactly when the
stream starts with one, and exactly its bytes are consumed. -/
theorem frames_bijective (max : UInt32) :
    (∀ (payloads : List (List UInt8)) (w : Writer) (r : Reader), (∀ payload ∈ payloads, payload.length ≤ (limit max).toNat) →
      w.Willing → w.written = [] → r.stream = (writeAll max w payloads).2.written →
        (writeAll max w payloads).1 = none ∧ readAll max (payloads.length + 1) r = (payloads, some (.stream r.ending))) ∧
      ∀ (r : Reader) (payload : List UInt8),
        ((readLimit r max).1 = .ok payload ↔
          payload.length ≤ (limit max).toNat ∧ ∃ tail, r.stream = putUint32 (.ofNat payload.length) ++ payload ++ tail) ∧
        ((readLimit r max).1 = .ok payload → r.stream = encode payload ++ (readLimit r max).2.stream) := by
  constructor
  · intro payloads w r within willing fresh delivered
    obtain ⟨w', done, all⟩ := writeAll_willing within willing
    rw [done, all, fresh, List.nil_append] at delivered
    exact ⟨by rw [done], readAll_encode within delivered⟩
  · intro r payload
    refine ⟨⟨fun called => ?_, ?_⟩, fun called => (encode_of_readLimit (Prod.ext called rfl)).2⟩
    · obtain ⟨within, starts⟩ := encode_of_readLimit (Prod.ext called rfl)
      exact ⟨within, _, starts⟩
    · rintro ⟨within, tail, starts⟩
      obtain ⟨r', called, -⟩ := readLimit_encode within starts
      rw [called]

/-- Two frames, one of them empty, written byte by byte and read in odd pieces. -/
theorem frames_bijective_two :
    readAll 0 3 { chunks := [[0, 0], [0, 2, 7], [], [9, 0, 0, 0], [0]], eager := true } = ([[7, 9], []], some (.stream .eof)) :=
  ((frames_bijective 0).1 [[7, 9], []] { answers := List.replicate 9 ⟨1, none⟩ }
    { chunks := [[0, 0], [0, 2, 7], [], [9, 0, 0, 0], [0]], eager := true } (by decide) (by decide) rfl
    (by decide +kernel)).2

/-! What the writer was handed -/

/-- The loop ends by itself: fuel beyond the number of bytes changes nothing. -/
theorem writeFull_fuel {fuel other : Nat} (enough : data.length ≤ fuel) (also : data.length ≤ other) :
    writeFull fuel w data = writeFull other w data := by
  induction fuel generalizing w data other with
  | zero =>
    obtain rfl : data = [] := List.length_eq_zero_iff.mp (Nat.le_zero.mp enough)
    cases other <;> rfl
  | succ fuel ih =>
    cases other with
    | zero =>
      obtain rfl : data = [] := List.length_eq_zero_iff.mp (Nat.le_zero.mp also)
      rfl
    | succ other =>
      by_cases wanted : data = []
      · rw [writeFull, writeFull, if_pos wanted, if_pos wanted]
      · rw [writeFull, writeFull, if_neg wanted, if_neg wanted]
        split
        · rfl
        · rfl
        · next n w' _ =>
          -- at least one byte is gone, so both loops have fuel for the rest
          have fewer : (data.drop (n + 1)).length < data.length := by
            rw [List.length_drop]
            have some := List.length_pos_iff.mpr wanted
            omega
          exact ih (by omega) (by omega)

/-- The front of the data was handed over, and all of it if there is no error. -/
theorem writeFull_spec {fuel : Nat} (enough : data.length ≤ fuel) :
    ∃ n, (writeFull fuel w data).2.written = w.written ++ data.take n ∧
      ((writeFull fuel w data).1 = none → data.take n = data) := by
  induction fuel generalizing w data with
  | zero =>
    obtain rfl : data = [] := List.length_eq_zero_iff.mp (Nat.le_zero.mp enough)
    exact ⟨0, by simp [writeFull], fun _ => rfl⟩
  | succ fuel ih =>
    unfold writeFull
    split
    · next none => exact ⟨0, by simp, by simp [none]⟩
    · split
      · next n failure w' called => exact ⟨n, (Writer.write_spec called).2, nofun⟩
      · next w' called => exact ⟨0, (Writer.write_spec called).2, nofun⟩
      · next n w' called =>
        have fewer : (data.drop (n + 1)).length ≤ fuel := by
          rw [List.length_drop]
          omega
        obtain ⟨m, written, whole⟩ := ih (w := w') fewer
        refine ⟨n + 1 + m, ?_, fun done => ?_⟩
        · rw [written, (Writer.write_spec called).2, List.append_assoc, ← List.take_add]
        · rw [List.take_add, whole done, List.take_append_drop]

def Honest (w : Writer) (payload : List UInt8) (result : Option Error × Writer) : Prop :=
  ∃ portion, portion <+: encode payload ∧ result.2.written = w.written ++ portion ∧
    (result.1 = none → portion = encode payload)

theorem honest_writeUnchecked : Honest w payload (writeUnchecked w payload) := by
  unfold writeUnchecked
  split
  · exact ⟨[], List.nil_prefix, by simp, nofun⟩
  · obtain ⟨n, head, whole⟩ := writeFull_spec (w := w) (length_putUint32 (.ofNat payload.length)).le
    split
    · next failure w' called =>
      rw [headLen] at called
      rw [called] at head
      exact ⟨_, (List.take_prefix ..).trans (List.prefix_append ..), head, nofun⟩
    · next w' called =>
      rw [headLen] at called
      rw [called] at head whole
      obtain ⟨m, tail, all⟩ := writeFull_spec (w := w') (le_refl payload.length)
      rw [head, whole rfl, List.append_assoc] at tail
      have front : putUint32 (.ofNat payload.length) ++ payload.take m <+: encode payload :=
        (List.prefix_append_right_inj _).mpr (List.take_prefix ..)
      split
      · next failure w'' called =>
        rw [called] at tail
        exact ⟨_, front, tail, nofun⟩
      · next w'' called =>
        rw [called] at tail all
        exact ⟨_, front, tail, fun _ => by rw [all rfl, encode]⟩

/-- Whatever the writer answers, the loops end, what was handed over is the front of the frame, and success means the
whole frame. An oversized payload is refused before anything is written. -/
theorem write_honest (w : Writer) (payload : List UInt8) (max : UInt32) :
    (∀ (w : Writer) (data : List UInt8) (fuel : Nat), data.length ≤ fuel →
      writeFull fuel w data = writeFull data.length w data) ∧
    Honest w payload (writeUnchecked w payload) ∧ Honest w payload (writeLimit w payload max) ∧
    ((limit max).toNat < payload.length →
      writeLimit w payload max = (some (.payloadTooLarge payload.length " bytes"), w)) := by
  refine ⟨fun _ _ _ enough => writeFull_fuel enough le_rfl, honest_writeUnchecked, ?_, fun large => if_pos large⟩
  unfold writeLimit
  split
  · exact ⟨[], List.nil_prefix, by simp, nofun⟩
  · exact honest_writeUnchecked

/-! Where a stream ends -/

def Frames (max : UInt32) (stream tail : List UInt8) : Prop :=
  ∃ payloads : List (List UInt8), (∀ payload ∈ payloads, payload.length ≤ (limit max).toNat) ∧
    stream = (payloads.map encode).flatten ++ tail

/-- A length within the limit that announces a payload, and nothing after it. -/
def BareHead (max : UInt32) (tail : List UInt8) : Prop :=
  ∃ dataLen : UInt32, 0 < dataLen ∧ dataLen ≤ limit max ∧ tail = putUint32 dataLen

theorem frames_of_readLimit {r' : Reader} (called : readLimit r max = (.ok payload, r'))
    (last : ∀ payload rest, tail ≠ encode payload ++ rest) :
    Frames max r.stream tail ↔ Frames max r'.stream tail := by
  obtain ⟨within, starts⟩ := encode_of_readLimit called
  constructor
  · rintro ⟨payloads, bounded, whole⟩
    cases payloads with
    | nil => exact absurd (by simpa using whole.symm.trans starts) (last payload r'.stream)
    | cons first payloads =>
      rw [List.map_cons, List.flatten_cons, List.append_assoc] at whole
      obtain ⟨r'', again, -⟩ := readLimit_encode (bounded first List.mem_cons_self) whole
      rw [called] at again
      cases again
      exact ⟨payloads, fun other member => bounded other (List.mem_cons_of_mem _ member),
        List.append_cancel_left (starts.symm.trans whole)⟩
  · rintro ⟨payloads, bounded, whole⟩
    refine ⟨payload :: payloads, ?_, by rw [starts, whole, List.map_cons, List.flatten_cons, List.append_assoc]⟩
    simpa using ⟨within, bounded⟩

theorem frames_of_failed {failure : Error} (called : (readLimit r max).1 = .error failure) :
    Frames max r.stream tail ↔ r.stream = tail := by
  constructor
  · rintro ⟨payloads, bounded, whole⟩
    cases payloads with
    | nil => simpa using whole
    | cons first payloads =>
      rw [List.map_cons, List.flatten_cons, List.append_assoc] at whole
      obtain ⟨r'', again, -⟩ := readLimit_encode (bounded first List.mem_cons_self) whole
      rw [again] at called
      cases called
  · rintro rfl
    exact ⟨[], by simp, by simp⟩

theorem putUint32_inj {v v' : UInt32} (same : putUint32 v = putUint32 v') : v = v' := by
  rw [← uint32_putUint32 v, same, uint32_putUint32]

theorem bareHead_last (bare : BareHead max tail) (payload rest : List UInt8) :
    tail ≠ encode payload ++ rest := by
  obtain ⟨dataLen, announced, -, rfl⟩ := bare
  intro same
  rw [encode, List.append_assoc] at same
  -- the length says that there is a payload, and there is not
  obtain ⟨heads, none⟩ := List.append_inj ((List.append_nil _).trans same) rfl
  obtain ⟨rfl, -⟩ := List.append_eq_nil_iff.mp none.symm
  simp [putUint32_inj heads] at announced

/-- A read says that the stream is over if nothing is left, and also if nothing is left of an announced payload. -/
theorem readLimit_eof (ends : r.ending = .eof) :
    (readLimit r max).1 = .error (.stream .eof) ↔ r.stream = [] ∨ BareHead max r.stream := by
  by_cases head : headLen ≤ r.stream.length
  · have some : r.stream ≠ [] := List.ne_nil_of_length_pos (Nat.lt_of_lt_of_le (by decide) head)
    obtain ⟨middle, first, left, ending⟩ := r.readFull_of_le head
    have four : (r.stream.take headLen).length = 4 := by
      rw [List.length_take]
      exact Nat.min_eq_left head
    have bare : BareHead max r.stream ↔ 0 < uint32 (r.stream.take headLen) ∧
        uint32 (r.stream.take headLen) ≤ limit max ∧ middle.stream = [] := by
      rw [left, List.drop_eq_nil_iff]
      constructor
      · rintro ⟨dataLen, announced, fits, whole⟩
        have taken : r.stream.take headLen = putUint32 dataLen := by rw [whole]; rfl
        rw [taken, uint32_putUint32]
        exact ⟨announced, fits, by rw [whole]; rfl⟩
      · rintro ⟨announced, fits, short⟩
        exact ⟨_, announced, fits, by rw [putUint32_of_length four, List.take_of_length_le short]⟩
    rw [readLimit, first]
    dsimp only
    rw [bare, or_iff_right some]
    split
    · next large => simp [UInt32.not_le.mpr large]
    · next fits =>
      by_cases enough : (uint32 (r.stream.take headLen)).toNat ≤ middle.stream.length
      · obtain ⟨last, second, -⟩ := middle.readFull_of_le enough
        rw [second]
        refine ⟨nofun, fun ⟨announced, _, nothing⟩ => ?_⟩
        rw [nothing, List.length_nil, Nat.le_zero] at enough
        exact absurd (UInt32.lt_iff_toNat_lt.mp announced) (by simp [enough])
      · obtain ⟨last, second, -⟩ := middle.readFull_of_lt (Nat.not_le.mp enough)
        rw [second, ending, ends]
        have announced : 0 < uint32 (r.stream.take headLen) := UInt32.lt_iff_toNat_lt.mpr (by simp; omega)
        by_cases none : middle.stream = [] <;> simp [none, announced, UInt32.not_lt.mp fits]
  · obtain ⟨middle, failed, -⟩ := r.readFull_of_lt (Nat.not_le.mp head)
    have bare : ¬ BareHead max r.stream := by
      rintro ⟨dataLen, -, -, whole⟩
      exact head (by rw [whole]; rfl)
    rw [readLimit, failed, ends]
    by_cases none : r.stream = [] <;> simp [none, bare]

/-- Every read that succeeds takes four bytes at least, so the reads come to an error, and they tell whether the stream
is whole frames, or such frames and a bare length, which it cannot be at once. -/
theorem readAll_ends {n : Nat} (ends : r.ending = .eof) (enough : r.stream.length < n) :
    (readAll max n r).2 ≠ none ∧
      ((readAll max n r).2 = some (.stream .eof) ↔
        Frames max r.stream [] ∨ ∃ tail, BareHead max tail ∧ Frames max r.stream tail) ∧
      ¬ (Frames max r.stream [] ∧ ∃ tail, BareHead max tail ∧ Frames max r.stream tail) := by
  induction n generalizing r with
  | zero => omega
  | succ n ih =>
    unfold readAll
    split
    · next failure r' called =>
      have failed : (readLimit r max).1 = .error failure := by rw [called]
      have eof : (readLimit r max).1 = _ ↔ _ := readLimit_eof ends
      rw [failed] at eof
      refine ⟨nofun, by simpa [frames_of_failed failed] using eof, ?_⟩
      simp only [frames_of_failed failed]
      rintro ⟨empty, tail, bare, rfl⟩
      obtain ⟨dataLen, -, -, whole⟩ := bare
      exact absurd (congrArg List.length (whole.symm.trans empty)) (by simp [length_putUint32])
    · next payload r' called =>
      obtain ⟨-, starts⟩ := encode_of_readLimit called
      obtain ⟨_, again, -, ending⟩ := readLimit_encode (encode_of_readLimit called).1 starts
      have shorter := congrArg List.length starts
      simp only [encode, List.length_append, length_putUint32] at shorter
      have whole := frames_of_readLimit called (by simp [encode, putUint32] : ∀ payload rest, [] ≠ encode payload ++ rest)
      have bare : (∃ tail, BareHead max tail ∧ Frames max r.stream tail) ↔
          ∃ tail, BareHead max tail ∧ Frames max r'.stream tail :=
        exists_congr fun tail => and_congr_right fun bare => frames_of_readLimit called (bareHead_last bare)
      rw [whole, bare]
      exact ih (by rw [called] at again; cases again; exact ending.trans ends) (by omega)

/-- The reads come to an error. The error says that the stream is over if it ended at the end of a frame, or right
behind a length that announces a payload, and only then; so it tells a clean end exactly if there is no such length. -/
theorem readAll_eof (max : UInt32) (r : Reader) (ends : r.ending = .eof) :
    (readAll max (r.stream.length + 1) r).2 ≠ none ∧
      ((readAll max (r.stream.length + 1) r).2 = some (.stream .eof) ↔
        Frames max r.stream [] ∨ ∃ tail, BareHead max tail ∧ Frames max r.stream tail) ∧
      (((readAll max (r.stream.length + 1) r).2 = some (.stream .eof) ↔ Frames max r.stream []) ↔
        ¬ ∃ tail, BareHead max tail ∧ Frames max r.stream tail) := by
  obtain ⟨fails, eof, exclusive⟩ := @readAll_ends max r _ ends (Nat.lt_succ_self _)
  refine ⟨fails, eof, fun clean bare => ?_, fun whole => ?_⟩
  · exact exclusive ⟨clean.mp (eof.mpr (.inr bare)), bare⟩
  · rw [eof, or_iff_left whole]

/-- A whole frame in two chunks. -/
theorem readAll_eof_whole : Frames 0 [0, 0, 0, 1, 9] [] ∨ ∃ tail, BareHead 0 tail ∧ Frames 0 [0, 0, 0, 1, 9] tail :=
  (readAll_eof 0 { chunks := [[0, 0], [0, 1, 9]] } rfl).2.1.mp (by decide +kernel)

/-- The stream ends right behind the length of a payload of five bytes, and the read reports a clean end. -/
theorem bare_head_eof :
    (readLimit { chunks := [[0, 0, 0, 5]] } 0).1 = .error (.stream .eof) ∧ ¬ Frames 0 [0, 0, 0, 5] [] := by
  refine ⟨by decide +kernel, ?_⟩
  rintro ⟨payloads, -, whole⟩
  cases payloads with
  | nil => simp at whole
  | cons first payloads =>
    rw [List.append_nil, List.map_cons, List.flatten_cons] at whole
    have bare : BareHead 0 [0, 0, 0, 5] := ⟨5, by decide, by decide, by decide⟩
    exact bareHead_last bare _ _ whole

end Skygo.Frame
