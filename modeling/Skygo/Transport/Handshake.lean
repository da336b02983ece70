import Mathlib.Algebra.Group.Int.Defs
import Mathlib.Data.List.Pairwise
import Skygo.Semantics.Machine
import Skygo.Transport.Config

/-! Handshakes and the nonces a node remembers against replays.

A nonce is forgotten once its time to live is over. Whether the timestamp has left the
accepted window by then depends on the configuration, and decides whether an envelope can
be accepted twice.
-/

set_option autoImplicit false

namespace Skygo.Transport

open Crypto Semantics

def protocolVersion : Nat := 1

/-- The fields of `wire.Envelope` a handshake uses. -/
structure Hello where
  version : Nat
  kind : Kind
  sourceNode : String
  incarnation : String
  timestampUnixMilli : Int
  nonce : Bytes
  mac : Bytes := []
  deriving DecidableEq

def writeMACString (value : String) : Bytes :=
  let bytes := value.toUTF8.toList
  Sha256.bigEndian32 bytes.length ++ bytes

def Hello.signed (e : Hello) : Bytes :=
  Sha256.bigEndian32 e.version ++ Sha256.bigEndian32 e.kind.number ++ writeMACString e.sourceNode ++
  writeMACString e.incarnation ++ Sha256.bigEndian64 (e.timestampUnixMilli % 2 ^ 64).toNat ++ e.nonce

def signHandshake (secret : Bytes) (e : Hello) : Bytes := hmacSha256 secret e.signed

def hexByte (b : UInt8) : List Char := [Nat.digitChar (b.toNat / 16), Nat.digitChar (b.toNat % 16)]

def Hello.key (e : Hello) : String := e.sourceNode ++ ":" ++ String.ofList (e.nonce.flatMap hexByte)

/-- `time.UnixMilli` of the timestamp. -/
def Hello.timestamp (e : Hello) : Int := e.timestampUnixMilli * 1000000

/-- When the nonce of each key expires. -/
abbrev Nonces := String → Option Int

def Nonces.evict (nonces : Nonces) (now : Int) : Nonces := fun key => (nonces key).filter fun expires => now ≤ expires

/-- The error, if any, and the nonces afterwards. -/
def verifyHandshake (cfg : Config) (nonces : Nonces) (now : Int) (e : Hello) (expectedKind : Kind) :
    Option String × Nonces :=
  if e.version ≠ protocolVersion ∨ e.kind ≠ expectedKind then
    (some "cluster: unsupported handshake version or kind", nonces)
  else if e.sourceNode = "" ∨ e.incarnation = "" ∨ e.nonce.length < 16 then
    (some "cluster: incomplete handshake", nonces)
  else if e.timestamp < now - cfg.clockSkew ∨ now + cfg.clockSkew < e.timestamp then
    (some "cluster: handshake timestamp outside allowed skew", nonces)
  else if signHandshake (cfg.peerSecret e.sourceNode) e ≠ e.mac then
    (some "cluster: handshake authentication failed", nonces)
  else if (nonces.evict now e.key).isSome then
    (some "cluster: handshake nonce replay", nonces.evict now)
  else (none, Function.update (nonces.evict now) e.key (some (now + cfg.nonceTTL)))

/-- `handshake`, with the random nonce and the clock it reads. -/
def handshake (cfg : Config) (incarnation : String) (kind : Kind) (remote : String) (now : Int) (nonce : Bytes) :
    Hello :=
  let e : Hello :=
    { version := protocolVersion
      kind := kind
      sourceNode := cfg.nodeID
      incarnation := incarnation
      timestampUnixMilli := now / 1000000
      nonce := nonce }
  { e with mac := signHandshake (cfg.peerSecret remote) e }

/-- A node as `verifyHandshake` sees it. `accepted` is history. -/
structure Verifier where
  nonces : Nonces := fun _ => none
  clock : Int
  accepted : List Hello := []

structure Verification where
  now : Int
  envelope : Hello
  expectedKind : Kind

namespace Verifier

def next (cfg : Config) (v : Verifier) (a : Verification) : Verifier :=
  match verifyHandshake cfg v.nonces a.now a.envelope a.expectedKind with
  | (none, nonces) => { nonces := nonces, clock := a.now, accepted := v.accepted ++ [a.envelope] }
  | (some _, nonces) => { v with nonces := nonces, clock := a.now }

def machine (cfg : Config) : Machine Verifier Verification where
  Enabled v a := v.clock ≤ a.now
  next := next cfg
  decideEnabled _ _ := inferInstance

end Verifier

/-- The same envelope again: its source, its nonce and its timestamp. -/
def Hello.Replays (first again : Hello) : Prop :=
  again.sourceNode = first.sourceNode ∧ again.nonce = first.nonce ∧
  again.timestampUnixMilli = first.timestampUnixMilli

theorem Hello.Replays.key {first again : Hello} (replays : first.Replays again) : again.key = first.key := by
  unfold Hello.key
  rw [replays.1, replays.2.1]

variable {cfg : Config} {nonces : Nonces} {now : Int} {e : Hello} {kind : Kind} {v : Verifier} {a : Verification}

theorem Nonces.evict_eq_some {key : String} {expires : Int} :
    nonces.evict now key = some expires ↔ nonces key = some expires ∧ now ≤ expires := by
  simp [Nonces.evict, Option.filter_eq_some_iff]

theorem verifyHandshake_accepts {kept : Nonces} (accepts : verifyHandshake cfg nonces now e kind = (none, kept)) :
    now - cfg.clockSkew ≤ e.timestamp ∧ e.timestamp ≤ now + cfg.clockSkew ∧ nonces.evict now e.key = none ∧
    kept = Function.update (nonces.evict now) e.key (some (now + cfg.nonceTTL)) := by
  unfold verifyHandshake at accepts
  split_ifs at accepts with _ _ window _ replay
  · simp at accepts
  · simp at accepts
  · simp at accepts
  · simp at accepts
  · simp at accepts
  · simp only [not_or, Int.not_lt] at window
    refine ⟨window.1, window.2, by simpa using replay, ?_⟩
    exact (Prod.ext_iff.mp accepts).2.symm

theorem verifyHandshake_rejects {kept : Nonces} {message : String}
    (rejects : verifyHandshake cfg nonces now e kind = (some message, kept)) :
    kept = nonces ∨ kept = nonces.evict now := by
  unfold verifyHandshake at rejects
  split_ifs at rejects <;> simp only [Prod.mk.injEq, reduceCtorEq, false_and] at rejects
  · exact .inl rejects.2.symm
  · exact .inl rejects.2.symm
  · exact .inl rejects.2.symm
  · exact .inl rejects.2.symm
  · exact .inr rejects.2.symm

namespace Verifier

structure Guarded (cfg : Config) (v : Verifier) : Prop where
  remembered : ∀ e ∈ v.accepted, e.timestamp + cfg.clockSkew < v.clock ∨
    ∃ expires, v.nonces e.key = some expires ∧ e.timestamp + cfg.clockSkew ≤ expires
  once : v.accepted.Pairwise fun first again => ¬first.Replays again

theorem Guarded.evicted (guarded : v.Guarded cfg) (later : v.clock ≤ now) :
    ∀ e ∈ v.accepted, e.timestamp + cfg.clockSkew < now ∨
      ∃ expires, v.nonces.evict now e.key = some expires ∧ e.timestamp + cfg.clockSkew ≤ expires := by
  intro e member
  rcases guarded.remembered e member with stale | ⟨expires, known, long⟩
  · exact .inl (by omega)
  · by_cases expired : now ≤ expires
    · exact .inr ⟨expires, Nonces.evict_eq_some.mpr ⟨known, expired⟩, long⟩
    · exact .inl (by omega)

theorem guarded_next (covers : 2 * cfg.clockSkew ≤ cfg.nonceTTL) (guarded : v.Guarded cfg)
    (enabled : (machine cfg).Enabled v a) : (next cfg v a).Guarded cfg := by
  have evicted := guarded.evicted enabled
  unfold next
  split
  · next kept accepts =>
    obtain ⟨early, late, unknown, rfl⟩ := verifyHandshake_accepts accepts
    refine ⟨fun e member => ?_, List.pairwise_append.mpr ⟨guarded.once, List.pairwise_singleton _ _, ?_⟩⟩
    · rcases List.mem_append.mp member with old | fresh
      · rcases evicted e old with stale | ⟨expires, known, long⟩
        · exact .inl stale
        · have other : e.key ≠ a.envelope.key := by
            intro same
            rw [same, unknown] at known
            cases known
          exact .inr ⟨expires, (Function.update_of_ne other _ _).trans known, long⟩
      · rw [List.mem_singleton] at fresh
        subst fresh
        refine .inr ⟨a.now + cfg.nonceTTL, Function.update_self _ _ _, ?_⟩
        omega
    · intro first old again fresh replays
      rw [List.mem_singleton] at fresh
      subst fresh
      -- the nonce was forgotten, so the timestamp is out of the window
      rcases evicted first old with stale | ⟨expires, known, _⟩
      · have same : a.envelope.timestamp = first.timestamp := by
          unfold Hello.timestamp
          rw [replays.2.2]
        omega
      · rw [← replays.key, unknown] at known
        cases known
  · next message kept rejects =>
    refine ⟨fun e member => ?_, guarded.once⟩
    rcases verifyHandshake_rejects rejects with rfl | rfl
    · rcases guarded.remembered e member with stale | remembered
      · have later : v.clock ≤ a.now := enabled
        refine .inl ?_
        dsimp only
        omega
      · exact .inr remembered
    · exact evicted e member

structure Valid (cfg : Config) (e : Hello) : Prop where
  version : e.version = protocolVersion
  source : e.sourceNode ≠ ""
  incarnation : e.incarnation ≠ ""
  nonce : 16 ≤ e.nonce.length
  signed : signHandshake (cfg.peerSecret e.sourceNode) e = e.mac

def accept (cfg : Config) (v : Verifier) (now : Int) (e : Hello) : Verifier where
  nonces := Function.update (v.nonces.evict now) e.key (some (now + cfg.nonceTTL))
  clock := now
  accepted := v.accepted ++ [e]

/-- A valid envelope is accepted while its timestamp is in the window and its nonce unknown. -/
theorem next_accepts (v : Verifier) (now : Int) (valid : Valid cfg e)
    (window : now - cfg.clockSkew ≤ e.timestamp ∧ e.timestamp ≤ now + cfg.clockSkew)
    (unknown : v.nonces.evict now e.key = none) : next cfg v ⟨now, e, e.kind⟩ = v.accept cfg now e := by
  have accepts : verifyHandshake cfg v.nonces now e e.kind = (none, (v.accept cfg now e).nonces) := by
    unfold verifyHandshake
    rw [if_neg (by simp [valid.version]), if_neg (by simp [valid.source, valid.incarnation, valid.nonce]),
      if_neg (by omega), if_neg (by simp [valid.signed]), if_neg (by simp [unknown])]
    rfl
  simp only [next, accepts]
  rfl

def recorded (cfg : Config) (milli : Int) : Hello :=
  let e : Hello :=
    { version := protocolVersion
      kind := .hello
      sourceNode := "peer"
      incarnation := "boot"
      timestampUnixMilli := milli
      nonce := List.replicate 24 7 }
  { e with mac := signHandshake (cfg.peerSecret "peer") e }

theorem valid_recorded (cfg : Config) (milli : Int) : Valid cfg (recorded cfg milli) where
  version := rfl
  source := by simp [recorded]
  incarnation := by simp [recorded]
  nonce := by simp [recorded]
  signed := rfl

def twice (cfg : Config) (milli : Int) : List Verification :=
  [⟨milli * 1000000 - cfg.clockSkew, recorded cfg milli, .hello⟩,
    ⟨milli * 1000000 + cfg.clockSkew, recorded cfg milli, .hello⟩]

theorem run_twice (milli : Int) (positive : 0 < cfg.clockSkew) (short : cfg.nonceTTL < 2 * cfg.clockSkew) :
    ∃ v, (machine cfg).run { clock := milli * 1000000 - cfg.clockSkew } (twice cfg milli) = some v ∧
      v.accepted = [recorded cfg milli, recorded cfg milli] := by
  have valid := valid_recorded cfg milli
  have timestamp : (recorded cfg milli).timestamp = milli * 1000000 := rfl
  let early := milli * 1000000 - cfg.clockSkew
  let late := milli * 1000000 + cfg.clockSkew
  let fresh : Verifier := { clock := early }
  let once := fresh.accept cfg early (recorded cfg milli)
  have first : next cfg fresh ⟨early, recorded cfg milli, .hello⟩ = once :=
    next_accepts fresh early valid (by omega) (by simp [Nonces.evict, fresh])
  have forgotten : once.nonces.evict late (recorded cfg milli).key = none := by
    simp only [once, accept, Nonces.evict, Function.update_self, Option.filter_eq_none_iff]
    simp only [Option.some.injEq, forall_eq', decide_eq_true_eq]
    omega
  have second : next cfg once ⟨late, recorded cfg milli, .hello⟩ = once.accept cfg late (recorded cfg milli) :=
    next_accepts once late valid (by omega) forgotten
  refine ⟨once.accept cfg late (recorded cfg milli), Machine.run_cons.mpr ⟨Int.le_refl early, ?_⟩, rfl⟩
  refine Machine.run_cons.mpr ⟨?_, ?_⟩
  · show (next cfg fresh _).clock ≤ late
    rw [first]
    show early ≤ late
    omega
  · show some (next cfg (next cfg fresh _) _) = _
    rw [first, second]

end Verifier

/-- For every configuration that passes, no envelope is ever accepted twice if and only if nonces are
remembered for twice the clock skew. -/
theorem replay_protection {given : Config} (passes : given.defaults = .ok cfg) :
    (∀ (clock : Int) (v : Verifier), (Verifier.machine cfg).Reachable { clock := clock } v →
      v.accepted.Pairwise fun first again => ¬first.Replays again) ↔ 2 * cfg.clockSkew ≤ cfg.nonceTTL := by
  constructor
  · intro protected_
    by_contra short
    obtain ⟨_, _, _, _, _, positive, _⟩ := Config.defaults_positive passes
    obtain ⟨v, ran, accepted⟩ := Verifier.run_twice 0 positive (by omega)
    have once := protected_ _ v ⟨_, ran⟩
    rw [accepted] at once
    exact (List.pairwise_cons.mp once).1 _ (List.mem_singleton_self _) ⟨rfl, rfl, rfl⟩
  · intro covers clock v reached
    have start : Verifier.Guarded cfg { clock := clock } :=
      ⟨fun e member => (by cases member), List.Pairwise.nil⟩
    exact (reached.invariant (I := Verifier.Guarded cfg) start fun _ _ guarded enabled =>
      Verifier.guarded_next covers guarded enabled).once

def standard : Config where
  nodeID := "node"
  listen := ":7000"
  secret := List.replicate 16 1

theorem replay_protection_standard :
    standard.defaults = .ok standard.sized.timed ∧
    ∀ (clock : Int) (v : Verifier), (Verifier.machine standard.sized.timed).Reachable { clock := clock } v →
      v.accepted.Pairwise fun first again => ¬first.Replays again :=
  ⟨by decide +kernel, (replay_protection (by decide +kernel : standard.defaults = .ok standard.sized.timed)).mpr
    (by decide)⟩

def skewed : Config := { standard with clockSkew := 600 * second }

theorem skewed_replayed :
    skewed.defaults = .ok skewed.sized.timed ∧
    ∃ v, (Verifier.machine skewed.sized.timed).run
        { clock := 1790000000000 * 1000000 - skewed.sized.timed.clockSkew }
        (Verifier.twice skewed.sized.timed 1790000000000) = some v ∧
      v.accepted = [Verifier.recorded skewed.sized.timed 1790000000000,
        Verifier.recorded skewed.sized.timed 1790000000000] :=
  ⟨by decide +kernel, Verifier.run_twice 1790000000000 (by decide) (by decide)⟩

end Skygo.Transport
