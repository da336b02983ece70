import Mathlib.Data.List.Sort
import Skygo.Semantics.Table

/-! Sorted sets and hashes of a Redis server.

A score is a double. Only whole scores are used here, and a whole number is a double up to
53 bits of precision.
-/

set_option autoImplicit false

attribute [-instance] instBooleanRingBool

namespace Skygo.Redis

/-- The double nearest to a whole number; halfway goes to the even one. -/
def double (n : Int) : Int :=
  if n.natAbs ≤ 2 ^ 53 then n
  else
    let unit := 2 ^ (n.natAbs.log2 - 52)
    let whole := n.natAbs / unit
    let rest := n.natAbs % unit
    let up := if unit < 2 * rest ∨ (unit = 2 * rest ∧ whole % 2 = 1) then whole + 1 else whole
    n.sign * (up * unit : Nat)

theorem double_exact {n : Int} (small : n.natAbs ≤ 2 ^ 53) : double n = n := by
  unfold double
  rw [if_pos small]

example : double (2 ^ 53 + 1) = 2 ^ 53 ∧ double (2 ^ 53 + 3) = 2 ^ 53 + 4 := by decide

abbrev Hash (K V : Type) := AList fun _ : K => V

abbrev SortedSet (M : Type) := AList fun _ : M => Int

namespace SortedSet

section Members

variable {M : Type} [DecidableEq M] {z : SortedSet M} {member other : M} {score : Int}

def zadd (z : SortedSet M) (score : Int) (member : M) : SortedSet M := z.insert member (double score)

def zrem (z : SortedSet M) (member : M) : SortedSet M := z.erase member

@[simp, grind =] theorem mem_zadd : other ∈ z.zadd score member ↔ other = member ∨ other ∈ z := AList.mem_insert z

@[simp, grind =] theorem mem_zrem : other ∈ z.zrem member ↔ other ≠ member ∧ other ∈ z := AList.mem_erase

@[grind =] theorem lookup_zadd :
    (z.zadd score member).lookup other = if other = member then some (double score) else z.lookup other :=
  Semantics.lookup_insert ..

@[grind =] theorem lookup_zrem : (z.zrem member).lookup other = if other = member then none else z.lookup other :=
  Semantics.lookup_erase ..

end Members

section Ranges

variable {M : Type} [ToString M] {z : SortedSet M} {member : M}

/-- By score, and members with one score by name. -/
def sorted (z : SortedSet M) : List ((_ : M) × Int) :=
  z.entries.insertionSort fun a b => a.2 < b.2 ∨ (a.2 = b.2 ∧ toString a.1 ≤ toString b.1)

def zrange (z : SortedSet M) : List M := z.sorted.map Sigma.fst

def zrangeByScore (z : SortedSet M) (lower upper : Int) : List M :=
  (z.sorted.filter fun entry => lower ≤ entry.2 ∧ entry.2 ≤ upper).map Sigma.fst

def zcard {M : Type} (z : SortedSet M) : Nat := z.entries.length

theorem zrange_perm : z.zrange.Perm z.keys := (List.perm_insertionSort _ z.entries).map Sigma.fst

@[simp] theorem mem_zrange : member ∈ z.zrange ↔ member ∈ z := zrange_perm.mem_iff.trans AList.mem_keys.symm

theorem nodup_zrange : z.zrange.Nodup := zrange_perm.nodup_iff.mpr z.keys_nodup

theorem length_zrange : z.zrange.length = z.zcard := by
  rw [zrange_perm.length_eq, AList.keys, List.keys, List.length_map, zcard]

end Ranges

end SortedSet

namespace Hash

variable {K V : Type} [DecidableEq K] {h : Hash K V} {field other : K} {value : V}

def hset (h : Hash K V) (field : K) (value : V) : Hash K V := h.insert field value

def hdel (h : Hash K V) (field : K) : Hash K V := h.erase field

@[grind =] theorem lookup_hset : (h.hset field value).lookup other = if other = field then some value else h.lookup other :=
  Semantics.lookup_insert ..

@[grind =] theorem lookup_hdel : (h.hdel field).lookup other = if other = field then none else h.lookup other :=
  Semantics.lookup_erase ..

end Hash

end Skygo.Redis
