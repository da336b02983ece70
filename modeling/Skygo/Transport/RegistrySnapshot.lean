import Mathlib.Data.List.DropRight
import Mathlib.Logic.Equiv.List
import Mathlib.Data.List.Nodup
import Mathlib.Data.List.Sort
import Mathlib.Data.String.Basic

/-! The registry of nodes: what `Validate` accepts, and the form in which it is hashed and installed.

The IDs are checked as they are after trimming, and the nodes are sorted by them. Without two
equal ones the sorted list does not depend on the order before, whatever the sort does to ties.
-/

set_option autoImplicit false

namespace Skygo.Transport

def registrySchemaVersion : Int := 1

structure Endpoint where
  nodeID : String
  address : String
  deriving DecidableEq

structure RegistrySnapshot where
  schemaVersion : Int
  revision : String
  nodes : List Endpoint
  deriving DecidableEq

/-- `unicode.IsSpace`. -/
def isSpace (c : Char) : Bool :=
  c.toNat ∈ [0x20, 0x85, 0xa0, 0x1680, 0x2028, 0x2029, 0x202f, 0x205f, 0x3000] ||
    (0x09 ≤ c.toNat && c.toNat ≤ 0x0d) || (0x2000 ≤ c.toNat && c.toNat ≤ 0x200a)

/-- `strings.TrimSpace`. -/
def trimSpace (s : String) : String := .ofList ((s.toList.dropWhile isSpace).rdropWhile isSpace)

/-- What `normalized` has from `sort.Slice`: the same nodes in the order of their IDs, equal ones in any order. -/
structure SortSlice where
  sort : List Endpoint → List Endpoint
  perm : ∀ nodes, (sort nodes).Perm nodes
  sorted : ∀ nodes, (sort nodes).Pairwise fun node other => node.nodeID ≤ other.nodeID

def Endpoint.trimmed (node : Endpoint) : Endpoint := ⟨trimSpace node.nodeID, trimSpace node.address⟩

inductive RegistryError where
  | schemaVersion (got : Int)
  | incomplete (i : Nat)
  | duplicate (node : String)
  | revision (got want : String)
  deriving DecidableEq

/-- `quote` is the verb `%q`. -/
def RegistryError.text (quote : String → String) : RegistryError → String
  | .schemaVersion got =>
      "cluster: registry schemaVersion=" ++ toString got ++ " want=" ++ toString registrySchemaVersion
  | .incomplete i => "cluster: registry nodes[" ++ toString i ++ "] requires nodeId and address"
  | .duplicate node => "cluster: duplicate node " ++ quote node
  | .revision got want => "cluster: registry revision mismatch got=" ++ quote got ++ " want=" ++ quote want

namespace RegistrySnapshot

def checkNodes (i : Nat) (seen : List String) : List Endpoint → Option RegistryError
  | [] => none
  | endpoint :: rest =>
      let node := trimSpace endpoint.nodeID
      if node = "" ∨ trimSpace endpoint.address = "" then some (.incomplete i)
      else if node ∈ seen then some (.duplicate node)
      else checkNodes (i + 1) (node :: seen) rest

section

variable (slice : SortSlice) (digest : List Endpoint → String)

def normalized (s : RegistrySnapshot) : RegistrySnapshot :=
  { s with nodes := slice.sort (s.nodes.map Endpoint.trimmed) }

/-- `digest` is the hexadecimal SHA-256 of the JSON text of the nodes. -/
def computedRevision (s : RegistrySnapshot) : String := digest (s.normalized slice).nodes

def validate (s : RegistrySnapshot) : Option RegistryError :=
  if s.schemaVersion ≠ registrySchemaVersion then some (.schemaVersion s.schemaVersion)
  else
    match checkNodes 0 [] s.nodes with
    | some failure => some failure
    | none =>
        let want := (s.normalized slice).computedRevision slice digest
        if s.revision = "" ∨ s.revision ≠ want then some (.revision s.revision want) else none

/-- `endpoints`: a later node replaces an earlier one with its ID. -/
def endpoints (s : RegistrySnapshot) (nodeID : String) : Option String :=
  (s.nodes.reverse.find? (·.nodeID = nodeID)).map (·.address)

/-- `FileRegistry.Load`, from the parsed file on. -/
def load (s : RegistrySnapshot) : Except RegistryError RegistrySnapshot :=
  match s.validate slice digest with
  | some failure => .error failure
  | none => .ok (s.normalized slice)

end

end RegistrySnapshot

/-- Blanks were added in front and behind. -/
def Pads (text padded : String) : Prop :=
  ∃ front back : List Char, (∀ c ∈ front, isSpace c = true) ∧ (∀ c ∈ back, isSpace c = true) ∧
    padded = String.ofList front ++ text ++ String.ofList back

/-- The same snapshot with its nodes in another order and with blanks around IDs and addresses. -/
structure RegistrySnapshot.Rewrites (s s' : RegistrySnapshot) : Prop where
  schemaVersion : s'.schemaVersion = s.schemaVersion
  revision : s'.revision = s.revision
  nodes : ∃ padded : List Endpoint, padded.Perm s'.nodes ∧
    List.Forall₂ (fun node other => Pads node.nodeID other.nodeID ∧ Pads node.address other.address) s.nodes padded

/-! Trimming -/

theorem Pads.trimSpace {text padded : String} (pads : Pads text padded) : trimSpace padded = trimSpace text := by
  obtain ⟨front, back, blank, blank', rfl⟩ := pads
  simp only [Transport.trimSpace, String.toList_append, String.toList_ofList, List.append_assoc]
  rw [List.dropWhile_append_of_pos blank, List.dropWhile_append]
  split
  · next none => rw [List.isEmpty_iff.mp none, List.dropWhile_eq_nil_iff.mpr blank']
  · -- what is left of the text does not end in the blanks behind it
    rw [List.rdropWhile, List.reverse_append, List.dropWhile_append_of_pos (by simpa using blank'), ← List.rdropWhile]

theorem trimSpace_idem (s : String) : trimSpace (trimSpace s) = trimSpace s := by
  simp only [trimSpace, String.toList_ofList]
  -- the first character stays the first one
  have kept : ((s.toList.dropWhile isSpace).rdropWhile isSpace).dropWhile isSpace =
      (s.toList.dropWhile isSpace).rdropWhile isSpace := by
    refine List.dropWhile_eq_self_iff.mpr fun some => ?_
    have front := List.rdropWhile_prefix isSpace (s.toList.dropWhile isSpace)
    rw [front.getElem some]
    exact List.dropWhile_get_zero_not _ _ (some.trans_le front.length_le)
  rw [kept, List.rdropWhile_idempotent]

theorem Endpoint.trimmed_trimmed (node : Endpoint) : node.trimmed.trimmed = node.trimmed := by
  simp [trimmed, trimSpace_idem]

/-! The loop of `Validate` -/

/-- No ID and no address is empty, and no ID comes twice. -/
structure Proper (nodes : List Endpoint) : Prop where
  complete : ∀ node ∈ nodes, node.nodeID ≠ "" ∧ node.address ≠ ""
  distinct : (nodes.map Endpoint.nodeID).Nodup

theorem Proper.perm {nodes other : List Endpoint} (proper : Proper nodes) (same : nodes.Perm other) : Proper other :=
  ⟨fun node member => proper.complete node (same.mem_iff.mpr member), (same.map _).nodup_iff.mp proper.distinct⟩

theorem proper_cons {node : Endpoint} {nodes : List Endpoint} : Proper (node :: nodes) ↔
    (node.nodeID ≠ "" ∧ node.address ≠ "") ∧ (∀ other ∈ nodes, other.nodeID ≠ node.nodeID) ∧ Proper nodes := by
  constructor
  · rintro ⟨complete, distinct⟩
    simp only [List.map_cons, List.nodup_cons, List.mem_map, not_exists, not_and] at distinct
    exact ⟨complete node List.mem_cons_self, distinct.1,
      fun other member => complete other (List.mem_cons_of_mem _ member), distinct.2⟩
  · rintro ⟨whole, fresh, complete, distinct⟩
    exact ⟨by simpa using ⟨whole, complete⟩, by simpa using ⟨fresh, distinct⟩⟩

namespace RegistrySnapshot

theorem checkNodes_eq_none {i : Nat} {seen : List String} {nodes : List Endpoint} :
    checkNodes i seen nodes = none ↔
      Proper (nodes.map Endpoint.trimmed) ∧ ∀ node ∈ nodes.map Endpoint.trimmed, node.nodeID ∉ seen := by
  induction nodes generalizing i seen with
  | nil => simpa [checkNodes] using ⟨by simp, by simp⟩
  | cons node rest ih =>
    rw [List.map_cons, proper_cons, checkNodes]
    split_ifs with empty known
    · rw [false_iff]
      rintro ⟨⟨whole, -⟩, -⟩
      exact empty.elim whole.1 whole.2
    · rw [false_iff]
      rintro ⟨-, fresh⟩
      exact fresh _ List.mem_cons_self known
    · have whole : node.trimmed.nodeID ≠ "" ∧ node.trimmed.address ≠ "" := not_or.mp empty
      have unseen : node.trimmed.nodeID ∉ seen := known
      rw [ih, List.forall_mem_cons]
      simp only [List.mem_cons, not_or, imp_and, forall_and]
      exact ⟨fun ⟨proper, fresh, rest⟩ => ⟨⟨whole, fresh, proper⟩, unseen, rest⟩,
        fun ⟨⟨_, fresh, proper⟩, _, rest⟩ => ⟨proper, fresh, rest⟩⟩

section

variable {slice : SortSlice} {digest : List Endpoint → String} {s s' t : RegistrySnapshot}

theorem sort_eq {nodes other : List Endpoint} (distinct : (nodes.map Endpoint.nodeID).Nodup) (same : nodes.Perm other) :
    slice.sort nodes = slice.sort other := by
  refine List.Perm.eq_of_pairwise (fun node node' member member' before after => ?_) (slice.sorted _) (slice.sorted _)
    (((slice.perm nodes).trans same).trans (slice.perm other).symm)
  exact List.inj_on_of_nodup_map distinct ((slice.perm _).mem_iff.mp member)
    (same.mem_iff.mpr ((slice.perm _).mem_iff.mp member')) (le_antisymm before after)

theorem validate_eq_none : s.validate slice digest = none ↔ s.schemaVersion = registrySchemaVersion ∧
    Proper (s.nodes.map Endpoint.trimmed) ∧ s.revision ≠ "" ∧
      s.revision = (s.normalized slice).computedRevision slice digest := by
  have checked : checkNodes 0 [] s.nodes = none ↔ Proper (s.nodes.map Endpoint.trimmed) := by simp [checkNodes_eq_none]
  unfold validate
  split_ifs with version
  · simp [version]
  · rw [ne_eq, not_not] at version
    rw [← checked]
    cases checkNodes 0 [] s.nodes with
    | some failure => simp
    | none => simp [version]

theorem normalized_normalized (proper : Proper (s.nodes.map Endpoint.trimmed)) :
    (s.normalized slice).normalized slice = s.normalized slice := by
  have trimmed : (slice.sort (s.nodes.map Endpoint.trimmed)).map Endpoint.trimmed =
      slice.sort (s.nodes.map Endpoint.trimmed) := by
    refine (List.map_congr_left fun node member => ?_).trans (List.map_id _)
    obtain ⟨before, -, rfl⟩ := List.mem_map.mp ((slice.perm _).mem_iff.mp member)
    exact before.trimmed_trimmed
  simp only [normalized, trimmed]
  rw [sort_eq (proper.perm (slice.perm _).symm).distinct (slice.perm _)]

theorem map_trimmed {nodes padded : List Endpoint}
    (pads : List.Forall₂ (fun node other => Pads node.nodeID other.nodeID ∧ Pads node.address other.address) nodes padded) :
    padded.map Endpoint.trimmed = nodes.map Endpoint.trimmed := by
  induction pads with
  | nil => rfl
  | cons pad _ ih => simp only [List.map_cons, ih, Endpoint.trimmed, pad.1.trimSpace, pad.2.trimSpace]

theorem Rewrites.perm (rewrites : s.Rewrites s') :
    (s.nodes.map Endpoint.trimmed).Perm (s'.nodes.map Endpoint.trimmed) := by
  obtain ⟨padded, perm, pads⟩ := rewrites.nodes
  rw [← map_trimmed pads]
  exact perm.map _

theorem Rewrites.normalized (rewrites : s.Rewrites s') (proper : Proper (s.nodes.map Endpoint.trimmed)) :
    s'.normalized slice = s.normalized slice := by
  simp only [RegistrySnapshot.normalized, rewrites.schemaVersion, rewrites.revision,
    sort_eq proper.distinct rewrites.perm]

theorem load_eq (valid : s.validate slice digest = none) : s.load slice digest = .ok (s.normalized slice) := by
  rw [load, valid]

/-- A snapshot that is accepted has one form, whatever the order of its nodes and the blanks around its texts: it is
accepted with the same revision, and the same nodes are installed. Snapshots with different endpoints have different
revisions, if the digest tells lists of nodes apart. -/
theorem canonical (slice : SortSlice) (digest : List Endpoint → String) (s : RegistrySnapshot)
    (valid : s.validate slice digest = none) :
    (∀ s', s.Rewrites s' → s'.validate slice digest = none ∧ s'.computedRevision slice digest = s.revision ∧
      (s'.normalized slice).nodes = (s.normalized slice).nodes ∧
      (s'.normalized slice).normalized slice = s'.normalized slice ∧
      ∃ loaded loaded', s.load slice digest = .ok loaded ∧ s'.load slice digest = .ok loaded' ∧
        loaded'.endpoints = loaded.endpoints) ∧
    (Function.Injective digest → ∀ t : RegistrySnapshot, t.validate slice digest = none →
      (t.normalized slice).endpoints ≠ (s.normalized slice).endpoints → t.revision ≠ s.revision) := by
  have accepted := validate_eq_none.mp valid
  obtain ⟨version, proper, given, want⟩ := accepted
  constructor
  · intro s' rewrites
    have proper' := proper.perm rewrites.perm
    have same : s'.normalized slice = s.normalized slice := rewrites.normalized proper
    have valid' : s'.validate slice digest = none := by
      refine validate_eq_none.mpr ⟨rewrites.schemaVersion.trans version, proper', ?_, ?_⟩
      · rw [rewrites.revision]
        exact given
      · rw [rewrites.revision, same]
        exact want
    refine ⟨valid', ?_, by rw [same], normalized_normalized proper', _, _, load_eq valid, load_eq valid', by rw [same]⟩
    rw [want, computedRevision, computedRevision, same, normalized_normalized proper]
  · intro injective t valid' differ equal
    obtain ⟨-, proper', -, want'⟩ := validate_eq_none.mp valid'
    rw [want, want', computedRevision, computedRevision, normalized_normalized proper, normalized_normalized proper'] at equal
    refine differ (funext fun nodeID => ?_)
    simp only [endpoints, injective equal]

end

def insertion : SortSlice where
  sort := List.insertionSort fun node other => node.nodeID ≤ other.nodeID
  perm := List.perm_insertionSort _
  sorted nodes := by
    have : Std.Total fun node other : Endpoint => node.nodeID ≤ other.nodeID := ⟨fun _ _ => le_total _ _⟩
    have : IsTrans Endpoint fun node other => node.nodeID ≤ other.nodeID := ⟨fun _ _ _ => le_trans⟩
    exact List.pairwise_insertionSort _ nodes

def unary (nodes : List Endpoint) : String :=
  .ofList (List.replicate (Encodable.encode (nodes.map fun node =>
    (node.nodeID.toList.map Char.toNat, node.address.toList.map Char.toNat)) + 1) '1')

theorem unary_injective : Function.Injective unary := by
  intro nodes other same
  have lengths := congrArg List.length (String.ofList_injective same)
  rw [List.length_replicate, List.length_replicate, Nat.add_right_cancel_iff, Encodable.encode_inj] at lengths
  have chars : Function.Injective Char.toNat := fun _ _ => Char.toNat_inj.mp
  refine List.map_injective_iff.mpr (fun node node' equal => ?_) lengths
  rw [Prod.mk.injEq] at equal
  have ids := String.toList_injective (List.map_injective_iff.mpr chars equal.1)
  have addresses := String.toList_injective (List.map_injective_iff.mpr chars equal.2)
  cases node
  cases node'
  simp_all

def two : RegistrySnapshot := ⟨1, unary [⟨"a", "x:1"⟩, ⟨"b", "x:2"⟩], [⟨"b", "x:2"⟩, ⟨"a", "x:1"⟩]⟩

theorem validate_two : two.validate insertion unary = none := by
  refine validate_eq_none.mpr ⟨rfl, ⟨by decide +kernel, by decide +kernel⟩, ?_, ?_⟩
  · intro empty
    have length := congrArg (·.toList.length) empty
    simp [two, unary] at length
  · have sorted : (((two.normalized insertion).normalized insertion).nodes) = [⟨"a", "x:1"⟩, ⟨"b", "x:2"⟩] := by
      decide +kernel
    rw [computedRevision, sorted]
    rfl

def spaced : RegistrySnapshot := ⟨1, two.revision, [⟨" a", "x:1\n"⟩, ⟨"b", "x:2 "⟩]⟩

theorem rewrites_spaced : two.Rewrites spaced := by
  have plain (text : String) : Pads text text := ⟨[], [], by simp, by simp, by simp⟩
  refine ⟨rfl, rfl, [⟨"b", "x:2 "⟩, ⟨" a", "x:1\n"⟩], List.Perm.swap _ _ _, ?_⟩
  refine .cons ⟨plain _, [], [' '], by simp, by simp [isSpace], by decide +kernel⟩ (.cons ⟨?_, ?_⟩ .nil)
  · exact ⟨[' '], [], by simp [isSpace], by simp, by decide +kernel⟩
  · exact ⟨[], ['\n'], by simp, by simp [isSpace], by decide +kernel⟩

theorem canonical_two : spaced.validate insertion unary = none ∧ Function.Injective unary :=
  ⟨((canonical insertion unary two validate_two).1 spaced rewrites_spaced).1, unary_injective⟩

end RegistrySnapshot

end Skygo.Transport
