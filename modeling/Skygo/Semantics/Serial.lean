import Skygo.Semantics.Program

/-! Calls of a pool that do not overlap.

Every call opens with its first command. If none opens between the opening command of another and
its end, the calls have the effect of whole calls, one after another in the order in which they
open, although their other commands are issued one by one.
-/

set_option autoImplicit false

namespace Skygo.Semantics

namespace Program

variable {C : Type} {R : C → Type} {α : Type} (opens : C → Bool)

/-- The first command opens the call, and no other does. -/
def Opens : Program C R α → Prop
  | done _ => False
  | issue c resume => opens c = true ∧ ∀ r, (resume r).Only fun c => opens c = false

def waiting (p : Program C R α) : Bool := p.head?.any opens

variable {opens} {p : Program C R α}

theorem Opens.waiting (first : p.Opens opens) : p.waiting opens = true := by
  cases p with
  | done => exact first.elim
  | issue c resume => exact first.1

theorem Only.not_waiting (only : p.Only fun c => opens c = false) : p.waiting opens = false := by
  cases p with
  | done => rfl
  | issue c resume => exact only.1

end Program

namespace Pool

open Program

variable {S C Op : Type} {R : C → Type}

def ready (code : Op → Program C R Unit) (s : S) (ops : List Op) : Pool S C R Op :=
  { store := s, calls := ops.map code, started := ops }

/-- No call is opened between the opening command of another and its end. -/
def Serial (opens : C → Bool) (p : Pool S C R Op) : Action Op → Prop
  | .step i => (p.calls[i]?).any (waiting opens) = true →
      ∀ call ∈ p.calls, call.waiting opens = true ∨ call.finished = true
  | _ => True

instance {opens : C → Bool} (p : Pool S C R Op) (a : Action Op) : Decidable (Serial opens p a) := by
  cases a <;> unfold Serial <;> infer_instance

def sequential (exec : S → (c : C) → S × R c) (code : Op → Program C R Unit) (s : S) (order : List Op) : S :=
  order.foldl (fun s op => ((code op).run exec s).1) s

variable {exec : S → (c : C) → S × R c} {code : Op → Program C R Unit} {opens : C → Bool} {s : S} {ops : List Op}
  {p : Pool S C R Op}

def opened? (opens : C → Bool) (entry : Op × Program C R Unit) : Option Op :=
  if entry.2.waiting opens then none else some entry.1

/-- The calls with what they were started for. Those that were opened have been executed in order, but for what the current
one still has to issue. -/
structure Serialized (exec : S → (c : C) → S × R c) (code : Op → Program C R Unit) (opens : C → Bool) (s : S)
    (entries : List (Op × Program C R Unit)) (order : List Op) (current : Nat) (rest : Program C R Unit)
    (p : Pool S C R Op) : Prop where
  effect : (rest.run exec p.store).1 = sequential exec code s order
  opened : order.Perm (entries.filterMap (opened? opens))
  calls : p.calls = entries.map Prod.snd
  closed : ∀ (i : Nat) (entry : Op × Program C R Unit), entries[i]? = some entry →
    entry.2 = code entry.1 ∨ entry.2.Only fun c => opens c = false
  active : rest = .done () ∨ p.calls[current]? = some rest ∧ rest.waiting opens = false
  others : ∀ (i : Nat) (call : Program C R Unit), p.calls[i]? = some call →
    call.waiting opens = true ∨ call.finished = true ∨ i = current ∧ call = rest

section Steps

variable {entries : List (Op × Program C R Unit)} {order : List Op} {op : Op} {current i : Nat} {rest : Program C R Unit}
  {c : C} {resume : R c → Program C R Unit}

namespace Serialized

theorem settled (known : Serialized exec code opens s entries order current rest p)
    (idle : ∀ call ∈ p.calls, call.waiting opens = true ∨ call.finished = true) :
    p.store = sequential exec code s order := by
  have ended : rest = .done () := by
    rcases known.active with ended | ⟨found, begun⟩
    · exact ended
    · rcases idle rest (List.mem_of_getElem? found) with waits | ends
      · rw [begun] at waits
        cases waits
      · cases rest with
        | done => rfl
        | issue c resume => cases ends
  have effect := known.effect
  rw [ended] at effect
  exact effect

theorem goes (known : Serialized exec code opens s entries order current rest p)
    (found : p.calls[i]? = some (.issue c resume))
    (closed : (resume (exec p.store c).2).Only fun c => opens c = false) {extended : List Op}
    (effect : ((resume (exec p.store c).2).run exec (exec p.store c).1).1 = sequential exec code s extended)
    (opened : extended.Perm ((entries.modify i fun entry => (entry.1, resume (exec p.store c).2)).filterMap (opened? opens)))
    (others : ∀ (j : Nat) (call : Program C R Unit), j ≠ i → p.calls[j]? = some call →
      call.waiting opens = true ∨ call.finished = true) :
    Serialized exec code opens s (entries.modify i fun entry => (entry.1, resume (exec p.store c).2)) extended i
      (resume (exec p.store c).2)
      { p with
        store := (exec p.store c).1
        calls := p.calls.modify i fun _ => resume (exec p.store c).2
        log := (i, ⟨c, (exec p.store c).2⟩) :: p.log } where
  effect := effect
  opened := opened
  calls := by
    show p.calls.modify i _ = _
    rw [known.calls]
    exact (map_modify (f := fun entry : Op × Program C R Unit => (entry.1, resume (exec p.store c).2))
      (g := fun _ => resume (exec p.store c).2) fun _ _ => rfl).symm
  closed := forall_modify (fun _ _ => .inr closed) fun j entry _ => known.closed j entry
  active := .inr ⟨lookup_modify_self found, closed.not_waiting⟩
  others := forall_modify (fun _ _ => .inr (.inr ⟨rfl, rfl⟩)) fun j call other old => (others j call other old).imp_right .inl

end Serialized

theorem serialized_next (openers : ∀ op ∈ ops, (code op).Opens opens) (serial : Serial opens p (.step i))
    (known : ∃ entries order current rest, Serialized exec code opens s entries order current rest p ∧
      entries.map Prod.fst = ops) :
    ∃ entries order current rest,
      Serialized exec code opens s entries order current rest (next exec code p (.step i)) ∧
        entries.map Prod.fst = ops := by
  obtain ⟨entries, order, current, rest, known, rfl⟩ := known
  rcases next_cases exec code p i with ⟨c, resume, found, eq⟩ | ⟨-, eq⟩
  swap
  · rw [eq]
    exact ⟨entries, order, current, rest, known, rfl⟩
  rw [eq]
  obtain ⟨op, entry⟩ : ∃ op, entries[i]? = some (op, .issue c resume) := by
    have listed := found
    rw [known.calls, List.getElem?_map, Option.map_eq_some_iff] at listed
    obtain ⟨⟨op, _⟩, entry, rfl⟩ := listed
    exact ⟨op, entry⟩
  have names (later : Program C R Unit) :
      (entries.modify i fun entry => (entry.1, later)).map Prod.fst = entries.map Prod.fst := map_modify_same fun _ _ => rfl
  rcases known.closed i _ entry with own | closed
  · -- the call is opened: no other is under way
    have opener := openers op (List.mem_map_of_mem (f := Prod.fst) (List.mem_of_getElem? entry))
    rw [← show _ = code op from own] at opener
    have idle := serial (by simp [found, waiting, head?, opener.1])
    refine ⟨_, order ++ [op], _, _, known.goes found (opener.2 _) ?_ ?_ ?_, names _⟩
    · simp only [sequential, List.foldl_append, List.foldl_cons, List.foldl_nil]
      rw [show order.foldl _ s = p.store from (known.settled idle).symm, ← show _ = code op from own]
      rfl
    · refine (known.opened.append_right [op]).trans (filterMap_modify_perm entry ?_ ?_).symm
      · simp [opened?, waiting, head?, opener.1]
      · simp [opened?, (opener.2 _).not_waiting]
    · exact fun j call _ old => idle call (List.mem_of_getElem? old)
  · -- the call was opened before, so it is the current one
    have begun : waiting opens (.issue c resume) = false := closed.not_waiting
    obtain ⟨rfl, rfl⟩ : i = current ∧ .issue c resume = rest := by
      rcases known.others i _ found with waits | ends | here
      · rw [begun] at waits
        cases waits
      · cases ends
      · exact here
    refine ⟨_, order, _, _, known.goes found (closed.2 _) known.effect ?_ ?_, names _⟩
    · rw [filterMap_modify_same]
      · exact known.opened
      · intro old was
        cases entry.symm.trans was
        simp [opened?, begun, (closed.2 _).not_waiting]
    · intro j call other old
      exact (known.others j call old).imp_right fun either => either.resolve_right fun here => other here.1

end Steps

theorem meets_step (schedule : List Nat) (p : Pool S C R Op) :
    (machine exec code).Meets (fun _ a => ∃ i, a = .step i) p (schedule.map .step) := by
  induction schedule generalizing p with
  | nil => trivial
  | cons i rest ih => exact ⟨⟨i, rfl⟩, ih _⟩

theorem serialized_ready (openers : ∀ op ∈ ops, (code op).Opens opens) :
    Serialized exec code opens s (ops.map fun op => (op, code op)) [] 0 (.done ()) (ready code s ops) := by
  have waits {op : Op} (member : op ∈ ops) : (code op).waiting opens = true := (openers op member).waiting
  refine ⟨rfl, ?_, by simp [ready], ?_, .inl rfl, ?_⟩
  · rw [List.filterMap_map, List.filterMap_eq_nil_iff.mpr]
    intro op member
    simp [opened?, waits member]
  · intro i entry found
    rw [List.getElem?_map, Option.map_eq_some_iff] at found
    obtain ⟨op, _, rfl⟩ := found
    exact .inl rfl
  · intro i call found
    obtain ⟨op, member, rfl⟩ := List.mem_map.mp (List.mem_of_getElem? found)
    exact .inl (waits member)

/-- Calls of which none is opened while another is under way have the effect of whole calls in some order. -/
theorem serial_sequential (openers : ∀ op ∈ ops, (code op).Opens opens) {schedule : List Nat}
    (ran : (machine exec code).run (ready code s ops) (schedule.map .step) = some p)
    (serial : (machine exec code).Meets (Serial opens) (ready code s ops) (schedule.map .step))
    (completed : ∀ call ∈ p.calls, call.finished = true) :
    ∃ order : List Op, order.Perm ops ∧ p.store = sequential exec code s order := by
  obtain ⟨entries, order, current, rest, known, rfl⟩ := Machine.run_keeps_where
    (I := fun p => ∃ entries order current rest, Serialized exec code opens s entries order current rest p ∧
      entries.map Prod.fst = ops)
    (fun p a known ok _ => by
      obtain ⟨serial, i, rfl⟩ := ok
      exact serialized_next openers serial known)
    ran (serial.and (meets_step schedule _)) ⟨_, _, _, _, serialized_ready openers, by simp [Function.comp_def]⟩
  refine ⟨order, known.opened.trans ?_, known.settled fun call member => .inr (completed call member)⟩
  -- every call was opened
  rw [← List.filterMap_eq_map]
  refine .of_eq (List.filterMap_congr fun entry member => ?_)
  have ended := completed entry.2 (by rw [known.calls]; exact List.mem_map_of_mem member)
  obtain ⟨op, call⟩ := entry
  cases call with
  | done => rfl
  | issue c resume => cases ended

end Pool

end Skygo.Semantics
