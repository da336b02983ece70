import Mathlib.Logic.Function.Basic
import Skygo.Semantics.Machine
import Skygo.Semantics.Table

/-! Programs that issue atomic commands to a shared store, alone or interleaved.

A call is a tree: the command it issues next, and what it does with each reply. Run alone it
is a function on the store; in a pool any call may take the next step, and a call may stop at
any point, as a failed or crashed caller does.
-/

set_option autoImplicit false

namespace Skygo.Semantics

inductive Program (C : Type) (R : C → Type) (α : Type) where
  | done (a : α)
  | issue (c : C) (resume : R c → Program C R α)

namespace Program

variable {C : Type} {R : C → Type} {α β S : Type}

def bind : Program C R α → (α → Program C R β) → Program C R β
  | done a, f => f a
  | issue c resume, f => issue c fun r => bind (resume r) f

instance : Monad (Program C R) where
  pure := done
  bind := bind

def command (c : C) : Program C R (R c) := issue c done

def run (exec : S → (c : C) → S × R c) : Program C R α → S → S × α
  | done a, s => (s, a)
  | issue c resume, s => run exec (resume (exec s c).2) (exec s c).1

section Run

variable {exec : S → (c : C) → S × R c} {s : S}

@[simp] theorem run_pure (a : α) : run exec (pure a) s = (s, a) := rfl

@[simp] theorem run_command (c : C) : run exec (command c) s = exec s c := rfl

@[simp] theorem run_bind (p : Program C R α) (f : α → Program C R β) :
    run exec (p >>= f) s = run exec (f (run exec p s).2) (run exec p s).1 := by
  induction p generalizing s with
  | done a => rfl
  | issue c resume ih => exact ih (exec s c).2

end Run

def head? : Program C R α → Option C
  | done _ => none
  | issue c _ => some c

def finished : Program C R α → Bool
  | done _ => true
  | issue _ _ => false

def Only (P : C → Prop) : Program C R α → Prop
  | done _ => True
  | issue c resume => P c ∧ ∀ r, Only P (resume r)

/-- Whatever the replies, the credit covers the commands: one may cost, and its reply may pay. -/
def Affords (cost : C → Nat) (gain : (c : C) → R c → Nat) : Nat → Program C R α → Prop
  | _, done _ => True
  | credit, issue c resume =>
      cost c ≤ credit ∧ ∀ r, Affords cost gain (credit - cost c + gain c r) (resume r)

/-- Whatever the replies, every command is one that `P` allows after what was executed and replied before, latest first. -/
def Follows (P : List ((c : C) × R c) → C → Prop) : List ((c : C) × R c) → Program C R α → Prop
  | _, done _ => True
  | log, issue c resume => P log c ∧ ∀ r, Follows P (⟨c, r⟩ :: log) (resume r)

section Tag

variable {K : Type}

def tag (k : K) : Program C R α → Program (K × C) (fun c => R c.2) α
  | done a => done a
  | issue c resume => issue (k, c) fun r => tag k (resume r)

theorem tag_bind (k : K) (p : Program C R α) (f : α → Program C R β) : tag k (p >>= f) = tag k p >>= fun a => tag k (f a) := by
  induction p with
  | done a => rfl
  | issue c resume ih =>
    show issue (k, c) (fun r => tag k (resume r >>= f)) = issue (k, c) fun r => tag k (resume r) >>= fun a => tag k (f a)
    simp only [ih]

variable [DecidableEq K]

def execAt (exec : S → (c : C) → S × R c) (s : K → S) (c : K × C) : (K → S) × R c.2 :=
  (Function.update s c.1 (exec (s c.1) c.2).1, (exec (s c.1) c.2).2)

theorem run_tag (exec : S → (c : C) → S × R c) (k : K) (p : Program C R α) (s : K → S) :
    run (execAt exec) (tag k p) s = (Function.update s k (run exec p (s k)).1, (run exec p (s k)).2) := by
  induction p generalizing s with
  | done a => simp [tag, run]
  | issue c resume ih =>
    simp only [tag, run, execAt]
    refine (ih _ _).trans ?_
    simp

end Tag

section Rules

variable {P : C → Prop} {cost : C → Nat} {gain : (c : C) → R c → Nat} {credit more : Nat}
  {p : Program C R α} {f : α → Program C R β}

theorem Only.bind (only : Only P p) (rest : ∀ a, Only P (f a)) : Only P (p >>= f) := by
  induction p with
  | done a => exact rest a
  | issue c resume ih => exact ⟨only.1, fun r => ih r (only.2 r)⟩

theorem Affords.mono (affords : Affords cost gain credit p) (enough : credit ≤ more) : Affords cost gain more p := by
  induction p generalizing credit more with
  | done a => trivial
  | issue c resume ih =>
    obtain ⟨covers, rest⟩ := affords
    exact ⟨by omega, fun r => ih r (rest r) (by omega)⟩

theorem only_tag {K : Type} {Q : K × C → Prop} {k : K} : Only Q (tag k p) ↔ Only (fun c => Q (k, c)) p := by
  induction p with
  | done a => exact Iff.rfl
  | issue c resume ih => exact and_congr_right fun _ => forall_congr' fun r => ih r

theorem affords_tag {K : Type} {k : K} {cost : K × C → Nat} {gain : (c : K × C) → R c.2 → Nat} :
    Affords cost gain credit (tag k p) ↔ Affords (fun c => cost (k, c)) (fun c r => gain (k, c) r) credit p := by
  induction p generalizing credit with
  | done a => exact Iff.rfl
  | issue c resume ih => exact and_congr_right fun _ => forall_congr' fun r => ih r

theorem Only.mono {Q : C → Prop} (only : Only P p) (implies : ∀ c, P c → Q c) : Only Q p := by
  induction p with
  | done a => trivial
  | issue c resume ih => exact ⟨implies c only.1, fun r => ih r (only.2 r)⟩

theorem Only.follows (only : Only P p) (log : List ((c : C) × R c)) : Follows (fun _ => P) log p := by
  induction p generalizing log with
  | done a => trivial
  | issue c resume ih => exact ⟨only.1, fun r => ih r (only.2 r) _⟩

theorem Follows.bind {Q : List ((c : C) × R c) → C → Prop} {log : List ((c : C) × R c)} (follows : Follows Q log p)
    (rest : ∀ a log, Follows Q log (f a)) : Follows Q log (p >>= f) := by
  induction p generalizing log with
  | done a => exact rest a log
  | issue c resume ih => exact ⟨follows.1, fun r => ih r (follows.2 r)⟩

theorem Only.affords_bind (only : Only (fun c => cost c = 0) p) (rest : ∀ a, Affords cost gain credit (f a)) :
    Affords cost gain credit (p >>= f) := by
  induction p generalizing credit with
  | done a => exact rest a
  | issue c resume ih =>
    refine ⟨by rw [only.1]; exact Nat.zero_le _, fun r => ih r (only.2 r) fun a => (rest a).mono ?_⟩
    rw [only.1]
    omega

theorem Only.affords (only : Only (fun c => cost c = 0) p) : Affords cost gain credit p := by
  induction p generalizing credit with
  | done a => trivial
  | issue c resume ih => exact ⟨by rw [only.1]; exact Nat.zero_le _, fun r => ih r (only.2 r)⟩

theorem Affords.bind_free (affords : Affords cost gain credit p) (rest : ∀ a, Only (fun c => cost c = 0) (f a)) :
    Affords cost gain credit (p >>= f) := by
  induction p generalizing credit with
  | done a => exact (rest a).affords
  | issue c resume ih => exact ⟨affords.1, fun r => ih r (affords.2 r)⟩

end Rules

end Program

namespace Program

section Pipeline

variable {C S : Type} {R : C → Type} {exec : S → (c : C) → S × R c}

/-- Commands that are sent together, whatever they reply. -/
def pipeline (exec : S → (c : C) → S × R c) (s : S) (commands : List C) : S :=
  commands.foldl (fun s c => (exec s c).1) s

def sequence : List C → Program C R Unit
  | [] => done ()
  | c :: rest => issue c fun _ => sequence rest

theorem only_sequence {P : C → Prop} {commands : List C} (each : ∀ c ∈ commands, P c) :
    (sequence commands : Program C R Unit).Only P := by
  induction commands with
  | nil => trivial
  | cons c rest ih => exact ⟨each c List.mem_cons_self, fun _ => ih fun d member => each d (List.mem_cons_of_mem _ member)⟩

theorem pipeline_rel {Rel : S → S → Prop} (refl : ∀ s, Rel s s) (trans : ∀ s t u, Rel s t → Rel t u → Rel s u)
    {commands : List C} (each : ∀ c ∈ commands, ∀ s, Rel s (exec s c).1) (s : S) :
    Rel s (pipeline exec s commands) := by
  induction commands generalizing s with
  | nil => exact refl s
  | cons c rest ih =>
    have first := each c List.mem_cons_self s
    exact trans _ _ _ first (ih (fun d member => each d (List.mem_cons_of_mem _ member)) _)

end Pipeline

end Program

structure Pool (S C : Type) (R : C → Type) (Op : Type) where
  store : S
  calls : List (Program C R Unit) := []
  started : List Op := []
  /-- What was executed and replied, latest first, each with the call that issued it. -/
  log : List (Nat × ((c : C) × R c)) := []

namespace Pool

variable {S C Op : Type} {R : C → Type}

def history (p : Pool S C R Op) : List ((c : C) × R c) := p.log.map Prod.snd

def logOf (p : Pool S C R Op) (i : Nat) : List ((c : C) × R c) := (p.log.filter fun e => e.1 == i).map Prod.snd

inductive Action (Op : Type) where
  | start (op : Op)
  | step (i : Nat)
  | crash (i : Nat)
  deriving DecidableEq

def next (exec : S → (c : C) → S × R c) (code : Op → Program C R Unit) (p : Pool S C R Op) :
    Action Op → Pool S C R Op
  | .start op => { p with calls := p.calls ++ [code op], started := p.started ++ [op] }
  | .step i =>
      match p.calls[i]? with
      | some (.issue c resume) =>
          { p with
            store := (exec p.store c).1
            calls := p.calls.modify i fun _ => resume (exec p.store c).2
            log := (i, ⟨c, (exec p.store c).2⟩) :: p.log }
      | _ => p
  | .crash i => { p with calls := p.calls.modify i fun _ => .done () }

def machine (exec : S → (c : C) → S × R c) (code : Op → Program C R Unit) :
    Machine (Pool S C R Op) (Action Op) where
  Enabled _ _ := True
  next := next exec code
  decideEnabled _ _ := inferInstance

def total (p : Pool S C R Op) (f : (c : C) → R c → Nat) : Nat := (p.history.map fun e => f e.1 e.2).sum

variable {exec : S → (c : C) → S × R c} {code : Op → Program C R Unit} {p : Pool S C R Op} {start : S}

theorem next_cases (exec : S → (c : C) → S × R c) (code : Op → Program C R Unit) (p : Pool S C R Op) (i : Nat) :
    (∃ c resume, p.calls[i]? = some (.issue c resume) ∧ next exec code p (.step i) =
      { p with
        store := (exec p.store c).1
        calls := p.calls.modify i fun _ => resume (exec p.store c).2
        log := (i, ⟨c, (exec p.store c).2⟩) :: p.log }) ∨
    ((p.calls[i]?).bind Program.head? = none ∧ next exec code p (.step i) = p) := by
  cases found : p.calls[i]? with
  | none => exact .inr ⟨rfl, by simp [next, found]⟩
  | some call =>
    cases call with
    | done a => exact .inr ⟨rfl, by simp [next, found]⟩
    | issue c resume => exact .inl ⟨c, resume, rfl, by simp [next, found]⟩

/-- What every command that can be issued keeps of the store and the history holds throughout. -/
theorem reachable_invariant {I : S → List ((c : C) × R c) → Prop} {P : C → Prop}
    (only : ∀ op, (code op).Only P) (holds : I start [])
    (keeps : ∀ s history c, P c → I s history → I (exec s c).1 (⟨c, (exec s c).2⟩ :: history))
    (reach : (machine exec code).Reachable { store := start } p) : I p.store p.history := by
  have both := reach.invariant
    (I := fun p : Pool S C R Op => I p.store p.history ∧ ∀ (i : Nat) call, p.calls[i]? = some call → call.Only P)
    ⟨holds, fun _ _ found => (by simp at found)⟩ ?_
  · exact both.1
  · intro p a known _
    cases a with
    | start op =>
      refine ⟨known.1, fun i call found => ?_⟩
      rcases lookup_append found with old | ⟨-, rfl⟩
      · exact known.2 i call old
      · exact only op
    | step i =>
      show I (next exec code p (.step i)).store (next exec code p (.step i)).history ∧ _
      rcases next_cases exec code p i with ⟨c, resume, found, eq⟩ | ⟨-, eq⟩
      · have issues := known.2 i _ found
        rw [show (machine exec code).next p (.step i) = _ from eq, eq]
        refine ⟨keeps _ _ c issues.1 known.1, forall_modify (fun _ _ => issues.2 _) fun j call _ => known.2 j call⟩
      · rw [show (machine exec code).next p (.step i) = _ from eq, eq]
        exact known
    | crash i => exact ⟨known.1, forall_modify (fun _ _ => trivial) fun j call _ => known.2 j call⟩

section Credit

variable {cost : C → Nat} {gain : (c : C) → R c → Nat} {budget : Op → Nat}

def Solvent (cost : C → Nat) (gain : (c : C) → R c → Nat) (budget : Op → Nat) (p : Pool S C R Op) : Prop :=
  ∃ left : List Nat, left.length = p.calls.length ∧
    (∀ (i : Nat) credit call, left[i]? = some credit → p.calls[i]? = some call → call.Affords cost gain credit) ∧
    p.total (fun c _ => cost c) + left.sum ≤ (p.started.map budget).sum + p.total gain

theorem solvent_start (affords : ∀ op, (code op).Affords cost gain (budget op)) (solvent : p.Solvent cost gain budget)
    (op : Op) : (next exec code p (.start op)).Solvent cost gain budget := by
  obtain ⟨left, aligned, covers, balance⟩ := solvent
  refine ⟨left ++ [budget op], by simp [next, aligned], fun i credit call credited found => ?_, ?_⟩
  · rcases lookup_append credited with old | ⟨last, rfl⟩
    · rcases lookup_append found with there | ⟨last, _⟩
      · exact covers i credit call old there
      · have inside := lookup_lt old
        omega
    · rcases lookup_append found with there | ⟨_, rfl⟩
      · have inside := lookup_lt there
        omega
      · exact affords op
  · simp only [next, List.sum_append, List.map_append, List.map_cons, List.map_nil, List.sum_cons, List.sum_nil]
    simp only [total, history] at balance ⊢
    omega

theorem solvent_step (solvent : p.Solvent cost gain budget) (i : Nat) :
    (next exec code p (.step i)).Solvent cost gain budget := by
  rcases next_cases exec code p i with ⟨c, resume, found, eq⟩ | ⟨-, eq⟩
  · obtain ⟨left, aligned, covers, balance⟩ := solvent
    have inside : i < left.length := aligned ▸ lookup_lt found
    obtain ⟨credit, credited⟩ : ∃ credit, left[i]? = some credit := ⟨_, List.getElem?_eq_getElem inside⟩
    obtain ⟨covered, rest⟩ := covers i credit _ credited found
    let reply := (exec p.store c).2
    have moved := sum_modify (g := id) (f := fun credit => credit - cost c + gain c reply) credited
    rw [eq]
    refine ⟨left.modify i fun credit => credit - cost c + gain c reply, by simp [aligned], ?_, ?_⟩
    · intro j other call has calls
      rcases lookup_modify has with ⟨rfl, old, was, rfl⟩ | ⟨away, was⟩
      · rcases lookup_modify calls with ⟨_, _, _, rfl⟩ | ⟨no, _⟩
        · rw [credited] at was
          cases was
          exact rest reply
        · exact absurd rfl no
      · rcases lookup_modify calls with ⟨same, _⟩ | ⟨_, there⟩
        · exact absurd same away
        · exact covers j other call was there
    · simp only [total, history, List.map_cons, List.sum_cons] at balance ⊢
      simp only [List.map_id, id] at moved
      show cost c + _ + _ ≤ _ + (gain c reply + _)
      omega
  · rw [eq]
    exact solvent

theorem solvent_crash (solvent : p.Solvent cost gain budget) (i : Nat) :
    (next exec code p (.crash i)).Solvent cost gain budget := by
  obtain ⟨left, aligned, covers, balance⟩ := solvent
  refine ⟨left, by simp [next, aligned], fun j credit call credited found => ?_, balance⟩
  rcases lookup_modify found with ⟨_, _, _, rfl⟩ | ⟨_, there⟩
  · trivial
  · exact covers j credit call credited there

theorem total_cost_le (affords : ∀ op, (code op).Affords cost gain (budget op))
    (reach : (machine exec code).Reachable { store := start } p) :
    p.total (fun c _ => cost c) ≤ (p.started.map budget).sum + p.total gain := by
  have solvent := reach.invariant (I := Solvent cost gain budget)
    ⟨[], rfl, fun _ _ _ has => (by simp at has), by simp [total, history]⟩ ?_
  · obtain ⟨left, -, -, balance⟩ := solvent
    omega
  · intro p a solvent _
    cases a with
    | start op => exact (solvent_start affords solvent op : (next exec code p _).Solvent cost gain budget)
    | step i => exact (solvent_step solvent i : (next exec code p _).Solvent cost gain budget)
    | crash i => exact (solvent_crash solvent i : (next exec code p _).Solvent cost gain budget)

end Credit

end Pool

end Skygo.Semantics
