import Mathlib

/-!
# Programs that talk to an environment

A program over an interface `(Q, A)` puts questions `q : Q` to its environment and goes on with the answers of type
`A q`.  Nothing is assumed about the environment: a run is described by its trace, the list of the questions asked
with the answers given, and a statement about every environment is a statement about every trace.  Stateful code
is a `Proc`, a program that also carries a state of its own; `Runs m s tr a s'` says that `m`, started in the state
`s`, returns `a` in the state `s'` when its environment behaves as in `tr`.

The rules of this file take a run of a composed program apart into the runs of its parts.
-/

namespace Interaction

variable {Q : Type} {A : Q → Type} {σ τ α β ι : Type}

/-- A program returning an `α`, one question at a time. -/
inductive Prog (Q : Type) (A : Q → Type) (α : Type) where
  | pure (a : α) : Prog Q A α
  | ask (q : Q) (k : A q → Prog Q A α) : Prog Q A α

/-- A question with the answer it got. -/
structure Exchange (Q : Type) (A : Q → Type) where
  call : Q
  answer : A call

/-- What passed between a program and its environment, oldest first. -/
abbrev Trace (Q : Type) (A : Q → Type) := List (Exchange Q A)

namespace Prog

def bind (p : Prog Q A α) (f : α → Prog Q A β) : Prog Q A β :=
  match p with
  | .pure a => f a
  | .ask q k => .ask q fun x => (k x).bind f

instance : Monad (Prog Q A) where
  pure := .pure
  bind := bind

/-- `p` returns `a` when the environment answers as in `tr`. -/
def Runs : Prog Q A α → Trace Q A → α → Prop
  | .pure b, tr, a => tr = [] ∧ a = b
  | .ask q k, tr, a => ∃ x rest, tr = ⟨q, x⟩ :: rest ∧ (k x).Runs rest a

theorem runs_bind {p : Prog Q A α} {f : α → Prog Q A β} {tr : Trace Q A} {b : β} :
    (p.bind f).Runs tr b ↔ ∃ t₁ a t₂, tr = t₁ ++ t₂ ∧ p.Runs t₁ a ∧ (f a).Runs t₂ b := by
  induction p generalizing tr with
  | pure a =>
    constructor
    · intro h; exact ⟨[], a, tr, rfl, ⟨rfl, rfl⟩, h⟩
    · rintro ⟨t₁, a', t₂, rfl, ⟨rfl, rfl⟩, h⟩; exact h
  | ask q k ih =>
    constructor
    · rintro ⟨x, rest, rfl, h⟩
      obtain ⟨t₁, a, t₂, rfl, h₁, h₂⟩ := (ih x).1 h
      exact ⟨⟨q, x⟩ :: t₁, a, t₂, rfl, ⟨x, t₁, rfl, h₁⟩, h₂⟩
    · rintro ⟨t₁, a, t₂, rfl, ⟨x, rest, rfl, h₁⟩, h₂⟩
      exact ⟨x, rest ++ t₂, rfl, (ih x).2 ⟨rest, a, t₂, rfl, h₁, h₂⟩⟩

/-- The trace decides the run, and where it ends. -/
theorem Runs.unique_prefix {p : Prog Q A α} {t₁ t₂ r₁ r₂ : Trace Q A} {a b : α} (h₁ : p.Runs t₁ a) (h₂ : p.Runs t₂ b)
    (ht : t₁ ++ r₁ = t₂ ++ r₂) : t₁ = t₂ ∧ a = b := by
  induction p generalizing t₁ t₂ with
  | pure c =>
    obtain ⟨rfl, rfl⟩ := h₁
    obtain ⟨rfl, rfl⟩ := h₂
    exact ⟨rfl, rfl⟩
  | ask q k ih =>
    obtain ⟨x, rest, rfl, h₁⟩ := h₁
    obtain ⟨y, rest', rfl, h₂⟩ := h₂
    simp only [List.cons_append, List.cons.injEq, Exchange.mk.injEq, heq_eq_eq, true_and] at ht
    obtain ⟨rfl, ht⟩ := ht
    obtain ⟨rfl, rfl⟩ := ih x h₁ h₂ ht
    exact ⟨rfl, rfl⟩

/-- Run `p` against an environment that may look at everything said so far. -/
def exec (env : Trace Q A → (q : Q) → A q) (past : Trace Q A) : Prog Q A α → Trace Q A × α
  | .pure a => ([], a)
  | .ask q k =>
    let e : Exchange Q A := ⟨q, env past q⟩
    let r := (k e.answer).exec env (past ++ [e])
    (e :: r.1, r.2)

theorem exec_runs (env : Trace Q A → (q : Q) → A q) (p : Prog Q A α) (past : Trace Q A) :
    p.Runs (p.exec env past).1 (p.exec env past).2 := by
  induction p generalizing past with
  | pure a => exact ⟨rfl, rfl⟩
  | ask q k ih => exact ⟨_, _, rfl, ih _ _⟩

/-- Every answer in the trace is the environment's. -/
theorem exec_answers {env : Trace Q A → (q : Q) → A q} {p : Prog Q A α} {past : Trace Q A} {e : Exchange Q A}
    (h : e ∈ (p.exec env past).1) : ∃ past' q, e = ⟨q, env past' q⟩ := by
  induction p generalizing past with
  | pure a => cases h
  | ask q k ih =>
    rcases List.mem_cons.1 h with rfl | h
    · exact ⟨past, q, rfl⟩
    · exact ih _ h

end Prog

/-- A program with a state of its own. -/
abbrev Proc (Q : Type) (A : Q → Type) (σ : Type) := StateT σ (Prog Q A)

/-- Put the question `q`. -/
def ask (q : Q) : Proc Q A σ (A q) := fun s => .ask q fun x => .pure (x, s)

/-- Run a program on the part of the state that `get` reads and `set` writes back. -/
def zoom (get : τ → σ) (set : σ → τ → τ) (m : Proc Q A σ α) : Proc Q A τ α := fun t =>
  (m (get t)).bind fun r => .pure (r.1, set r.2 t)

/-- Repeat `m` at most `n` times, up to its first result. -/
def attempts (m : Proc Q A σ (Option β)) : Nat → Proc Q A σ (Option β)
  | 0 => pure none
  | n + 1 => do
    match ← m with
    | some b => pure (some b)
    | none => attempts m n

/-- `m` takes the state `s` to `s'` and returns `a` when its environment behaves as in `tr`. -/
def Runs (m : Proc Q A σ α) (s : σ) (tr : Trace Q A) (a : α) (s' : σ) : Prop :=
  Prog.Runs (m s) tr (a, s')

/-- The run of `m` from `s` in a given environment: its trace, its result and the last state. -/
def exec (env : Trace Q A → (q : Q) → A q) (m : Proc Q A σ α) (s : σ) : Trace Q A × α × σ :=
  (m s).exec env []

theorem exec_runs (env : Trace Q A → (q : Q) → A q) (m : Proc Q A σ α) (s : σ) :
    Runs m s (exec env m s).1 (exec env m s).2.1 (exec env m s).2.2 :=
  Prog.exec_runs env (m s) []

theorem exec_answers {env : Trace Q A → (q : Q) → A q} {m : Proc Q A σ α} {s : σ} {e : Exchange Q A}
    (h : e ∈ (exec env m s).1) : ∃ past q, e = ⟨q, env past q⟩ :=
  Prog.exec_answers h

theorem Runs.unique_prefix {m : Proc Q A σ α} {s s' s'' : σ} {t₁ t₂ r₁ r₂ : Trace Q A} {a b : α}
    (h₁ : Runs m s t₁ a s') (h₂ : Runs m s t₂ b s'') (ht : t₁ ++ r₁ = t₂ ++ r₂) : t₁ = t₂ ∧ a = b ∧ s' = s'' := by
  simpa using Prog.Runs.unique_prefix h₁ h₂ ht

theorem Runs.unique {m : Proc Q A σ α} {s s' s'' : σ} {tr : Trace Q A} {a b : α}
    (h : Runs m s tr a s') (h' : Runs m s tr b s'') : a = b ∧ s' = s'' :=
  (h.unique_prefix h' (rfl : tr ++ [] = tr ++ [])).2

section Rules

variable {s s' : σ} {tr : Trace Q A}

@[simp] theorem runs_pure {a b : α} :
    Runs (pure b : Proc Q A σ α) s tr a s' ↔ tr = [] ∧ a = b ∧ s' = s := by
  show (tr = [] ∧ (a, s') = (b, s)) ↔ _
  simp only [Prod.mk.injEq]

@[simp] theorem runs_bind {m : Proc Q A σ α} {f : α → Proc Q A σ β} {b : β} :
    Runs (m >>= f) s tr b s' ↔
      ∃ t₁ a s₁ t₂, tr = t₁ ++ t₂ ∧ Runs m s t₁ a s₁ ∧ Runs (f a) s₁ t₂ b s' := by
  refine Prog.runs_bind.trans ?_
  constructor
  · rintro ⟨t₁, ⟨a, s₁⟩, t₂, h, h₁, h₂⟩; exact ⟨t₁, a, s₁, t₂, h, h₁, h₂⟩
  · rintro ⟨t₁, a, s₁, t₂, h, h₁, h₂⟩; exact ⟨t₁, ⟨a, s₁⟩, t₂, h, h₁, h₂⟩

/-- A program run for its effect alone. -/
theorem runs_discard {m : Proc Q A σ α} {u : PUnit} :
    Runs (m >>= fun _ => pure PUnit.unit) s tr u s' ↔ ∃ a, Runs m s tr a s' := by
  rw [runs_bind]
  constructor
  · rintro ⟨t₁, a, s₁, t₂, rfl, h₁, h₂⟩
    obtain ⟨rfl, -, rfl⟩ := runs_pure.1 h₂
    exact ⟨a, by simpa using h₁⟩
  · rintro ⟨a, h⟩
    exact ⟨tr, a, s', [], by simp, h, runs_pure.2 ⟨rfl, rfl, rfl⟩⟩

@[simp] theorem runs_ask {q : Q} {x : A q} :
    Runs (ask q : Proc Q A σ (A q)) s tr x s' ↔ tr = [⟨q, x⟩] ∧ s' = s := by
  constructor
  · rintro ⟨y, rest, rfl, rfl, h⟩
    simp only [Prod.mk.injEq] at h
    obtain ⟨rfl, rfl⟩ := h
    exact ⟨rfl, rfl⟩
  · rintro ⟨rfl, rfl⟩; exact ⟨x, [], rfl, rfl, rfl⟩

@[simp] theorem runs_get {a : σ} :
    Runs (get : Proc Q A σ σ) s tr a s' ↔ tr = [] ∧ a = s ∧ s' = s := by
  show (tr = [] ∧ (a, s') = (s, s)) ↔ _
  simp only [Prod.mk.injEq]

@[simp] theorem runs_set {t : σ} {u : PUnit} :
    Runs (set t : Proc Q A σ PUnit) s tr u s' ↔ tr = [] ∧ s' = t := by
  show (tr = [] ∧ (u, s') = (PUnit.unit, t)) ↔ _
  simp only [Prod.mk.injEq, true_and]

@[simp] theorem runs_modify {f : σ → σ} {u : PUnit} :
    Runs (modify f : Proc Q A σ PUnit) s tr u s' ↔ tr = [] ∧ s' = f s := by
  show (tr = [] ∧ (u, s') = (PUnit.unit, f s)) ↔ _
  simp only [Prod.mk.injEq, true_and]

@[simp] theorem runs_modifyGet {f : σ → α × σ} {a : α} :
    Runs (modifyGet f : Proc Q A σ α) s tr a s' ↔ tr = [] ∧ a = (f s).1 ∧ s' = (f s).2 := by
  show (tr = [] ∧ (a, s') = ((f s).1, (f s).2)) ↔ _
  simp only [Prod.mk.injEq]

@[simp] theorem runs_zoom {get : τ → σ} {set : σ → τ → τ} {m : Proc Q A σ α} {t t' : τ} {a : α} :
    Runs (zoom get set m) t tr a t' ↔ ∃ s', Runs m (get t) tr a s' ∧ t' = set s' t := by
  refine Prog.runs_bind.trans ?_
  constructor
  · rintro ⟨t₁, ⟨b, s'⟩, t₂, rfl, h, rfl, h'⟩
    simp only [Prod.mk.injEq] at h'
    obtain ⟨rfl, rfl⟩ := h'
    exact ⟨s', by rw [List.append_nil]; exact h, rfl⟩
  · rintro ⟨s', h, rfl⟩; exact ⟨tr, ⟨a, s'⟩, [], by simp, h, rfl, rfl⟩

theorem runs_attempts_zero {m : Proc Q A σ (Option β)} {b : Option β} :
    Runs (attempts m 0) s tr b s' ↔ tr = [] ∧ b = none ∧ s' = s := runs_pure

theorem runs_attempts_succ {m : Proc Q A σ (Option β)} {n : Nat} {b : Option β} :
    Runs (attempts m (n + 1)) s tr b s' ↔
      (∃ c, b = some c ∧ Runs m s tr (some c) s') ∨
      ∃ t₁ s₁ t₂, tr = t₁ ++ t₂ ∧ Runs m s t₁ none s₁ ∧ Runs (attempts m n) s₁ t₂ b s' := by
  rw [attempts, runs_bind]
  constructor
  · rintro ⟨t₁, _ | c, s₁, t₂, rfl, h₁, h₂⟩
    · exact .inr ⟨t₁, s₁, t₂, rfl, h₁, h₂⟩
    · simp only [runs_pure] at h₂
      obtain ⟨rfl, rfl, rfl⟩ := h₂
      exact .inl ⟨c, rfl, by simpa using h₁⟩
  · rintro (⟨c, rfl, h⟩ | ⟨t₁, s₁, t₂, rfl, h₁, h₂⟩)
    · exact ⟨tr, some c, s', [], by simp, h, by simp⟩
    · exact ⟨t₁, none, s₁, t₂, rfl, h₁, h₂⟩

theorem runs_findSomeM?_nil {f : ι → Proc Q A σ (Option β)} {b : Option β} :
    Runs (List.findSomeM? f []) s tr b s' ↔ tr = [] ∧ b = none ∧ s' = s := runs_pure

theorem runs_findSomeM?_cons {f : ι → Proc Q A σ (Option β)} {i : ι} {is : List ι} {b : Option β} :
    Runs (List.findSomeM? f (i :: is)) s tr b s' ↔
      (∃ c, b = some c ∧ Runs (f i) s tr (some c) s') ∨
      ∃ t₁ s₁ t₂, tr = t₁ ++ t₂ ∧ Runs (f i) s t₁ none s₁ ∧ Runs (List.findSomeM? f is) s₁ t₂ b s' := by
  rw [List.findSomeM?, runs_bind]
  constructor
  · rintro ⟨t₁, _ | c, s₁, t₂, rfl, h₁, h₂⟩
    · exact .inr ⟨t₁, s₁, t₂, rfl, h₁, h₂⟩
    · simp only [runs_pure] at h₂
      obtain ⟨rfl, rfl, rfl⟩ := h₂
      exact .inl ⟨c, rfl, by simpa using h₁⟩
  · rintro (⟨c, rfl, h⟩ | ⟨t₁, s₁, t₂, rfl, h₁, h₂⟩)
    · exact ⟨tr, some c, s', [], by simp, h, by simp⟩
    · exact ⟨t₁, none, s₁, t₂, rfl, h₁, h₂⟩

theorem runs_forM_nil {f : ι → Proc Q A σ PUnit} {u : PUnit} :
    Runs (List.forM [] f) s tr u s' ↔ tr = [] ∧ s' = s := by
  show Runs (pure PUnit.unit : Proc Q A σ PUnit) s tr u s' ↔ _
  simp

theorem runs_forM_cons {f : ι → Proc Q A σ PUnit} {i : ι} {is : List ι} {u : PUnit} :
    Runs (List.forM (i :: is) f) s tr u s' ↔
      ∃ t₁ s₁ t₂, tr = t₁ ++ t₂ ∧ Runs (f i) s t₁ () s₁ ∧ Runs (List.forM is f) s₁ t₂ u s' := by
  show Runs (f i >>= fun _ => List.forM is f) s tr u s' ↔ _
  rw [runs_bind]
  constructor
  · rintro ⟨t₁, ⟨⟩, s₁, t₂, rfl, h₁, h₂⟩; exact ⟨t₁, s₁, t₂, rfl, h₁, h₂⟩
  · rintro ⟨t₁, s₁, t₂, rfl, h₁, h₂⟩; exact ⟨t₁, (), s₁, t₂, rfl, h₁, h₂⟩

theorem runs_forM_append {f : ι → Proc Q A σ PUnit} {l₁ l₂ : List ι} {u : PUnit} :
    Runs (List.forM (l₁ ++ l₂) f) s tr u s' ↔
      ∃ t₁ s₁ t₂, tr = t₁ ++ t₂ ∧ Runs (List.forM l₁ f) s t₁ () s₁ ∧ Runs (List.forM l₂ f) s₁ t₂ u s' := by
  induction l₁ generalizing s tr with
  | nil =>
    constructor
    · intro h
      exact ⟨[], s, tr, rfl, runs_forM_nil.2 ⟨rfl, rfl⟩, h⟩
    · rintro ⟨t₁, s₁, t₂, rfl, h₁, h₂⟩
      obtain ⟨rfl, rfl⟩ := runs_forM_nil.1 h₁
      exact h₂
  | cons i l₁ ih =>
    rw [List.cons_append, runs_forM_cons]
    constructor
    · rintro ⟨t₁, s₁, t₂, rfl, h₁, h₂⟩
      obtain ⟨t₃, s₂, t₄, rfl, h₃, h₄⟩ := ih.1 h₂
      exact ⟨t₁ ++ t₃, s₂, t₄, by simp, runs_forM_cons.2 ⟨t₁, s₁, t₃, rfl, h₁, h₃⟩, h₄⟩
    · rintro ⟨t, s₂, t₄, rfl, h, h₄⟩
      obtain ⟨t₁, s₁, t₃, rfl, h₁, h₃⟩ := runs_forM_cons.1 h
      exact ⟨t₁, s₁, t₃ ++ t₄, by simp, h₁, ih.2 ⟨t₃, s₂, t₄, rfl, h₃, h₄⟩⟩

end Rules

/-! ### Cutting a trace -/

/-- `P` holds at every exchange of the trace, given what came before it and what comes after. -/
def EveryCut (P : Trace Q A → Exchange Q A → Trace Q A → Prop) (tr : Trace Q A) : Prop :=
  ∀ before e after, tr = before ++ e :: after → P before e after

section Cuts

variable {P : Trace Q A → Exchange Q A → Trace Q A → Prop} {e : Exchange Q A} {tr : Trace Q A}

@[simp] theorem everyCut_nil : EveryCut P [] := by
  intro before e after h
  simp at h

@[simp] theorem everyCut_cons :
    EveryCut P (e :: tr) ↔ P [] e tr ∧ EveryCut (fun before => P (e :: before)) tr := by
  constructor
  · intro h
    refine ⟨h [] e tr rfl, fun before f after htr => h (e :: before) f after ?_⟩
    rw [htr]
    rfl
  · rintro ⟨he, h⟩ before f after htr
    cases before with
    | nil =>
      obtain ⟨rfl, rfl⟩ := List.cons.inj htr
      exact he
    | cons g before =>
      obtain ⟨rfl, hrest⟩ := List.cons.inj htr
      exact h before f after hrest

end Cuts

end Interaction
