import Mathlib

/-!
# Runs of labelled transition systems

`Reaches step s ls s'` says that the steps labelled `ls`, one after the other, lead from `s` to `s'`.  An invariant
of the single step is an invariant of the run (`Reaches.invariant`).  For a deterministic system with a property `P`
that a step may or may not keep, `always_iff` turns the exact condition under which one step keeps `P` into the exact
condition under which a whole run does: `P` holds in every state of the run iff every step of it meets the condition.
-/

namespace Interaction

variable {σ L : Type}

/-- The steps `ls` lead from the first state to the last. -/
inductive Reaches (step : σ → L → σ → Prop) : σ → List L → σ → Prop
  | nil (s : σ) : Reaches step s [] s
  | cons {s s₁ s₂ : σ} {l : L} {ls : List L} :
      step s l s₁ → Reaches step s₁ ls s₂ → Reaches step s (l :: ls) s₂

/-- The steps of `step` that meet the condition `ok` on the state before the step and its label. -/
def guarded (step : σ → L → σ → Prop) (ok : σ → L → Prop) (s : σ) (l : L) (s' : σ) : Prop :=
  step s l s' ∧ ok s l

/-- `P` holds in every state of the run of `ls` from `s`, the first and the last included. -/
def Always (step : σ → L → σ → Prop) (P : σ → Prop) (s : σ) (ls : List L) : Prop :=
  ∀ l₁ l₂ s', ls = l₁ ++ l₂ → Reaches step s l₁ s' → P s'

/-- `P` holds of every step of the run of `ls` from `s`. -/
def Throughout (step : σ → L → σ → Prop) (P : σ → L → σ → Prop) (s : σ) (ls : List L) : Prop :=
  ∀ l₁ l l₂ s₁ s₂, ls = l₁ ++ l :: l₂ → Reaches step s l₁ s₁ → step s₁ l s₂ → P s₁ l s₂

variable {step : σ → L → σ → Prop} {s s' : σ} {ls : List L} {P : σ → Prop}

theorem reaches_nil : Reaches step s [] s' ↔ s' = s := by
  constructor
  · intro h; cases h; rfl
  · rintro rfl; exact .nil _

theorem reaches_cons {l : L} :
    Reaches step s (l :: ls) s' ↔ ∃ s₁, step s l s₁ ∧ Reaches step s₁ ls s' := by
  constructor
  · intro h; cases h with | cons h₁ h₂ => exact ⟨_, h₁, h₂⟩
  · rintro ⟨s₁, h₁, h₂⟩; exact .cons h₁ h₂

theorem reaches_append {l₁ l₂ : List L} :
    Reaches step s (l₁ ++ l₂) s' ↔ ∃ s₁, Reaches step s l₁ s₁ ∧ Reaches step s₁ l₂ s' := by
  induction l₁ generalizing s with
  | nil =>
    constructor
    · intro h; exact ⟨s, .nil _, h⟩
    · rintro ⟨s₁, h₁, h₂⟩; rw [reaches_nil] at h₁; subst h₁; exact h₂
  | cons l l₁ ih =>
    simp only [List.cons_append, reaches_cons, ih]
    constructor
    · rintro ⟨s₁, h, s₂, h₁, h₂⟩; exact ⟨s₂, ⟨s₁, h, h₁⟩, h₂⟩
    · rintro ⟨s₂, ⟨s₁, h, h₁⟩, h₂⟩; exact ⟨s₁, h, s₂, h₁, h₂⟩

/-- What one step preserves, a run preserves. -/
theorem Reaches.invariant {I : σ → Prop} (hI : ∀ s l s', I s → step s l s' → I s')
    (h : Reaches step s ls s') (hs : I s) : I s' := by
  induction h with
  | nil _ => exact hs
  | cons h₁ _ ih => exact ih (hI _ _ _ hs h₁)

/-- A condition on the labels alone holds of every step of a run iff it holds of every label. -/
theorem reaches_guarded_iff {ok : L → Prop} (h : Reaches step s ls s') :
    Reaches (guarded step fun _ l => ok l) s ls s' ↔ ∀ l ∈ ls, ok l := by
  constructor
  · intro hg
    clear h
    induction hg with
    | nil s => simp
    | cons h₁ _ ih => exact List.forall_mem_cons.2 ⟨h₁.2, ih⟩
  · intro hok
    induction h with
    | nil s => exact .nil s
    | cons h₁ _ ih =>
      obtain ⟨hl, hok⟩ := List.forall_mem_cons.1 hok
      exact .cons ⟨h₁, hl⟩ (ih hok)

theorem Always.last (h : Always step P s ls) (hr : Reaches step s ls s') : P s' :=
  h ls [] s' (by simp) hr

theorem throughout_nil {P : σ → L → σ → Prop} : Throughout step P s [] := by
  intro l₁ l l₂ s₁ s₂ hl
  simp at hl

theorem throughout_cons {P : σ → L → σ → Prop} {l : L} {s₁ : σ}
    (hdet : ∀ s l s₁ s₂, step s l s₁ → step s l s₂ → s₁ = s₂) (h : step s l s₁) :
    Throughout step P s (l :: ls) ↔ P s l s₁ ∧ Throughout step P s₁ ls := by
  constructor
  · intro ha
    refine ⟨ha [] l ls s s₁ rfl (.nil s) h, fun l₁ k l₂ t t' hl hr ht => ?_⟩
    exact ha (l :: l₁) k l₂ t t' (by rw [hl]; rfl) (.cons h hr) ht
  · rintro ⟨hP, ha⟩ l₁ k l₂ t t' hl hr ht
    cases l₁ with
    | nil =>
      obtain ⟨rfl, rfl⟩ := List.cons.inj hl
      rw [reaches_nil] at hr
      subst hr
      exact hdet _ _ _ _ h ht ▸ hP
    | cons j l₁ =>
      obtain ⟨rfl, rfl⟩ := List.cons.inj hl
      obtain ⟨u, hu, hr⟩ := reaches_cons.1 hr
      obtain rfl := hdet _ _ _ _ h hu
      exact ha l₁ k l₂ t t' rfl hr ht

/-- Along a deterministic system the exact condition for one step to have `P` is the exact condition for every step of
a run to have it; `J` is what is known of the states as long as all steps have `P`. -/
theorem throughout_iff {P : σ → L → σ → Prop} {J : σ → Prop} {ok : σ → L → Prop}
    (hdet : ∀ s l s₁ s₂, step s l s₁ → step s l s₂ → s₁ = s₂)
    (hJ : ∀ s l s', J s → step s l s' → P s l s' → J s')
    (hstep : ∀ s l s', J s → step s l s' → (P s l s' ↔ ok s l))
    (hs : J s) (h : Reaches step s ls s') :
    Throughout step P s ls ↔ Reaches (guarded step ok) s ls s' := by
  induction h with
  | nil s => exact iff_of_true throughout_nil (.nil s)
  | @cons s s₁ s₂ l ls h₁ _ ih =>
    rw [throughout_cons hdet h₁]
    constructor
    · rintro ⟨hP, ha⟩
      exact .cons ⟨h₁, (hstep _ _ _ hs h₁).1 hP⟩ ((ih (hJ _ _ _ hs h₁ hP)).1 ha)
    · intro hg
      obtain ⟨t, ⟨ht, hok⟩, hg⟩ := reaches_cons.1 hg
      obtain rfl := hdet _ _ _ _ h₁ ht
      have hP : P s l s₁ := (hstep _ _ _ hs h₁).2 hok
      exact ⟨hP, (ih (hJ _ _ _ hs h₁ hP)).2 hg⟩

/-- If all steps of a run meet a condition, they have what every step has that meets it. -/
theorem Reaches.throughout {P : σ → L → σ → Prop} {J : σ → Prop} {ok : σ → L → Prop}
    (hdet : ∀ s l s₁ s₂, step s l s₁ → step s l s₂ → s₁ = s₂) (hJ : ∀ s l s', J s → step s l s' → J s')
    (hstep : ∀ s l s', J s → step s l s' → ok s l → P s l s') (hs : J s) (h : Reaches (guarded step ok) s ls s') :
    Throughout step P s ls := by
  induction h with
  | nil s => exact throughout_nil
  | cons h₁ _ ih =>
    rw [throughout_cons hdet h₁.1]
    exact ⟨hstep _ _ _ hs h₁.1 h₁.2, ih (hJ _ _ _ hs h₁.1)⟩

/-- `P` holds in every state of a run iff it holds in the first one and after every step. -/
theorem always_iff_throughout :
    Always step P s ls ↔ P s ∧ Throughout step (fun _ _ s' => P s') s ls := by
  constructor
  · intro h
    refine ⟨h [] ls s rfl (.nil s), fun l₁ l l₂ s₁ s₂ hl hr hs => ?_⟩
    exact h (l₁ ++ [l]) l₂ s₂ (by simp [hl]) (reaches_append.2 ⟨s₁, hr, .cons hs (.nil s₂)⟩)
  · rintro ⟨hs, h⟩ l₁ l₂ s' hl hr
    rcases List.eq_nil_or_concat l₁ with rfl | ⟨l₀, l, rfl⟩
    · rw [reaches_nil] at hr
      exact hr ▸ hs
    · rw [List.concat_eq_append] at hl hr
      obtain ⟨s₁, h₁, h₂⟩ := reaches_append.1 hr
      obtain ⟨s₂, hl₂, hr₂⟩ := reaches_cons.1 h₂
      rw [reaches_nil] at hr₂
      exact hr₂ ▸ h l₀ l l₂ s₁ s₂ (by simp [hl]) h₁ hl₂

/-- Along a deterministic system the exact condition for one step to keep `P` is the exact condition for a run:
`J` is what is known of the states as long as all of them have `P`. -/
theorem always_iff {J : σ → Prop} {ok : σ → L → Prop}
    (hdet : ∀ s l s₁ s₂, step s l s₁ → step s l s₂ → s₁ = s₂)
    (hJ : ∀ s l s', J s → P s → step s l s' → J s')
    (hstep : ∀ s l s', J s → P s → step s l s' → (P s' ↔ ok s l))
    (hJs : J s) (hP : P s) (h : Reaches step s ls s') :
    Always step P s ls ↔ Reaches (guarded step ok) s ls s' := by
  have hsteps := throughout_iff (P := fun _ _ s' => P s') (J := fun s => J s ∧ P s) hdet
    (fun _ _ _ hs hl hP => ⟨hJ _ _ _ hs.1 hs.2 hl, hP⟩) (fun _ _ _ hs hl => hstep _ _ _ hs.1 hs.2 hl) ⟨hJs, hP⟩ h
  rw [always_iff_throughout, and_iff_right hP, hsteps]

end Interaction
