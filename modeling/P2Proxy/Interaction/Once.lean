import P2Proxy.Interaction.Run

/-!
# What was true once

`Once step P s ls` says that `P` held in some state of the run of `ls` from `s`.  What the states of a system know of
its past is explained step by step: if every step only adds what holds before it or after it, then all that is known at
the end of a run was true once (`Reaches.once`).
-/

namespace Interaction

variable {σ L X : Type} {step : σ → L → σ → Prop} {s s₁ s' : σ} {l : L} {ls ls' : List L} {P : σ → Prop}

/-- `P` holds in some state of the run of `ls` from `s`, the first and the last included. -/
def Once (step : σ → L → σ → Prop) (P : σ → Prop) (s : σ) (ls : List L) : Prop :=
  ∃ l₁ l₂ s', ls = l₁ ++ l₂ ∧ Reaches step s l₁ s' ∧ P s'

namespace Once

theorem first (h : P s) : Once step P s ls := ⟨[], ls, s, rfl, .nil s, h⟩

theorem later (hl : step s l s₁) (h : Once step P s₁ ls) : Once step P s (l :: ls) := by
  obtain ⟨l₁, l₂, s', rfl, hr, hP⟩ := h
  exact ⟨l :: l₁, l₂, s', rfl, .cons hl hr, hP⟩

end Once

/-- Facts that every step explains by the state before it or after it have been true once, or were known at first;
`J` is what is known of the states. -/
theorem Reaches.once (h : Reaches step s ls s') (known : σ → X → Prop) (P : X → σ → Prop) {J : σ → Prop}
    (hJ : ∀ s l s', J s → step s l s' → J s')
    (hstep : ∀ s l s' x, J s → step s l s' → known s' x → known s x ∨ P x s ∨ P x s')
    (hs : J s) {x : X} (hx : known s' x) : known s x ∨ Once step (P x) s ls := by
  induction h with
  | nil s => exact .inl hx
  | cons h₁ _ ih =>
    rcases ih (hJ _ _ _ hs h₁) hx with hknown | honce
    · rcases hstep _ _ _ x hs h₁ hknown with hfirst | hbefore | hafter
      · exact .inl hfirst
      · exact .inr (.first hbefore)
      · exact .inr (.later h₁ (.first hafter))
    · exact .inr (.later h₁ honce)

/-- Facts that every step keeps or brings about were known at first, or a step has brought them about. -/
theorem Reaches.caused (h : Reaches step s ls s') (known : σ → X → Prop) (cause : X → L → Prop)
    (hstep : ∀ s l s' x, step s l s' → known s' x → known s x ∨ cause x l) {x : X} (hx : known s' x) :
    known s x ∨ ∃ l ∈ ls, cause x l := by
  induction h with
  | nil s => exact .inl hx
  | cons h₁ _ ih =>
    rcases ih hx with hknown | ⟨l, hl, hcause⟩
    · exact (hstep _ _ _ x h₁ hknown).imp_right fun hcause => ⟨_, List.mem_cons_self .., hcause⟩
    · exact .inr ⟨l, List.mem_cons_of_mem _ hl, hcause⟩

/-- A run meets a condition, or there is a step of it that does not. -/
theorem Reaches.guarded_or (h : Reaches step s ls s') (ok : σ → L → Prop) :
    Reaches (guarded step ok) s ls s' ∨
      ∃ l₁ l l₂ s₁, ls = l₁ ++ l :: l₂ ∧ Reaches step s l₁ s₁ ∧ Reaches step s₁ (l :: l₂) s' ∧ ¬ok s₁ l := by
  induction h with
  | nil s => exact .inl (.nil s)
  | @cons s s₁ s₂ l ls h₁ hr ih =>
    by_cases hok : ok s l
    · rcases ih with hg | ⟨l₁, l', l₂, t, rfl, ht, ht', hnot⟩
      · exact .inl (.cons ⟨h₁, hok⟩ hg)
      · exact .inr ⟨l :: l₁, l', l₂, t, rfl, .cons h₁ ht, ht', hnot⟩
    · exact .inr ⟨[], l, ls, s, rfl, .nil s, .cons h₁ hr, hok⟩

end Interaction
