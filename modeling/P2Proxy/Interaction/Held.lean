import P2Proxy.Interaction.Run

/-!
# What is held since it was set

A register that some steps set and others clear.  `HeldSince set clears ls x` says that the last step of `ls` that sets
the register sets it to `x`, and that no later one clears it.  If every step acts on the register in this way, then that
is what the register holds at the end of a run (`Reaches.held_iff`).
-/

namespace Interaction

variable {σ L X : Type} {step : σ → L → σ → Prop} {s s' : σ} {l : L} {ls : List L} {set : L → Option X}
  {clears : L → X → Prop} {x : X}

/-- The register was set to `x`, and neither set anew nor cleared since. -/
def HeldSince (set : L → Option X) (clears : L → X → Prop) (ls : List L) (x : X) : Prop :=
  ∃ pre l post, ls = pre ++ l :: post ∧ set l = some x ∧ ∀ m ∈ post, set m = none ∧ ¬clears m x

theorem not_heldSince_nil : ¬HeldSince set clears [] x := by
  rintro ⟨pre, l, post, h, -⟩
  simp at h

/-- Held after one more step is what it sets, or what it leaves alone. -/
theorem heldSince_concat :
    HeldSince set clears (ls ++ [l]) x ↔
      set l = some x ∨ set l = none ∧ ¬clears l x ∧ HeldSince set clears ls x := by
  constructor
  · rintro ⟨pre, k, post, hls, hk, hpost⟩
    rcases List.eq_nil_or_concat post with rfl | ⟨post, m, rfl⟩
    · obtain ⟨-, rfl⟩ := List.append_singleton_inj.1 hls
      exact .inl hk
    · rw [List.concat_eq_append, ← List.cons_append, ← List.append_assoc] at hls
      obtain ⟨rfl, rfl⟩ := List.append_singleton_inj.1 hls
      obtain ⟨hset, hclears⟩ := hpost l (by simp)
      exact .inr ⟨hset, hclears, pre, k, post, rfl, hk, fun m hm => hpost m (by simp [hm])⟩
  · rintro (hset | ⟨hset, hclears, pre, k, post, rfl, hk, hpost⟩)
    · exact ⟨ls, l, [], rfl, hset, by simp⟩
    · refine ⟨pre, k, post ++ [l], by simp, hk, fun m hm => ?_⟩
      rcases List.mem_append.1 hm with hm | hm
      · exact hpost m hm
      · rw [List.mem_singleton.1 hm]
        exact ⟨hset, hclears⟩

/-- If every step sets and clears the register, then at the end of a run it holds what is held since it was set; it was
empty at first. -/
theorem Reaches.held_iff (h : Reaches step s ls s') (value : σ → Option X) (hs : value s = none)
    (hstep : ∀ s l s' x, step s l s' →
      (value s' = some x ↔ set l = some x ∨ set l = none ∧ ¬clears l x ∧ value s = some x)) :
    value s' = some x ↔ HeldSince set clears ls x := by
  induction ls using List.reverseRecOn generalizing s' with
  | nil =>
    rw [reaches_nil] at h
    subst h
    rw [hs]
    exact iff_of_false (by simp) not_heldSince_nil
  | append_singleton ls l ih =>
    obtain ⟨s₁, h₁, h₂⟩ := reaches_append.1 h
    obtain ⟨s₂, hl, hr⟩ := reaches_cons.1 h₂
    rw [reaches_nil] at hr
    subst hr
    rw [hstep _ _ _ _ hl, heldSince_concat, ih h₁]

end Interaction
