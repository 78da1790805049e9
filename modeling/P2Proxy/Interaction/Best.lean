import Mathlib

/-!
# The last of the best

A register keeps the best of the values that are offered to it, and of equally good ones the last.  After any list of
offers it holds the first maximum of the reversed list (`foldl_offer`): the value that is as good as every offer before
it and better than every offer after it (`foldl_offer_eq_some_iff`).
-/

namespace Interaction

variable {α κ : Type} [LinearOrder κ] {key : α → κ} {l : List α} {x y : α} {held : Option α}

/-- Offer `x` to a register: it takes the place of what is held, unless that is better. -/
def offer (key : α → κ) (held : Option α) (x : α) : Option α :=
  if held.any (fun y => key x < key y) then held else some x

/-- `x` is the last of the best in the list. -/
def LastBest (key : α → κ) (l : List α) (x : α) : Prop :=
  ∃ before after, l = before ++ x :: after ∧ (∀ y ∈ before, key y ≤ key x) ∧ ∀ y ∈ after, key y < key x

theorem foldl_offer : l.foldl (offer key) none = l.reverse.argmax key := by
  induction l using List.reverseRecOn with
  | nil => rfl
  | append_singleton l x ih =>
    rw [List.foldl_append, ih, List.reverse_append, List.reverse_singleton, List.singleton_append, List.argmax_cons]
    cases l.reverse.argmax key with
    | none => rfl
    | some y => by_cases h : key x < key y <;> simp [offer, h]

theorem foldl_offer_eq_none_iff : l.foldl (offer key) none = none ↔ l = [] := by
  rw [foldl_offer, List.argmax_eq_none, List.reverse_eq_nil_iff]

private theorem lastBest_concat : LastBest key (l ++ [y]) x ↔
    (x = y ∧ ∀ z ∈ l, key z ≤ key x) ∨ (LastBest key l x ∧ key y < key x) := by
  constructor
  · rintro ⟨before, after, heq, hbefore, hafter⟩
    rcases List.eq_nil_or_concat after with rfl | ⟨after, z, rfl⟩
    · obtain ⟨rfl, rfl⟩ := List.append_singleton_inj.1 heq
      exact .inl ⟨rfl, hbefore⟩
    · have hlast : l ++ [y] = (before ++ x :: after) ++ [z] := by simpa using heq
      obtain ⟨rfl, rfl⟩ := List.append_singleton_inj.1 hlast
      refine .inr ⟨⟨before, after, rfl, hbefore, fun w hw => ?_⟩, ?_⟩
      · exact hafter w (by simp [hw])
      · exact hafter y (by simp)
  · rintro (⟨rfl, hmax⟩ | ⟨⟨before, after, rfl, hbefore, hafter⟩, hy⟩)
    · exact ⟨l, [], rfl, hmax, by simp⟩
    · refine ⟨before, after ++ [y], by simp, hbefore, fun w hw => ?_⟩
      rcases List.mem_append.1 hw with hw | hw
      · exact hafter w hw
      · exact List.mem_singleton.1 hw ▸ hy

theorem LastBest.mem (h : LastBest key l x) : x ∈ l := by
  obtain ⟨before, after, rfl, -⟩ := h
  simp

/-- What a register holds after a list of offers. -/
theorem foldl_offer_eq_some_iff : l.foldl (offer key) none = some x ↔ LastBest key l x := by
  induction l using List.reverseRecOn generalizing x with
  | nil => simp [LastBest]
  | append_singleton l y ih =>
    rw [lastBest_concat, List.foldl_append]
    cases hheld : l.foldl (offer key) none with
    | none =>
      obtain rfl := foldl_offer_eq_none_iff.1 hheld
      simp [offer, LastBest, eq_comm]
    | some best =>
      have hbest : LastBest key l best := ih.1 hheld
      have hmax : ∀ z ∈ l, key z ≤ key best := by
        intro z hz
        rw [foldl_offer] at hheld
        exact List.le_of_mem_argmax (List.mem_reverse.2 hz) hheld
      by_cases hlt : key y < key best
      · -- the old value is better than the offer
        have hkeep : [y].foldl (offer key) (some best) = some best := by simp [offer, hlt]
        rw [hkeep]
        constructor
        · rintro ⟨⟩
          exact .inr ⟨hbest, hlt⟩
        · rintro (⟨rfl, hall⟩ | ⟨hx, -⟩)
          · exact absurd (hall best hbest.mem) (not_le.2 hlt)
          · rw [← ih.2 hx, hheld]
      · have htake : [y].foldl (offer key) (some best) = some y := by simp [offer, hlt]
        have hle : key best ≤ key y := not_lt.1 hlt
        rw [htake]
        constructor
        · rintro ⟨⟩
          exact .inl ⟨rfl, fun z hz => (hmax z hz).trans hle⟩
        · rintro (⟨rfl, -⟩ | ⟨hx, hyx⟩)
          · rfl
          · exact absurd hyx (not_lt.2 ((hmax x hx.mem).trans hle))

end Interaction
