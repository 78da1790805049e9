import Mathlib

/-!
# Messages that later ones make up for

The messages of a queue are taken out in any order, and new ones are added at the end.  `Followed settled answers l`
says that every message of `l` is settled or followed by one that answers it.  This stays so as long as no message is
taken out before an earlier one that it answers (`Followed.remove`), and as long as a message that is no longer settled
is answered by the new one (`Followed.concat`).
-/

namespace Interaction

variable {X : Type}

/-- Every message of the queue is settled, or followed by one that answers it. -/
def Followed (settled : X → Prop) (answers : X → X → Prop) (l : List X) : Prop :=
  ∀ before x after, l = before ++ x :: after → settled x ∨ ∃ y ∈ after, answers y x

namespace Followed

variable {settled settled' : X → Prop} {answers : X → X → Prop} {l before after : List X} {x y : X}

theorem nil : Followed settled answers ([] : List X) := fun _ _ _ h => by simp at h

theorem mono (h : Followed settled answers l) (hsettled : ∀ x, settled x → settled' x) : Followed settled' answers l :=
  fun before x after hl => (h before x after hl).imp_left (hsettled x)

/-- A new message is settled, and answers what is settled no longer. -/
theorem concat (h : Followed settled answers l) (hy : settled' y)
    (hstep : ∀ x ∈ l, settled x → settled' x ∨ answers y x) : Followed settled' answers (l ++ [y]) := by
  intro before x after hl
  rcases List.eq_nil_or_concat after with rfl | ⟨rest, z, rfl⟩
  · obtain ⟨-, hx⟩ := List.append_inj' hl rfl
    exact .inl (List.singleton_inj.1 hx ▸ hy)
  · rw [List.concat_eq_append, ← List.cons_append, ← List.append_assoc] at hl
    obtain ⟨rfl, hz⟩ := List.append_inj' hl rfl
    obtain rfl : y = z := List.singleton_inj.1 hz
    rw [List.concat_eq_append]
    rcases h before x rest rfl with hsettled | ⟨w, hw, hanswers⟩
    · rcases hstep x (by simp) hsettled with hx | hx
      · exact .inl hx
      · exact .inr ⟨y, by simp, hx⟩
    · exact .inr ⟨w, List.mem_append_left _ hw, hanswers⟩

/-- A message may be taken out if it answers none before it. -/
theorem remove (h : Followed settled answers (before ++ y :: after)) (hy : ∀ x ∈ before, ¬answers y x) :
    Followed settled answers (before ++ after) := by
  intro l₁ x l₂ hl
  rcases List.append_eq_append_iff.1 hl with ⟨t, rfl, rfl⟩ | ⟨t, rfl, ht⟩
  · -- the message stood before `x`
    exact h (before ++ y :: t) x l₂ (by simp)
  · cases t with
    | nil => exact h (l₁ ++ [y]) x l₂ (by simpa using ht.symm)
    | cons z t =>
      obtain ⟨rfl, rfl⟩ := List.cons.inj ht
      rcases h l₁ x (t ++ y :: after) (by simp) with hsettled | ⟨w, hw, hanswers⟩
      · exact .inl hsettled
      · refine .inr ⟨w, ?_, hanswers⟩
        have hne : w ≠ y := by
          rintro rfl
          exact hy x (by simp) hanswers
        simpa [hne] using hw

end Followed

end Interaction
