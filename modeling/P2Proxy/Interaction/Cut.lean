import Mathlib

/-!
# Cutting lists

`afterLast? pat l` is what follows the last occurrence of `pat` in `l`.  For a pattern whose first entry does not occur
again in it, it is found by looking at the right part only: a text in front of an occurrence does not matter
(`afterLast?_append`), and what is found contains no further occurrence (`afterLast?_eq_some_iff`).
-/

namespace Interaction

variable {α : Type} [DecidableEq α] {a b : α} {pat p l m front t : List α}

/-- What follows the last occurrence of the pattern. -/
def afterLast? (pat : List α) : List α → Option (List α)
  | [] => none
  | a :: l => (afterLast? pat l).or ((a :: l).dropPrefix? pat)

theorem afterLast?_append_of_eq_some (h : afterLast? pat m = some t) : afterLast? pat (l ++ m) = some t := by
  induction l with
  | nil => exact h
  | cons a l ih => rw [List.cons_append, afterLast?, ih, Option.some_or]

private theorem dropPrefix?_eq_none (h : l.head? ≠ some a) : l.dropPrefix? (a :: p) = none := by
  cases l with
  | nil => rfl
  | cons c l =>
    have hne : (c == a) = false := by simpa using h
    rw [List.dropPrefix?, hne]
    rfl

/-- Nothing begins where the first entry of the pattern does not stand. -/
theorem afterLast?_skip (h : a ∉ front) : afterLast? (a :: p) (front ++ m) = afterLast? (a :: p) m := by
  induction front with
  | nil => rfl
  | cons c front ih =>
    obtain ⟨hc, hfront⟩ := not_or.1 (List.mem_cons.not.1 h)
    rw [List.cons_append, afterLast?, ih hfront, dropPrefix?_eq_none (by simpa using Ne.symm hc), Option.or_none]

/-- Nothing begins where the first entry of the pattern is not followed by the second one. -/
theorem afterLast?_skip_of_second (hb : b ∉ front) (hlast : front.getLast? ≠ some a) :
    afterLast? (a :: b :: p) (front ++ m) = afterLast? (a :: b :: p) m := by
  induction front with
  | nil => rfl
  | cons c front ih =>
    obtain ⟨-, hfront⟩ := not_or.1 (List.mem_cons.not.1 hb)
    have hnone : (c :: front ++ m).dropPrefix? (a :: b :: p) = none := by
      cases front with
      | nil => exact dropPrefix?_eq_none (by simpa using hlast)
      | cons d front =>
        have hd : (d == b) = false := beq_eq_false_iff_ne.2 fun hdb => hfront (hdb ▸ List.mem_cons_self ..)
        simp [List.dropPrefix?, hd]
    have hrest : afterLast? (a :: b :: p) (front ++ m) = afterLast? (a :: b :: p) m := by
      cases front with
      | nil => rfl
      | cons d front => exact ih hfront (by simpa using hlast)
    rw [List.cons_append] at hnone ⊢
    rw [afterLast?, hrest, hnone, Option.or_none]

/-- Only what follows an occurrence matters. -/
theorem afterLast?_append (ha : a ∉ p) :
    afterLast? (a :: p) (l ++ (a :: p ++ m)) = some ((afterLast? (a :: p) m).getD m) := by
  refine afterLast?_append_of_eq_some ?_
  have hhere : (a :: (p ++ m)).dropPrefix? (a :: p) = some m := by
    rw [← List.cons_append]
    exact List.dropPrefix?_append_of_beq m (by simp)
  rw [List.cons_append, afterLast?, afterLast?_skip ha, hhere]
  cases afterLast? (a :: p) m <;> rfl

theorem afterLast?_eq_none_iff : afterLast? (a :: p) l = none ↔ ¬(a :: p) <:+: l := by
  induction l with
  | nil => simp [afterLast?]
  | cons c l ih =>
    have hprefix : (c :: l).dropPrefix? (a :: p) = none ↔ ¬(a :: p) <+: c :: l := by
      rw [Option.eq_none_iff_forall_ne_some]
      constructor
      · rintro h ⟨t, ht⟩
        refine h t ?_
        rw [← ht]
        exact List.dropPrefix?_append_of_beq t (by simp)
      · rintro h t ht
        obtain ⟨p', hp', heq⟩ := List.dropPrefix?_eq_some_iff.1 ht
        obtain rfl := eq_of_beq heq
        exact h ⟨t, hp'.symm⟩
    rw [afterLast?, Option.or_eq_none_iff, ih, hprefix, List.infix_cons_iff, not_or, and_comm]

theorem afterLast?_eq_some_iff (ha : a ∉ p) :
    afterLast? (a :: p) l = some t ↔ ∃ s, l = s ++ (a :: p ++ t) ∧ ¬(a :: p) <:+: t := by
  constructor
  · intro h
    have hinfix : (a :: p) <:+: l := by
      by_contra hnot
      rw [afterLast?_eq_none_iff.2 hnot] at h
      cases h
    induction l with
    | nil => cases h
    | cons c l ih =>
      by_cases hl : (a :: p) <:+: l
      · obtain ⟨t', ht'⟩ := Option.ne_none_iff_exists'.1 (afterLast?_eq_none_iff.not.2 (not_not.2 hl))
        rw [afterLast?, ht', Option.some_or] at h
        obtain ⟨s, rfl, hfree⟩ := ih (ht'.trans h) hl
        exact ⟨c :: s, rfl, hfree⟩
      · -- the occurrence begins here
        rw [afterLast?, afterLast?_eq_none_iff.2 hl, Option.none_or] at h
        obtain ⟨p', hp', heq⟩ := List.dropPrefix?_eq_some_iff.1 h
        obtain rfl := eq_of_beq heq
        refine ⟨[], hp', fun hfree => hl ?_⟩
        have htail : l = p ++ t := (List.cons.inj hp').2
        rw [htail]
        exact hfree.trans (List.suffix_append p t).isInfix
  · rintro ⟨s, rfl, hfree⟩
    rw [afterLast?_append ha, afterLast?_eq_none_iff.2 hfree]
    rfl

omit [DecidableEq α] in
/-- A list is what stands in front of the first entry that is not kept. -/
theorem takeWhile_eq_iff {keep : α → Bool} : l.takeWhile keep = m ↔
    (∀ c ∈ m, keep c = true) ∧ ∃ after, l = m ++ after ∧ ∀ c, after.head? = some c → keep c = false := by
  constructor
  · rintro rfl
    refine ⟨fun c hc => List.mem_takeWhile_imp hc, l.dropWhile keep, List.takeWhile_append_dropWhile.symm,
      fun c hc => ?_⟩
    have hhead := List.head?_dropWhile_not keep l
    rw [hc] at hhead
    exact hhead
  · rintro ⟨hm, after, rfl, hafter⟩
    rw [List.takeWhile_append_of_pos hm]
    cases after with
    | nil => simp
    | cons c after => simp [hafter c rfl]

end Interaction
