import Mathlib

/-!
# Joined lists

Lists that are joined by a separator can be told apart as long as the separator occurs in none of them.  It is enough
to know this of one side: the other side, joined from as many lists, has no separator to spare (`intercalate_inj`).
-/

namespace Interaction

variable {α : Type} [DecidableEq α] {c : α} {ls ls' : List (List α)}

/-- The separators between the lists are added to those in them. -/
theorem count_intercalate (h : ls ≠ []) :
    ([c].intercalate ls).count c + 1 = (ls.map (·.count c)).sum + ls.length := by
  induction ls with
  | nil => exact absurd rfl h
  | cons l ls ih =>
    cases ls with
    | nil => simp
    | cons l' ls =>
      have ih := ih (List.cons_ne_nil _ _)
      rw [List.intercalate_cons_cons, List.count_append, List.count_append, List.count_singleton_self, List.map_cons,
        List.sum_cons, List.length_cons]
      omega

/-- Lists without the separator can be told apart from any other lists after joining. -/
theorem intercalate_inj (hlen : ls'.length = ls.length) (hls : ∀ l ∈ ls, c ∉ l)
    (h : [c].intercalate ls = [c].intercalate ls') : ls = ls' := by
  cases ls with
  | nil => exact (List.length_eq_zero_iff.1 hlen).symm
  | cons l ls =>
    have hne : l :: ls ≠ [] := List.cons_ne_nil _ _
    have hne' : ls' ≠ [] := by rintro rfl; simp at hlen
    -- neither side has a separator inside its lists
    have hsum : ((l :: ls).map (·.count c)).sum = 0 :=
      List.sum_eq_zero fun n hn => by
        obtain ⟨k, hk, rfl⟩ := List.mem_map.1 hn
        exact List.count_eq_zero.2 (hls k hk)
    have hsum' : (ls'.map (·.count c)).sum = 0 := by
      have hcount := count_intercalate (c := c) hne
      have hcount' := count_intercalate (c := c) hne'
      rw [h, hsum] at hcount
      omega
    have hls' : ∀ k ∈ ls', c ∉ k := by
      intro k hk
      have hle := List.single_le_sum (fun n _ => Nat.zero_le n) _ (List.mem_map_of_mem (f := (·.count c)) hk)
      rw [hsum'] at hle
      exact List.count_eq_zero.1 (Nat.le_zero.1 hle)
    rw [← List.splitOn_intercalate c hls hne, h, List.splitOn_intercalate c hls' hne']

end Interaction
