import Mathlib

/-!
# Sweeping a list with `swap_remove`

`swapRemove l i` removes the element at `i` and puts the last element into the hole.  `sweep` is the scan that removes
every element satisfying `p` in this way; after a removal it looks at the same index again.  It returns what it has
removed, in the order of removal, and what is left.  The order of a list is not kept, but nothing is lost or removed
twice (`sweep_perm`) and nothing that satisfies `p` is overlooked (`not_of_mem_sweep`).
-/

namespace Interaction

variable {α : Type}

/-- Remove the element at `i`; the last element takes its place. -/
def swapRemove (l : List α) (i : Nat) : List α :=
  match l.getLast? with
  | none => []
  | some last => (l.set i last).dropLast

/-- Scan the list from `i`, for at most `n` rounds. -/
def sweep (p : α → Bool) : Nat → Nat → List α → List α × List α
  | 0, _, l => ([], l)
  | n + 1, i, l =>
    match l[i]? with
    | none => ([], l)
    | some x =>
      if p x then
        let r := sweep p n i (swapRemove l i)
        (x :: r.1, r.2)
      else sweep p n (i + 1) l

theorem length_swapRemove {l : List α} {i : Nat} (h : i < l.length) : (swapRemove l i).length = l.length - 1 := by
  have hne : l ≠ [] := by
    intro hl
    rw [hl] at h
    exact Nat.not_lt_zero i h
  rw [swapRemove, List.getLast?_eq_some_getLast hne]
  simp

theorem take_swapRemove {l : List α} {i : Nat} (h : i < l.length) : (swapRemove l i).take i = l.take i := by
  have hne : l ≠ [] := by
    intro hl
    rw [hl] at h
    exact Nat.not_lt_zero i h
  rw [swapRemove, List.getLast?_eq_some_getLast hne]
  dsimp only
  rw [List.dropLast_eq_take, List.take_take, List.length_set, Nat.min_eq_left (by omega), List.take_set_of_le le_rfl]

theorem swapRemove_perm {l : List α} {i : Nat} (h : i < l.length) : (l[i] :: swapRemove l i).Perm l := by
  have hlast : l.length - 1 < l.length := by omega
  have hget : l.getLast? = some l[l.length - 1] := by
    rw [List.getLast?_eq_getElem?, List.getElem?_eq_getElem hlast]
  have hswap : swapRemove l i ++ [l[i]] = (l.set i l[l.length - 1]).set (l.length - 1) l[i] := by
    have hlength : l.length - 1 < (l.set i l[l.length - 1]).length := by rw [List.length_set]; exact hlast
    rw [List.set_eq_take_append_cons_drop, if_pos hlength, List.drop_eq_nil_of_le (by rw [List.length_set]; omega)]
    rw [swapRemove, hget]
    dsimp only
    rw [List.dropLast_eq_take, List.length_set]
  have hperm : (swapRemove l i ++ [l[i]]).Perm l := hswap ▸ List.set_set_perm h hlast
  exact (List.perm_append_singleton l[i] (swapRemove l i)).symm.trans hperm

/-- What the sweep removes and what it leaves is the list. -/
theorem sweep_perm (p : α → Bool) (n i : Nat) (l : List α) : ((sweep p n i l).1 ++ (sweep p n i l).2).Perm l := by
  induction n generalizing i l with
  | zero => exact List.Perm.refl l
  | succ n ih =>
    rw [sweep]
    split
    · exact List.Perm.refl l
    · rename_i x hx
      obtain ⟨hi, rfl⟩ := List.getElem?_eq_some_iff.1 hx
      split
      · exact ((ih i (swapRemove l i)).cons l[i]).trans (swapRemove_perm hi)
      · exact ih (i + 1) l

theorem of_mem_sweep {p : α → Bool} {n i : Nat} {l : List α} {x : α} (h : x ∈ (sweep p n i l).1) : p x = true := by
  induction n generalizing i l with
  | zero => exact absurd h List.not_mem_nil
  | succ n ih =>
    rw [sweep] at h
    split at h
    · exact absurd h List.not_mem_nil
    · split at h
      · rename_i y _ hy
        rcases List.mem_cons.1 h with rfl | h
        · exact hy
        · exact ih h
      · exact ih h

/-- With a round for every element that is still ahead, the sweep leaves nothing that satisfies `p`. -/
theorem not_of_mem_sweep {p : α → Bool} {n i : Nat} {l : List α} (hn : l.length ≤ i + n)
    (hbefore : ∀ x ∈ l.take i, p x = false) {x : α} (h : x ∈ (sweep p n i l).2) : p x = false := by
  induction n generalizing i l with
  | zero =>
    have hall : l.take i = l := List.take_of_length_le hn
    exact hbefore x (hall.symm ▸ h)
  | succ n ih =>
    rw [sweep] at h
    split at h
    · rename_i hx
      have hi : l.length ≤ i := List.getElem?_eq_none_iff.1 hx
      exact hbefore x ((List.take_of_length_le hi).symm ▸ h)
    · rename_i y hy
      obtain ⟨hi, rfl⟩ := List.getElem?_eq_some_iff.1 hy
      split at h
      · have hlength := length_swapRemove hi
        exact ih (by omega) (by rw [take_swapRemove hi]; exact hbefore) h
      · rename_i hp
        refine ih (by omega) (fun z hz => ?_) h
        rw [List.take_succ_eq_append_getElem hi] at hz
        rcases List.mem_append.1 hz with hz | hz
        · exact hbefore z hz
        · rw [List.mem_singleton.1 hz]
          exact Bool.eq_false_of_not_eq_true hp

/-- The scan of a whole list. -/
def sweepAll (p : α → Bool) (l : List α) : List α × List α := sweep p l.length 0 l

theorem sweepAll_left_perm (p : α → Bool) (l : List α) : (sweepAll p l).2.Perm (l.filter fun x => !p x) := by
  have hperm := (sweep_perm p l.length 0 l).filter fun x => !p x
  have hgone : (sweepAll p l).1.filter (fun x => !p x) = [] :=
    List.filter_eq_nil_iff.2 fun x hx => by simp [of_mem_sweep hx]
  have hleft : (sweepAll p l).2.filter (fun x => !p x) = (sweepAll p l).2 :=
    List.filter_eq_self.2 fun x hx => by simp [not_of_mem_sweep (by omega) (by simp) hx]
  rw [List.filter_append] at hperm
  change ((sweepAll p l).1.filter _ ++ (sweepAll p l).2.filter _).Perm _ at hperm
  rwa [hgone, hleft, List.nil_append] at hperm

theorem sweepAll_removed_perm (p : α → Bool) (l : List α) : (sweepAll p l).1.Perm (l.filter p) := by
  have hperm := (sweep_perm p l.length 0 l).filter p
  have hgone : (sweepAll p l).1.filter p = (sweepAll p l).1 := List.filter_eq_self.2 fun x hx => of_mem_sweep hx
  have hleft : (sweepAll p l).2.filter p = [] :=
    List.filter_eq_nil_iff.2 fun x hx => by simp [not_of_mem_sweep (by omega) (by simp) hx]
  rw [List.filter_append] at hperm
  change ((sweepAll p l).1.filter _ ++ (sweepAll p l).2.filter _).Perm _ at hperm
  rwa [hgone, hleft, List.append_nil] at hperm

end Interaction
