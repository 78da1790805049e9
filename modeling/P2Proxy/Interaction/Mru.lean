import Mathlib

/-!
# Most-recently-used lists

`promote cap x l` puts `x` in front of `l`, drops its old occurrence and keeps at most `cap` entries, but always the
front.  A list without repetitions keeps this property, and promoting the front of a list that fits changes nothing.

What a row of promotions leaves is the first occurrences in the row, latest first, followed by the list, cut once at the
end (`foldl_promote`): cutting early loses nothing that a later promotion would have needed.
-/

namespace Interaction

variable {α : Type} [DecidableEq α] {cap : Nat} {x y : α} {l : List α}

/-- Move `x` to the front of `l` and cut the list to `cap` entries, at least one. -/
def promote (cap : Nat) (x : α) (l : List α) : List α :=
  (x :: l.erase x).take (max 1 cap)

theorem promote_eq_cons : promote cap x l = x :: (l.erase x).take (max 1 cap - 1) := by
  unfold promote
  obtain ⟨n, hn⟩ : ∃ n, max 1 cap = n + 1 := ⟨max 1 cap - 1, by omega⟩
  rw [hn]; simp

@[simp] theorem head?_promote : (promote cap x l).head? = some x := by
  rw [promote_eq_cons]; rfl

@[simp] theorem promote_ne_nil : promote cap x l ≠ [] := by
  rw [promote_eq_cons]; simp

theorem mem_promote_self : x ∈ promote cap x l := by
  rw [promote_eq_cons]; exact List.mem_cons_self ..

theorem mem_of_mem_promote (h : y ∈ promote cap x l) : y = x ∨ y ∈ l := by
  rcases List.mem_cons.1 (List.mem_of_mem_take h) with h | h
  · exact .inl h
  · exact .inr (List.mem_of_mem_erase h)

theorem nodup_promote (h : l.Nodup) : (promote cap x l).Nodup := by
  refine List.Nodup.sublist (List.take_sublist ..) ?_
  exact List.nodup_cons.2 ⟨h.not_mem_erase, h.erase x⟩

theorem length_promote_le_succ : (promote cap x l).length ≤ l.length + 1 := by
  have htake : (promote cap x l).length ≤ (x :: l.erase x).length := List.length_take_le' ..
  have herase : (l.erase x).length ≤ l.length := List.length_erase_le ..
  rw [List.length_cons] at htake
  omega

theorem length_promote_le : (promote cap x l).length ≤ max 1 cap := List.length_take_le ..

/-- Promoting the front of a list that fits changes nothing. -/
theorem promote_of_head? (h : l.head? = some x) (hl : l.length ≤ max 1 cap) : promote cap x l = l := by
  cases l with
  | nil => simp at h
  | cons y l =>
    simp only [List.head?_cons, Option.some.injEq] at h
    subst h
    rw [promote, List.erase_cons_head, List.take_of_length_le hl]

/-- Promoting `x` after some of the first entries were dropped restores the list exactly if `x` was its front, it fits,
and nobody but `x` was dropped. -/
theorem promote_filter_eq_iff {pre : List α} (hpre : pre <+: l) :
    promote cap x (l.filter (· ∉ pre)) = l ↔
      l.head? = some x ∧ l.length ≤ max 1 cap ∧ (pre = [] ∨ pre = [x] ∧ x ∉ l.tail) := by
  obtain ⟨post, rfl⟩ := hpre
  constructor
  · intro h
    have hhead : (pre ++ post).head? = some x := by rw [← h]; exact head?_promote
    have hfit : (pre ++ post).length ≤ max 1 cap := by rw [← h]; exact length_promote_le
    refine ⟨hhead, hfit, ?_⟩
    -- what is dropped is lost, and only one entry is put back
    have hlost : (pre ++ post).length ≤ 1 + post.length := by
      have hkept : ((pre ++ post).filter (· ∉ pre)).length ≤ post.length := by
        rw [List.filter_append, List.filter_eq_nil_iff.2 (by simp), List.nil_append]
        exact List.length_filter_le ..
      have hput : (promote cap x ((pre ++ post).filter (· ∉ pre))).length ≤
          1 + ((pre ++ post).filter (· ∉ pre)).length := by
        rw [promote_eq_cons, List.length_cons, List.length_take]
        have := List.length_erase_le (a := x) (l := (pre ++ post).filter (· ∉ pre))
        omega
      rw [h] at hput
      omega
    match pre with
    | [] => exact .inl rfl
    | [y] =>
      obtain rfl : y = x := by simpa using hhead
      refine .inr ⟨rfl, fun hy => ?_⟩
      rw [promote_eq_cons] at h
      have htail : y ∈ ((([y] ++ post).filter (· ∉ [y])).erase y).take (max 1 cap - 1) := by
        rw [(List.cons.inj h).2]
        exact hy
      simpa using List.mem_of_mem_erase (List.mem_of_mem_take htail)
    | y :: z :: pre =>
      simp only [List.cons_append, List.length_cons, List.length_append] at hlost
      omega
  · rintro ⟨hhead, hfit, rfl | ⟨rfl, htail⟩⟩
    · simpa using promote_of_head? hhead hfit
    · rw [List.singleton_append, List.tail_cons] at htail
      have hpost : ([x] ++ post).filter (· ∉ [x]) = post := by
        simp only [List.singleton_append, List.mem_singleton, decide_not, List.filter_cons, decide_true, Bool.not_true,
          Bool.false_eq_true, if_false]
        exact List.filter_eq_self.2 fun y hy => by simpa using fun h : y = x => htail (h ▸ hy)
      rw [hpost, promote, List.erase_of_not_mem htail]
      exact List.take_of_length_le hfit

/-! ### A row of promotions -/

theorem nodup_eraseDups (l : List α) : l.eraseDups.Nodup := by
  match l with
  | [] => simp
  | x :: l =>
    have hle : (l.filter fun y => !y == x).length ≤ l.length := List.length_filter_le ..
    rw [List.eraseDups_cons, List.nodup_cons]
    refine ⟨fun h => ?_, nodup_eraseDups _⟩
    simpa using (List.mem_filter.1 (List.mem_eraseDups.1 h)).2
termination_by l.length

theorem eraseDups_filter (p : α → Bool) (l : List α) : (l.filter p).eraseDups = l.eraseDups.filter p := by
  match l with
  | [] => simp
  | x :: l =>
    have hle : (l.filter fun y => !y == x).length ≤ l.length := List.length_filter_le ..
    have ih := eraseDups_filter p (l.filter fun y => !y == x)
    by_cases hp : p x = true
    · rw [List.filter_cons_of_pos hp, List.eraseDups_cons, List.eraseDups_cons, List.filter_cons_of_pos hp, ← ih,
        List.filter_filter, List.filter_filter]
      simp only [Bool.and_comm]
    · rw [List.filter_cons_of_neg hp, List.eraseDups_cons, List.filter_cons_of_neg hp, ← ih, List.filter_filter]
      refine congrArg List.eraseDups (List.filter_congr fun y _ => ?_)
      by_cases hy : y = x
      · subst hy; simp [hp]
      · simp [hy]
termination_by l.length

theorem eraseDups_of_nodup (h : l.Nodup) : l.eraseDups = l := by
  induction l with
  | nil => rfl
  | cons x l ih =>
    obtain ⟨hx, hl⟩ := List.nodup_cons.1 h
    have hfilter : (l.filter fun y => !y == x) = l := List.filter_eq_self.2 fun y hy => by
      have hne : y ≠ x := fun he => hx (he ▸ hy)
      simpa using hne
    rw [List.eraseDups_cons, hfilter, ih hl]

/-- The first occurrences in a list are its front and those of the rest. -/
theorem eraseDups_cons_eq (x : α) (l : List α) : (x :: l).eraseDups = x :: l.eraseDups.erase x := by
  rw [List.eraseDups_cons, eraseDups_filter, (nodup_eraseDups l).erase_eq_filter]
  rfl

/-- Entries beyond the cut do not come back when one before it is taken out, but for one. -/
theorem take_erase_take (n : Nat) : ((l.take (n + 1)).erase y).take n = (l.erase y).take n := by
  induction l generalizing n with
  | nil => simp
  | cons x l ih =>
    by_cases hx : x = y
    · subst hx
      rw [List.take_succ_cons, List.erase_cons_head, List.erase_cons_head, List.take_take, Nat.min_self]
    · rw [List.take_succ_cons, List.erase_cons_tail (by simpa using hx), List.erase_cons_tail (by simpa using hx)]
      cases n with
      | zero => simp
      | succ n => rw [List.take_succ_cons, List.take_succ_cons, ih n]

theorem promote_take_eraseDups (l : List α) :
    promote cap x (l.eraseDups.take (max 1 cap)) = (x :: l).eraseDups.take (max 1 cap) := by
  obtain ⟨n, hn⟩ : ∃ n, max 1 cap = n + 1 := ⟨max 1 cap - 1, by omega⟩
  rw [promote, hn, eraseDups_cons_eq, List.take_succ_cons, List.take_succ_cons, take_erase_take]

/-- A row of promotions, in closed form. -/
theorem foldl_promote {xs : List α} (hl : l.Nodup) (hxs : xs ≠ []) :
    xs.foldl (fun l x => promote cap x l) l = (xs.reverse ++ l).eraseDups.take (max 1 cap) := by
  induction xs using List.reverseRecOn with
  | nil => exact absurd rfl hxs
  | append_singleton xs x ih =>
    rw [List.foldl_append, List.foldl_cons, List.foldl_nil, List.reverse_append, List.reverse_singleton,
      List.singleton_append, List.cons_append]
    rcases eq_or_ne xs [] with rfl | hne
    · rw [List.foldl_nil, List.reverse_nil, List.nil_append, promote, eraseDups_cons_eq, eraseDups_of_nodup hl]
    · rw [ih hne, promote_take_eraseDups]

end Interaction
