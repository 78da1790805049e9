import P2Proxy.Interaction.Mru

/-!
# Merging and stable sorting

A list is merged into another one by appending those of its entries that are new (`foldl_pushNew`).  `sortByKey key l`
is sorted by `key`, and the entries of each key stay in the order in which `l` has them (`filter_sortByKey`); these two
facts determine the list (`eq_of_sorted`).  Two lists that are sorted by two different keys come out alike exactly if
they agree on every pair of keys, and neither key undoes the order of the other (`sortByKey_eq_iff`).
-/

namespace Interaction

/-! ### Merging -/

section Merge

variable {α : Type} [DecidableEq α] {x y : α} {l m : List α}

/-- Append `x` unless the list has it. -/
def pushNew (l : List α) (x : α) : List α := if x ∈ l then l else l ++ [x]

theorem mem_pushNew : y ∈ pushNew l x ↔ y ∈ l ∨ y = x := by
  unfold pushNew
  split
  · rename_i hx
    exact ⟨.inl, fun h => h.elim id fun heq => heq ▸ hx⟩
  · simp

theorem nodup_pushNew (h : l.Nodup) : (pushNew l x).Nodup := by
  unfold pushNew
  split
  · exact h
  · rename_i hx
    exact List.nodup_append.2 ⟨h, List.nodup_singleton x, fun a ha b hb hab => hx (by simp_all)⟩

theorem nodup_foldl_pushNew (h : l.Nodup) : (m.foldl pushNew l).Nodup := by
  induction m generalizing l with
  | nil => exact h
  | cons x m ih => exact ih (nodup_pushNew h)

/-- Merging appends the new entries, each once. -/
theorem foldl_pushNew (m l : List α) : m.foldl pushNew l = l ++ (m.filter (· ∉ l)).eraseDups := by
  induction m generalizing l with
  | nil => simp
  | cons x m ih =>
    rw [List.foldl_cons, ih]
    by_cases hx : x ∈ l
    · rw [pushNew, if_pos hx, List.filter_cons_of_neg (by simpa using hx)]
    · have hrest : m.filter (· ∉ l ++ [x]) = (m.filter (· ∉ l)).filter fun y => !y == x := by
        rw [List.filter_filter]
        refine List.filter_congr fun y _ => ?_
        by_cases hy : y = x <;> simp [hy]
      rw [pushNew, if_neg hx, List.filter_cons_of_pos (by simpa using hx), List.eraseDups_cons, hrest,
        List.append_assoc, List.singleton_append]

theorem mem_foldl_pushNew : y ∈ m.foldl pushNew l ↔ y ∈ l ∨ y ∈ m := by
  rw [foldl_pushNew, List.mem_append, List.mem_eraseDups, List.mem_filter]
  by_cases hy : y ∈ l <;> simp [hy]

/-- Entries that are known change nothing. -/
theorem foldl_pushNew_of_subset (h : ∀ y ∈ m, y ∈ l) : m.foldl pushNew l = l := by
  rw [foldl_pushNew, List.filter_eq_nil_iff.2 fun y hy => by simpa using h y hy, List.eraseDups_nil, List.append_nil]

end Merge

/-! ### Sorting -/

variable {α κ ι : Type} [LinearOrder κ] [LinearOrder ι] {key : α → κ} {key' : α → ι} {l l' : List α}

def sortByKey (key : α → κ) (l : List α) : List α := l.insertionSort fun a b => key a ≤ key b

@[simp] theorem mem_sortByKey {a : α} : a ∈ sortByKey key l ↔ a ∈ l := List.mem_insertionSort _

theorem nodup_sortByKey (h : l.Nodup) : (sortByKey key l).Nodup := (List.perm_insertionSort _ l).nodup_iff.2 h

theorem pairwise_sortByKey : (sortByKey key l).Pairwise fun a b => key a ≤ key b := by
  have htotal : Std.Total fun a b : α => key a ≤ key b := ⟨fun a b => le_total (key a) (key b)⟩
  have htrans : IsTrans α fun a b => key a ≤ key b := ⟨fun _ _ _ => le_trans⟩
  exact List.pairwise_insertionSort _ _

private theorem filter_insert {a : α} {p : α → Bool} (hp : ∀ b, p a = true → p b = true → key a ≤ key b) :
    (l.orderedInsert (fun x y => key x ≤ key y) a).filter p = (a :: l).filter p := by
  induction l with
  | nil => rfl
  | cons b l ih =>
    by_cases hab : key a ≤ key b
    · rw [List.orderedInsert_cons, if_pos hab]
    · rw [List.orderedInsert_cons, if_neg hab]
      by_cases ha : p a = true
      · -- the entry that is passed over has a smaller key, so the filter does not keep both
        have hb : ¬ p b = true := fun hb => hab (hp b ha hb)
        rw [List.filter_cons_of_neg hb, ih, List.filter_cons_of_pos ha, List.filter_cons_of_pos ha,
          List.filter_cons_of_neg hb]
      · rw [List.filter_cons_of_neg ha, List.filter_cons, List.filter_cons, ih, List.filter_cons_of_neg ha]

/-- The sort keeps the order among entries of one key. -/
theorem filter_sortByKey (i : κ) : (sortByKey key l).filter (key · = i) = l.filter (key · = i) := by
  induction l with
  | nil => rfl
  | cons a l ih =>
    have hsame : ∀ b, decide (key a = i) = true → decide (key b = i) = true → key a ≤ key b := by
      intro b ha hb
      rw [of_decide_eq_true ha, of_decide_eq_true hb]
    have hinsert := filter_insert (l := sortByKey key l) (p := fun x => decide (key x = i)) hsame
    rw [List.filter_cons, ih] at hinsert
    rw [List.filter_cons]
    exact hinsert

/-- A sorted list is determined by the entries of each key. -/
theorem eq_of_sorted (h : l.Pairwise fun a b => key a ≤ key b) (h' : l'.Pairwise fun a b => key a ≤ key b)
    (hkeys : ∀ i, l.filter (key · = i) = l'.filter (key · = i)) : l = l' := by
  have hmem : ∀ a, a ∈ l ↔ a ∈ l' := by
    intro a
    have hiff : a ∈ l.filter (key · = key a) ↔ a ∈ l'.filter (key · = key a) := by rw [hkeys]
    simpa using hiff
  induction l generalizing l' with
  | nil =>
    cases l' with
    | nil => rfl
    | cons b l' => exact absurd ((hmem b).2 (by simp)) (by simp)
  | cons a l ih =>
    cases l' with
    | nil => exact absurd ((hmem a).1 (by simp)) (by simp)
    | cons b l' =>
      obtain ⟨ha, hl⟩ := List.pairwise_cons.1 h
      obtain ⟨hb, hl'⟩ := List.pairwise_cons.1 h'
      have hfront : key a = key b := by
        apply le_antisymm
        · rcases List.mem_cons.1 ((hmem b).2 (by simp)) with heq | hb
          · rw [heq]
          · exact ha b hb
        · rcases List.mem_cons.1 ((hmem a).1 (by simp)) with heq | ha
          · rw [heq]
          · exact hb a ha
      -- both fronts are the first entry of their key
      have hab : a = b := by
        have hk := hkeys (key a)
        rw [List.filter_cons_of_pos (by simp), List.filter_cons_of_pos (by simp [hfront])] at hk
        exact (List.cons.inj hk).1
      subst hab
      have htail : ∀ i, l.filter (key · = i) = l'.filter (key · = i) := by
        intro i
        have hk := hkeys i
        by_cases hi : key a = i
        · rw [List.filter_cons_of_pos (by simp [hi]), List.filter_cons_of_pos (by simp [hi])] at hk
          exact (List.cons.inj hk).2
        · rw [List.filter_cons_of_neg (by simp [hi]), List.filter_cons_of_neg (by simp [hi])] at hk
          exact hk
      have hmemTail : ∀ x, x ∈ l ↔ x ∈ l' := by
        intro x
        have hiff : x ∈ l.filter (key · = key x) ↔ x ∈ l'.filter (key · = key x) := by rw [htail]
        simpa using hiff
      rw [ih hl hl' htail hmemTail]

/-- A relation on the entries of equal key is a relation on the list filtered by each key. -/
private theorem pairwise_filter_iff {R : α → α → Prop} :
    (∀ i, (l.filter (key · = i)).Pairwise R) ↔ l.Pairwise fun a b => key a = key b → R a b := by
  constructor
  · intro h
    induction l with
    | nil => exact List.Pairwise.nil
    | cons a l ih =>
      refine List.pairwise_cons.2 ⟨fun b hb hab => ?_, ih fun i => ?_⟩
      · have ha := h (key a)
        rw [List.filter_cons_of_pos (by simp)] at ha
        exact (List.pairwise_cons.1 ha).1 b (List.mem_filter.2 ⟨hb, by simp [hab]⟩)
      · refine (h i).sublist ?_
        exact (List.sublist_cons_self a l).filter _
  · intro h i
    rw [List.pairwise_filter]
    refine h.imp fun {a b} hab ha hb => ?_
    exact hab ((of_decide_eq_true ha).trans (of_decide_eq_true hb).symm)

private theorem filter_filter_comm (i : κ) (j : ι) (l : List α) :
    (l.filter (key' · = j)).filter (key · = i) = (l.filter (key · = i)).filter (key' · = j) := by
  rw [List.filter_filter, List.filter_filter]
  simp only [Bool.and_comm]

/-- When sorting two lists by two keys gives the same list. -/
theorem sortByKey_eq_iff : sortByKey key l = sortByKey key' l' ↔
    (∀ i j, (l.filter (key · = i)).filter (key' · = j) = (l'.filter (key · = i)).filter (key' · = j)) ∧
      (∀ a ∈ l, ∀ b ∈ l, key a < key b → key' a ≤ key' b) ∧
      (l.Pairwise fun a b => key a = key b → key' a ≤ key' b) ∧
      l'.Pairwise fun a b => key' a = key' b → key a ≤ key b := by
  constructor
  · intro h
    -- the common list is sorted by both keys
    have hsorted : (sortByKey key l).Pairwise fun a b => key a ≤ key b := pairwise_sortByKey
    have hsorted' : (sortByKey key l).Pairwise fun a b => key' a ≤ key' b := by
      rw [h]
      exact pairwise_sortByKey
    have hfilter' (j : ι) : (sortByKey key l).filter (key' · = j) = l'.filter (key' · = j) := by
      rw [h]
      exact filter_sortByKey j
    refine ⟨fun i j => ?_, fun a ha b hb hab => ?_, ?_, ?_⟩
    · rw [← filter_sortByKey i, ← filter_filter_comm, hfilter', filter_filter_comm]
    · have hsymm : Std.Symm fun a b : α => (key a < key b → key' a ≤ key' b) ∧ (key b < key a → key' b ≤ key' a) :=
        ⟨fun _ _ hxy => ⟨hxy.2, hxy.1⟩⟩
      have hboth := List.Pairwise.forall_of_forall (l := sortByKey key l)
        (R := fun a b => (key a < key b → key' a ≤ key' b) ∧ (key b < key a → key' b ≤ key' a))
        (fun x _ => ⟨fun hlt => absurd hlt (lt_irrefl _), fun hlt => absurd hlt (lt_irrefl _)⟩)
        ((hsorted.and hsorted').imp fun hle => ⟨fun _ => hle.2, fun hlt => absurd hlt (not_lt.2 hle.1)⟩)
      exact (hboth (mem_sortByKey.2 ha) (mem_sortByKey.2 hb)).1 hab
    · refine pairwise_filter_iff.1 fun i => ?_
      rw [← filter_sortByKey i]
      exact hsorted'.sublist (List.filter_sublist ..)
    · refine pairwise_filter_iff.1 fun j => ?_
      rw [← hfilter' j]
      exact hsorted.sublist (List.filter_sublist ..)
  · rintro ⟨hkeys, hacross, hwithin, hback⟩
    -- the entries of a second key stand in the order of the second list
    have hclass (j : ι) : (sortByKey key l).filter (key' · = j) = l'.filter (key' · = j) := by
      have hsorted : ((sortByKey key l).filter (key' · = j)).Pairwise fun a b => key a ≤ key b :=
        pairwise_sortByKey.sublist (List.filter_sublist ..)
      refine eq_of_sorted hsorted (pairwise_filter_iff.2 hback j) fun i => ?_
      rw [filter_filter_comm, filter_sortByKey, hkeys, filter_filter_comm]
    -- the first list is sorted by the second key as well
    have hsorted' : (sortByKey key l).Pairwise fun a b => key' a ≤ key' b := by
      have heq : (sortByKey key l).Pairwise fun a b => key a = key b → key' a ≤ key' b := by
        refine pairwise_filter_iff.1 fun i => ?_
        rw [filter_sortByKey]
        exact pairwise_filter_iff.2 hwithin i
      have hall : (sortByKey key l).Pairwise fun a b => key a ≤ key b ∧ (key a = key b → key' a ≤ key' b) :=
        pairwise_sortByKey.and heq
      refine hall.imp_of_mem fun {a b} ha hb hab => ?_
      rcases hab.1.lt_or_eq with hlt | hsame
      · exact hacross a (mem_sortByKey.1 ha) b (mem_sortByKey.1 hb) hlt
      · exact hab.2 hsame
    refine eq_of_sorted hsorted' pairwise_sortByKey fun j => ?_
    rw [hclass, filter_sortByKey]

end Interaction
