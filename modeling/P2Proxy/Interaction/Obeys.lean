import P2Proxy.Interaction.Prog

/-!
# Relations that every run obeys

A relation `R s tr s'` between the state before a run, its trace and the state after it is a `Law` when it holds of
the empty run and survives sequencing.  Invariants, frame conditions ("this part of the state is unchanged"),
restrictions on the questions asked and conditional versions of all three ("unless some answer names `p`") are laws.
A program obeys a law as soon as its atomic steps do (`Obeys.bind`, `Obeys.attempts`, `Obeys.findSomeM?`, …).
-/

namespace Interaction

variable {Q : Type} {A : Q → Type} {σ τ α β ι : Type}

/-- A relation between first state, trace and last state that composes along runs. -/
structure Law (R : σ → Trace Q A → σ → Prop) : Prop where
  refl : ∀ s, R s [] s
  trans : ∀ {s t₁ s₁ t₂ s'}, R s t₁ s₁ → R s₁ t₂ s' → R s (t₁ ++ t₂) s'

/-- Every run of `m` satisfies `R`. -/
def Obeys (R : σ → Trace Q A → σ → Prop) (m : Proc Q A σ α) : Prop :=
  ∀ s tr a s', Runs m s tr a s' → R s tr s'

/-- Asking alone obeys a law that every single exchange obeys. -/
theorem Law.of_calls {R : σ → Trace Q A → σ → Prop} (hR : Law R) (hcall : ∀ s e, R s [e] s) (s : σ)
    (tr : Trace Q A) : R s tr s := by
  induction tr with
  | nil => exact hR.refl s
  | cons e tr ih => exact hR.trans (hcall s e) ih

/-- An invariant of the state is a law. -/
theorem Law.of_invariant (I : σ → Prop) : Law (fun s (_ : Trace Q A) s' => I s → I s') :=
  ⟨fun _ h => h, fun h₁ h₂ h => h₂ (h₁ h)⟩

/-- What part of the state a program leaves alone is a law. -/
theorem Law.of_frame (f : σ → α) : Law (fun s (_ : Trace Q A) s' => f s' = f s) :=
  ⟨fun _ => rfl, fun h₁ h₂ => h₂.trans h₁⟩

namespace Obeys

variable {R : σ → Trace Q A → σ → Prop}

theorem pure (hR : Law R) (a : α) : Obeys R (Pure.pure a : Proc Q A σ α) := by
  intro s tr b s' h
  obtain ⟨rfl, -, rfl⟩ := runs_pure.1 h
  exact hR.refl _

theorem bind (hR : Law R) {m : Proc Q A σ α} {f : α → Proc Q A σ β} (hm : Obeys R m)
    (hf : ∀ a, Obeys R (f a)) : Obeys R (m >>= f) := by
  intro s tr b s' h
  obtain ⟨t₁, a, s₁, t₂, rfl, h₁, h₂⟩ := runs_bind.1 h
  exact hR.trans (hm _ _ _ _ h₁) (hf a _ _ _ _ h₂)

theorem ask {q : Q} (hq : ∀ s x, R s [⟨q, x⟩] s) : Obeys R (Interaction.ask q : Proc Q A σ (A q)) := by
  intro s tr x s' h
  obtain ⟨rfl, rfl⟩ := runs_ask.1 h
  exact hq _ x

theorem get (hR : Law R) : Obeys R (MonadState.get : Proc Q A σ σ) := by
  intro s tr a s' h
  obtain ⟨rfl, -, rfl⟩ := runs_get.1 h
  exact hR.refl _

theorem update {f : σ → σ} (hf : ∀ s, R s [] (f s)) : Obeys R (modify f : Proc Q A σ PUnit) := by
  intro s tr u s' h
  obtain ⟨rfl, rfl⟩ := runs_modify.1 h
  exact hf _

theorem updateGet {f : σ → α × σ} (hf : ∀ s, R s [] (f s).2) :
    Obeys R (modifyGet f : Proc Q A σ α) := by
  intro s tr a s' h
  obtain ⟨rfl, -, rfl⟩ := runs_modifyGet.1 h
  exact hf _

theorem attempts (hR : Law R) {m : Proc Q A σ (Option β)} (hm : Obeys R m) (n : Nat) :
    Obeys R (Interaction.attempts m n) := by
  induction n with
  | zero => exact pure hR none
  | succ n ih =>
    intro s tr b s' h
    rcases runs_attempts_succ.1 h with ⟨c, -, h⟩ | ⟨t₁, s₁, t₂, rfl, h₁, h₂⟩
    · exact hm _ _ _ _ h
    · exact hR.trans (hm _ _ _ _ h₁) (ih _ _ _ _ h₂)

theorem findSomeM? (hR : Law R) {f : ι → Proc Q A σ (Option β)} (is : List ι)
    (hf : ∀ i ∈ is, Obeys R (f i)) : Obeys R (List.findSomeM? f is) := by
  induction is with
  | nil => exact pure hR none
  | cons i is ih =>
    intro s tr b s' h
    rcases runs_findSomeM?_cons.1 h with ⟨c, -, h⟩ | ⟨t₁, s₁, t₂, rfl, h₁, h₂⟩
    · exact hf i (List.mem_cons_self ..) _ _ _ _ h
    · exact hR.trans (hf i (List.mem_cons_self ..) _ _ _ _ h₁)
        (ih (fun j hj => hf j (List.mem_cons_of_mem _ hj)) _ _ _ _ h₂)

theorem forM (hR : Law R) {f : ι → Proc Q A σ PUnit} (is : List ι) (hf : ∀ i ∈ is, Obeys R (f i)) :
    Obeys R (List.forM is f) := by
  induction is with
  | nil =>
    intro s tr u s' h
    obtain ⟨rfl, rfl⟩ := runs_forM_nil.1 h
    exact hR.refl _
  | cons i is ih =>
    intro s tr u s' h
    obtain ⟨t₁, s₁, t₂, rfl, h₁, h₂⟩ := runs_forM_cons.1 h
    exact hR.trans (hf i (List.mem_cons_self ..) _ _ _ _ h₁)
      (ih (fun j hj => hf j (List.mem_cons_of_mem _ hj)) _ _ _ _ h₂)

theorem discard {m : Proc Q A σ α} (hm : Obeys R m) : Obeys R (do let _ ← m : Proc Q A σ PUnit) := by
  intro s tr u s' h
  obtain ⟨a, ha⟩ := runs_discard.1 h
  exact hm _ _ _ _ ha

theorem zoom {R : τ → Trace Q A → τ → Prop} {get : τ → σ} {set : σ → τ → τ} {m : Proc Q A σ α}
    (hm : ∀ t tr a s', Runs m (get t) tr a s' → R t tr (set s' t)) :
    Obeys R (Interaction.zoom get set m) := by
  intro t tr a t' h
  obtain ⟨s', h', rfl⟩ := runs_zoom.1 h
  exact hm _ _ _ _ h'

end Obeys

/-! ### Loops over distinct items -/

section Loop

variable {s s' : σ} {tr : Trace Q A} {u : PUnit} {f : ι → Proc Q A σ PUnit} {i : ι} {is : List ι}
  {I : σ → σ → Prop}

/-- A loop whose turns leave alone what `I` compares leaves it alone. -/
theorem runs_forM_same (hrefl : ∀ s, I s s) (htrans : ∀ {s₁ s₂ s₃}, I s₁ s₂ → I s₂ s₃ → I s₁ s₃)
    (hf : ∀ j ∈ is, ∀ s tr s', Runs (f j) s tr () s' → I s s') (h : Runs (List.forM is f) s tr u s') :
    I s s' :=
  Obeys.forM (R := fun s _ s' => I s s') ⟨hrefl, htrans⟩ is (fun j hj _ _ _ _ hr => hf j hj _ _ _ hr) _ _ _ _ h

/-- A loop over distinct items of which every turn but that of `i` obeys `R`: it obeys `R`, or `i` has one turn in it
and `R` is obeyed before and after this turn. -/
theorem runs_forM_at {R : σ → Trace Q A → σ → Prop} (hR : Law R) (hothers : ∀ j ∈ is, j ≠ i → Obeys R (f j))
    (hnodup : is.Nodup) (h : Runs (List.forM is f) s tr u s') :
    (i ∉ is ∧ R s tr s') ∨ ∃ t₁ s₁ t s₂ t₂,
      i ∈ is ∧ tr = t₁ ++ (t ++ t₂) ∧ R s t₁ s₁ ∧ Runs (f i) s₁ t () s₂ ∧ R s₂ t₂ s' := by
  by_cases hi : i ∈ is
  · obtain ⟨l₁, l₂, rfl⟩ := List.append_of_mem hi
    obtain ⟨t₁, s₁, t₂, rfl, h₁, h₂⟩ := runs_forM_append.1 h
    obtain ⟨t, s₂, t₃, rfl, hown, h₃⟩ := runs_forM_cons.1 h₂
    obtain ⟨-, htail, hapart⟩ := List.nodup_append.1 hnodup
    have hbefore : ∀ j ∈ l₁, j ≠ i := fun j hj => hapart j hj i (List.mem_cons_self ..)
    have hafter : ∀ j ∈ l₂, j ≠ i := fun j hj hji => (List.nodup_cons.1 htail).1 (hji ▸ hj)
    refine .inr ⟨t₁, s₁, t, s₂, t₃, hi, rfl, ?_, hown, ?_⟩
    · exact Obeys.forM hR _ (fun j hj => hothers j (by simp [hj]) (hbefore j hj)) _ _ _ _ h₁
    · exact Obeys.forM hR _ (fun j hj => hothers j (by simp [hj]) (hafter j hj)) _ _ _ _ h₃
  · exact .inl ⟨hi, Obeys.forM hR _ (fun j hj => hothers j hj fun hji => hi (hji ▸ hj)) _ _ _ _ h⟩

/-- In a loop over distinct items each of which only its own turn touches (`I i` compares what belongs to `i`), every
exchange belongs to the turn of some item, and later turns leave alone what it did. -/
theorem runs_forM_of_mem_trace {I : ι → σ → σ → Prop} {e : Exchange Q A} (hrefl : ∀ i s, I i s s)
    (htrans : ∀ i {s₁ s₂ s₃}, I i s₁ s₂ → I i s₂ s₃ → I i s₁ s₃)
    (hf : ∀ i j, j ≠ i → ∀ s tr s', Runs (f j) s tr () s' → I i s s') (hnodup : is.Nodup)
    (h : Runs (List.forM is f) s tr u s') (he : e ∈ tr) :
    ∃ i ∈ is, ∃ s₁ t s₂, e ∈ t ∧ I i s s₁ ∧ Runs (f i) s₁ t () s₂ ∧ I i s₂ s' := by
  induction is generalizing s tr with
  | nil =>
    obtain ⟨rfl, -⟩ := runs_forM_nil.1 h
    cases he
  | cons j is ih =>
    obtain ⟨t₁, s₁, t₂, rfl, h₁, h₂⟩ := runs_forM_cons.1 h
    obtain ⟨hj, hnodup⟩ := List.nodup_cons.1 hnodup
    rcases List.mem_append.1 he with he | he
    · refine ⟨j, List.mem_cons_self .., s, t₁, s₁, he, hrefl j s, h₁, ?_⟩
      exact runs_forM_same (hrefl j) (htrans j) (fun k hk => hf j k fun he => hj (he ▸ hk)) h₂
    · obtain ⟨i, hi, s₂, t, s₃, het, hs, hr, hs'⟩ := ih hnodup h₂ he
      have hji : j ≠ i := fun he => hj (he ▸ hi)
      exact ⟨i, List.mem_cons_of_mem _ hi, s₂, t, s₃, het, htrans i (hf i j hji _ _ _ h₁) hs, hr, hs'⟩

end Loop

/-! ### The result of a search -/

/-- A relation between the trace and the result of a search that failures before the result do not disturb. -/
structure SearchLaw (P : Trace Q A → Option β → Prop) : Prop where
  nil : P [] none
  append : ∀ {t₁ t₂ r}, P t₁ none → P t₂ r → P (t₁ ++ t₂) r

namespace SearchLaw

variable {P : Trace Q A → Option β → Prop} {s s' : σ} {tr : Trace Q A} {r : Option β}

theorem attempts (hP : SearchLaw P) {m : Proc Q A σ (Option β)}
    (hm : ∀ s tr r s', Runs m s tr r s' → P tr r) {n : Nat} (h : Runs (Interaction.attempts m n) s tr r s') :
    P tr r := by
  induction n generalizing s tr with
  | zero => obtain ⟨rfl, rfl, -⟩ := runs_attempts_zero.1 h; exact hP.nil
  | succ n ih =>
    rcases runs_attempts_succ.1 h with ⟨c, rfl, hc⟩ | ⟨t₁, s₁, t₂, rfl, h₁, h₂⟩
    · exact hm _ _ _ _ hc
    · exact hP.append (hm _ _ _ _ h₁) (ih h₂)

theorem findSomeM? (hP : SearchLaw P) {f : ι → Proc Q A σ (Option β)} {is : List ι}
    (hf : ∀ i ∈ is, ∀ s tr r s', Runs (f i) s tr r s' → P tr r) (h : Runs (List.findSomeM? f is) s tr r s') :
    P tr r := by
  induction is generalizing s tr with
  | nil => obtain ⟨rfl, rfl, -⟩ := runs_findSomeM?_nil.1 h; exact hP.nil
  | cons i is ih =>
    rcases runs_findSomeM?_cons.1 h with ⟨c, rfl, hc⟩ | ⟨t₁, s₁, t₂, rfl, h₁, h₂⟩
    · exact hf i (List.mem_cons_self ..) _ _ _ _ hc
    · exact hP.append (hf i (List.mem_cons_self ..) _ _ _ _ h₁)
        (ih (fun j hj => hf j (List.mem_cons_of_mem _ hj)) h₂)

end SearchLaw

/-- The history of a bounded retry: failed attempts, each of which leaves the state alone, and then either the budget
is used up or an attempt succeeds. -/
theorem runs_attempts_history {m : Proc Q A σ (Option β)} {F : Trace Q A → Prop} {n : Nat} {s s' : σ}
    {tr : Trace Q A} {r : Option β} (hm : ∀ tr s', Runs m s tr none s' → s' = s ∧ F tr)
    (h : Runs (attempts m n) s tr r s') :
    ∃ (failed : List (Trace Q A)) (last : Trace Q A), tr = failed.flatten ++ last ∧ (∀ t ∈ failed, F t) ∧
      ((r = none ∧ failed.length = n ∧ last = [] ∧ s' = s) ∨
        ∃ b, r = some b ∧ failed.length < n ∧ Runs m s last (some b) s') := by
  induction n generalizing tr with
  | zero =>
    obtain ⟨rfl, rfl, rfl⟩ := runs_attempts_zero.1 h
    exact ⟨[], [], rfl, by simp, .inl ⟨rfl, rfl, rfl, rfl⟩⟩
  | succ n ih =>
    rcases runs_attempts_succ.1 h with ⟨b, rfl, hb⟩ | ⟨t₁, s₁, t₂, rfl, h₁, h₂⟩
    · exact ⟨[], tr, rfl, by simp, .inr ⟨b, rfl, by simp, hb⟩⟩
    · obtain ⟨rfl, hF⟩ := hm _ _ h₁
      obtain ⟨failed, last, rfl, hall, hend⟩ := ih h₂
      refine ⟨t₁ :: failed, last, by simp, by simpa using ⟨hF, hall⟩, ?_⟩
      rcases hend with ⟨hr, hl, hlast, hs⟩ | ⟨b, hr, hl, hb⟩
      · exact .inl ⟨hr, by simp [hl], hlast, hs⟩
      · exact .inr ⟨b, hr, by simpa using hl, hb⟩

end Interaction
