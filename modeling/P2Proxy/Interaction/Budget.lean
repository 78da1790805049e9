import P2Proxy.Interaction.Obeys
import P2Proxy.Interaction.Run

/-!
# Amortised budgets

Every exchange of a trace has a price, and the state has a potential.  `Spends w pot n m` says that a run of `m` that
returns `a` costs at most `n a` and what it takes from the potential.  The potential cancels along a run, so the budgets
of a program add up (`Spends.bind`, `Spends.attempts`, …), and over many runs each unit of potential is spent once.
-/

namespace Interaction

variable {Q : Type} {A : Q → Type} {σ τ α β ι : Type}

/-- What a trace costs. -/
def cost (w : Exchange Q A → Nat) (tr : Trace Q A) : Nat := (tr.map w).sum

@[simp] theorem cost_nil {w : Exchange Q A → Nat} : cost w [] = 0 := rfl

@[simp] theorem cost_append {w : Exchange Q A → Nat} (t₁ t₂ : Trace Q A) :
    cost w (t₁ ++ t₂) = cost w t₁ + cost w t₂ := by
  simp [cost]

@[simp] theorem cost_cons {w : Exchange Q A → Nat} (e : Exchange Q A) (tr : Trace Q A) :
    cost w (e :: tr) = w e + cost w tr := by
  simp [cost]

/-- A run that returns `a` costs at most `n a` and what it takes from the potential of the state. -/
def Spends (w : Exchange Q A → Nat) (pot : σ → Nat) (n : α → Nat) (m : Proc Q A σ α) : Prop :=
  ∀ s tr a s', Runs m s tr a s' → cost w tr + pot s' ≤ pot s + n a

/-- The budget of a search: `k`, and `e` on top of it if it succeeds. -/
def onSuccess (k e : Nat) : Option β → Nat
  | none => k
  | some _ => k + e

namespace Spends

variable {w : Exchange Q A → Nat} {pot : σ → Nat} {n : α → Nat} {m : Proc Q A σ α}

theorem mono {n' : α → Nat} (h : Spends w pot n m) (hn : ∀ a, n a ≤ n' a) : Spends w pot n' m := by
  intro s tr a s' hr
  have hcost := h s tr a s' hr
  have hle := hn a
  omega

theorem weaken {k l : Nat} (h : Spends w pot (fun _ => k) m) (hl : k ≤ l) : Spends w pot (fun _ => l) m :=
  h.mono fun _ => hl

theorem pure (a : α) : Spends w pot (fun _ => 0) (Pure.pure a : Proc Q A σ α) := by
  intro s tr b s' h
  obtain ⟨rfl, -, rfl⟩ := runs_pure.1 h
  simp

/-- The budgets of the two parts add up. -/
theorem bind {k : β → Nat} {f : α → Proc Q A σ β} (hm : Spends w pot n m)
    (hf : ∀ a, ∃ j : β → Nat, Spends w pot j (f a) ∧ ∀ b, n a + j b ≤ k b) : Spends w pot k (m >>= f) := by
  intro s tr b s' h
  obtain ⟨t₁, a, s₁, t₂, rfl, h₁, h₂⟩ := runs_bind.1 h
  obtain ⟨j, hj, hle⟩ := hf a
  have hfirst := hm _ _ _ _ h₁
  have hsecond := hj _ _ _ _ h₂
  have hsum := hle b
  rw [cost_append]
  omega

/-- The second part is paid for by one budget, whatever the first returned. -/
theorem bind_const {k l : Nat} {f : α → Proc Q A σ β} (hm : Spends w pot (fun _ => k) m)
    (hf : ∀ a, Spends w pot (fun _ => l) (f a)) : Spends w pot (fun _ => k + l) (m >>= f) :=
  hm.bind fun a => ⟨fun _ => l, hf a, fun _ => le_rfl⟩

/-- A program that cannot fail is paid for by the extra of a success. -/
theorem found {k : Nat} {f : α → β} (hm : Spends w pot (fun _ => k) m) :
    Spends w pot (onSuccess 0 k) (m >>= fun a => Pure.pure (some (f a))) := by
  intro s tr b s' h
  obtain ⟨t₁, a, s₁, t₂, rfl, h₁, h₂⟩ := runs_bind.1 h
  obtain ⟨rfl, rfl, rfl⟩ := runs_pure.1 h₂
  simpa [onSuccess] using hm _ _ _ _ h₁

theorem ask {q : Q} {k : Nat} (hq : ∀ x, w ⟨q, x⟩ ≤ k) :
    Spends w pot (fun _ => k) (Interaction.ask q : Proc Q A σ (A q)) := by
  intro s tr x s' h
  obtain ⟨rfl, rfl⟩ := runs_ask.1 h
  have hprice := hq x
  simp only [cost_cons, cost_nil]
  omega

theorem get : Spends w pot (fun _ => 0) (MonadState.get : Proc Q A σ σ) := by
  intro s tr a s' h
  obtain ⟨rfl, -, rfl⟩ := runs_get.1 h
  simp

/-- An update is paid for by what it adds to the potential. -/
theorem update {f : σ → σ} {k : Nat} (hf : ∀ s, pot (f s) ≤ pot s + k) :
    Spends w pot (fun _ => k) (modify f : Proc Q A σ PUnit) := by
  intro s tr u s' h
  obtain ⟨rfl, rfl⟩ := runs_modify.1 h
  simpa using hf s

/-- Every attempt is paid for, and the one that succeeds gets its extra. -/
theorem attempts {m : Proc Q A σ (Option β)} {k e : Nat} (hm : Spends w pot (onSuccess k e) m) (i : Nat) :
    Spends w pot (onSuccess (i * k) e) (Interaction.attempts m i) := by
  induction i with
  | zero =>
    intro s tr b s' h
    obtain ⟨rfl, rfl, rfl⟩ := runs_attempts_zero.1 h
    simp [onSuccess]
  | succ i ih =>
    intro s tr b s' h
    have hmul : (i + 1) * k = i * k + k := Nat.succ_mul i k
    rcases runs_attempts_succ.1 h with ⟨c, rfl, hc⟩ | ⟨t₁, s₁, t₂, rfl, h₁, h₂⟩
    · have hcost := hm _ _ _ _ hc
      simp only [onSuccess] at hcost ⊢
      omega
    · have hfirst := hm _ _ _ _ h₁
      have hrest := ih _ _ _ _ h₂
      rw [cost_append]
      cases b <;> simp only [onSuccess] at hfirst hrest ⊢ <;> omega

/-- Every item that is looked at is paid for, and the one that is found gets its extra. -/
theorem findSomeM? {f : ι → Proc Q A σ (Option β)} {k : ι → Nat} {e : Nat} (is : List ι)
    (hf : ∀ i ∈ is, Spends w pot (onSuccess (k i) e) (f i)) :
    Spends w pot (onSuccess (is.map k).sum e) (List.findSomeM? f is) := by
  induction is with
  | nil =>
    intro s tr b s' h
    obtain ⟨rfl, rfl, rfl⟩ := runs_findSomeM?_nil.1 h
    simp [onSuccess]
  | cons i is ih =>
    intro s tr b s' h
    rw [List.map_cons, List.sum_cons]
    rcases runs_findSomeM?_cons.1 h with ⟨c, rfl, hc⟩ | ⟨t₁, s₁, t₂, rfl, h₁, h₂⟩
    · have hcost := hf i (List.mem_cons_self ..) _ _ _ _ hc
      simp only [onSuccess] at hcost ⊢
      omega
    · have hfirst := hf i (List.mem_cons_self ..) _ _ _ _ h₁
      have hrest := ih (fun j hj => hf j (List.mem_cons_of_mem _ hj)) _ _ _ _ h₂
      rw [cost_append]
      cases b <;> simp only [onSuccess] at hfirst hrest ⊢ <;> omega

theorem forM {f : ι → Proc Q A σ PUnit} {k : ι → Nat} (is : List ι) (hf : ∀ i ∈ is, Spends w pot (fun _ => k i) (f i)) :
    Spends w pot (fun _ => (is.map k).sum) (List.forM is f) := by
  induction is with
  | nil =>
    intro s tr u s' h
    obtain ⟨rfl, rfl⟩ := runs_forM_nil.1 h
    simp
  | cons i is ih =>
    intro s tr u s' h
    obtain ⟨t₁, s₁, t₂, rfl, h₁, h₂⟩ := runs_forM_cons.1 h
    have hfirst : cost w t₁ + pot s₁ ≤ pot s + k i := hf i (List.mem_cons_self ..) _ _ _ _ h₁
    have hrest : cost w t₂ + pot s' ≤ pot s₁ + (is.map k).sum :=
      ih (fun j hj => hf j (List.mem_cons_of_mem _ hj)) _ _ _ _ h₂
    show cost w (t₁ ++ t₂) + pot s' ≤ pot s + ((i :: is).map k).sum
    rw [cost_append, List.map_cons, List.sum_cons]
    omega

theorem discard (hm : Spends w pot n m) {k : Nat} (hn : ∀ a, n a ≤ k) :
    Spends w pot (fun _ => k) (do let _ ← m : Proc Q A σ PUnit) := by
  intro s tr u s' h
  obtain ⟨a, ha⟩ := runs_discard.1 h
  exact (hm _ _ _ _ ha).trans (Nat.add_le_add_left (hn a) _)

/-- A loop over distinct items, of which only those of `A` cost something, costs at most what all of `A` cost. -/
theorem forM_le {f : ι → Proc Q A σ PUnit} {k : ι → Nat} {is : List ι} {B : Finset ι} (hn : is.Nodup)
    (hB : ∀ i ∉ B, k i = 0) (hf : ∀ i ∈ is, Spends w pot (fun _ => k i) (f i)) :
    Spends w pot (fun _ => ∑ i ∈ B, k i) (List.forM is f) := by
  classical
  refine (forM is hf).weaken ?_
  rw [← List.sum_toFinset k hn]
  refine Finset.sum_le_sum_of_ne_zero fun i _ hi => ?_
  by_contra hout
  exact hi (hB i hout)

end Spends

/-- Along a run of a system whose steps each spend at most their budget, the budgets add up and the potential
cancels. -/
theorem Reaches.spends {L : Type} {step : σ → L → σ → Prop} {s s' : σ} {ls : List L} (h : Reaches step s ls s')
    (price budget : L → Nat) (pot : σ → Nat)
    (hstep : ∀ s l s', step s l s' → price l + pot s' ≤ pot s + budget l) :
    (ls.map price).sum + pot s' ≤ pot s + (ls.map budget).sum := by
  induction h with
  | nil s => simp
  | cons h₁ _ ih =>
    have hfirst := hstep _ _ _ h₁
    simp only [List.map_cons, List.sum_cons]
    omega

end Interaction
