import P2Proxy.Interaction.Prog

/-!
# Programs that run beside others

A program that runs as one of many is stopped after every exchange.  `p.After tr r` says that `p` goes on as `r` once
it has said and heard `tr`.  As an answer can always be given, such a beginning is the beginning of a whole run
(`After.extends`), so what all whole runs say of the exchanges before a call is true of a run that is still going on.
-/

namespace Interaction

namespace Prog

variable {Q : Type} {A : Q → Type} {α : Type} {p r : Prog Q A α} {tr rest : Trace Q A}

/-- Having said and heard `tr`, the program `p` goes on as `r`. -/
inductive After (p : Prog Q A α) : Trace Q A → Prog Q A α → Prop
  | start : After p [] p
  | answered {tr : Trace Q A} {q : Q} {k : A q → Prog Q A α} (x : A q) :
      After p tr (.ask q k) → After p (tr ++ [⟨q, x⟩]) (k x)

theorem After.runs {a : α} (h : p.After tr r) (hr : r.Runs rest a) : p.Runs (tr ++ rest) a := by
  induction h generalizing rest with
  | start => exact hr
  | answered x _ ih =>
    rw [List.append_assoc]
    exact ih ⟨x, rest, rfl, hr⟩

/-- Every program can be answered to its end. -/
theorem exists_runs (hA : ∀ q, Nonempty (A q)) (p : Prog Q A α) : ∃ tr a, p.Runs tr a := by
  induction p with
  | pure a => exact ⟨[], a, rfl, rfl⟩
  | ask q k ih =>
    obtain ⟨x⟩ := hA q
    obtain ⟨tr, a, h⟩ := ih x
    exact ⟨⟨q, x⟩ :: tr, a, x, tr, rfl, h⟩

theorem After.extends (hA : ∀ q, Nonempty (A q)) (h : p.After tr r) : ∃ rest a, p.Runs (tr ++ rest) a := by
  obtain ⟨rest, a, hr⟩ := exists_runs hA r
  exact ⟨rest, a, h.runs hr⟩

/-- Whatever the next answer is, the run goes on to an end. -/
theorem After.next {q : Q} {k : A q → Prog Q A α} (hA : ∀ q, Nonempty (A q)) (h : p.After tr (.ask q k)) (x : A q) :
    ∃ rest a, p.Runs (tr ++ ⟨q, x⟩ :: rest) a := by
  obtain ⟨rest, a, hr⟩ := (h.answered x).extends hA
  rw [List.append_assoc] at hr
  exact ⟨rest, a, hr⟩

end Prog

end Interaction
