import Mathlib

/-!
# A mirror with two writers

An owner holds a value, or none, and announces every change.  A mirror shows what was announced last, except that values
may be revoked: the mirror then drops the revoked value by itself, and the owner learns of it later.  Whatever the order
of announcements and revocations, the mirror shows what the owner holds, or the owner has still to learn that its value
was revoked (`Agrees`).
-/

namespace Interaction

variable {V : Type}

inductive MirrorEvent (V : Type)
  | announce (value : Option V)
  | revoke (value : V)

def MirrorEvent.announced : MirrorEvent V → Option (Option V)
  | .announce value => some value
  | .revoke _ => none

/-- What is shown, what the owner holds, and the revocations of which the owner has still to learn. -/
structure Mirror (V : Type) where
  shown : Option V
  held : Option V
  revoked : Multiset V

namespace Mirror

/-- The mirror shows what the owner holds, or has dropped a value of whose revocation the owner has still to learn. -/
def Agrees (m : Mirror V) : Prop := m.shown = m.held ∨ m.shown = none ∧ ∃ v, m.held = some v ∧ v ∈ m.revoked

variable [DecidableEq V]

def after (m : Mirror V) : MirrorEvent V → Mirror V
  | .announce value => { m with shown := value, held := value }
  | .revoke value => { m with shown := m.shown.filter (· ≠ value), revoked := value ::ₘ m.revoked }

/-- The owner has learnt of a revocation. -/
def learn (m : Mirror V) (value : V) : Mirror V := { m with revoked := m.revoked.erase value }

def run (m : Mirror V) (es : List (MirrorEvent V)) : Mirror V := es.foldl after m

variable {m : Mirror V} {value : V} {o : Option V} {e : MirrorEvent V} {es : List (MirrorEvent V)}

@[simp] theorem run_nil : m.run [] = m := rfl

@[simp] theorem run_cons : m.run (e :: es) = (m.after e).run es := rfl

theorem run_append {es' : List (MirrorEvent V)} : m.run (es ++ es') = (m.run es).run es' := List.foldl_append

/-- The owner holds what was announced last. -/
theorem held_run (m : Mirror V) (es : List (MirrorEvent V)) :
    (m.run es).held = (es.filterMap MirrorEvent.announced).getLast?.getD m.held := by
  induction es generalizing m with
  | nil => rfl
  | cons e es ih =>
    rw [run_cons, ih]
    cases e with
    | announce value =>
      rw [List.filterMap_cons_some (show MirrorEvent.announced (.announce value) = some value from rfl),
        List.getLast?_cons]
      rfl
    | revoke value => rfl

theorem Agrees.after (h : m.Agrees) : (m.after e).Agrees := by
  cases e with
  | announce value => exact .inl rfl
  | revoke value =>
    rcases h with heq | ⟨hnone, v, hheld, hv⟩
    · cases hshown : m.shown with
      | none =>
        left
        have hheld : m.held = none := heq ▸ hshown
        simp [Mirror.after, hshown, hheld]
      | some v =>
        have hheld : m.held = some v := heq ▸ hshown
        by_cases hv : v = value
        · right
          subst hv
          exact ⟨by simp [Mirror.after, hshown], v, hheld, Multiset.mem_cons_self v m.revoked⟩
        · left
          simp [Mirror.after, hshown, hheld, hv]
    · right
      exact ⟨by simp [Mirror.after, hnone], v, hheld, Multiset.mem_cons_of_mem hv⟩

theorem Agrees.run (h : m.Agrees) : (m.run es).Agrees := by
  induction es generalizing m with
  | nil => exact h
  | cons e es ih => exact ih h.after

/-- After an announcement they agree, whatever was before. -/
theorem agrees_run_of_announce (h : .announce o ∈ es) : (m.run es).Agrees := by
  induction es generalizing m with
  | nil => cases h
  | cons e es ih =>
    rcases List.mem_cons.1 h with rfl | h
    · have hannounced : (m.after (.announce o)).Agrees := .inl rfl
      exact hannounced.run
    · exact ih h

/-- To learn of a revocation of something else than the value held changes nothing. -/
theorem Agrees.learn (h : m.Agrees) (hvalue : m.held ≠ some value) : (m.learn value).Agrees := by
  rcases h with heq | ⟨hnone, v, hheld, hv⟩
  · exact .inl heq
  · have hne : v ≠ value := fun he => hvalue (he ▸ hheld)
    exact .inr ⟨hnone, v, hheld, (Multiset.mem_erase_of_ne hne).2 hv⟩

omit [DecidableEq V] in
/-- When the owner has learnt of all revocations, the mirror shows what it holds. -/
theorem Agrees.shown_eq (h : m.Agrees) (hrevoked : m.revoked = 0) : m.shown = m.held := by
  rcases h with heq | ⟨-, v, -, hv⟩
  · exact heq
  · rw [hrevoked] at hv
    exact absurd hv (Multiset.notMem_zero v)

end Mirror

end Interaction
