import Mathlib

/-!
# Durations and the backoff schedule

A `Duration` is a number of nanoseconds up to `Duration.max`; multiplication saturates there.
-/

namespace P2Proxy

/-- `u64::MAX` seconds and `999_999_999` nanoseconds. -/
def maxNanos : Nat := (2 ^ 64 - 1) * 1000000000 + 999999999

structure Duration where
  nanos : Nat
  le_max : nanos ≤ maxNanos
deriving DecidableEq

namespace Duration

/-- The duration of `n` nanoseconds, or the longest one. -/
def ofNanos (n : Nat) : Duration := ⟨min n maxNanos, Nat.min_le_right ..⟩

def fromSecs (n : Nat) : Duration := ofNanos (n * 1000000000)

instance : LE Duration := ⟨fun a b => a.nanos ≤ b.nanos⟩

instance (a b : Duration) : Decidable (a ≤ b) := inferInstanceAs (Decidable (a.nanos ≤ b.nanos))

protected def min (a b : Duration) : Duration := if a ≤ b then a else b

def saturatingMul (a : Duration) (factor : Nat) : Duration := ofNanos (a.nanos * factor)

def sub (a b : Duration) : Duration := ⟨a.nanos - b.nanos, (Nat.sub_le ..).trans a.le_max⟩

end Duration

/-- Exponential delay schedule, capped. -/
structure Backoff where
  initial : Duration
  current : Duration
  factor : Nat
  max : Duration

namespace Backoff

def new (initial : Duration) (factor : Nat) (max : Duration) : Backoff :=
  { initial, current := initial, factor := Max.max factor 1, max }

/-- The delay to sleep for, and the schedule after it. -/
def nextDelay (b : Backoff) : Duration × Backoff :=
  (b.current.min b.max, { b with current := (b.current.saturatingMul b.factor).min b.max })

def reset (b : Backoff) : Backoff := { b with current := b.initial }

end Backoff

/-! ### The closed form -/

/-- A call on a schedule. -/
inductive BackoffCall
  | nextDelay
  | reset
deriving DecidableEq

namespace Backoff

def after (b : Backoff) : BackoffCall → Backoff
  | .nextDelay => b.nextDelay.2
  | .reset => b.reset

def run (b : Backoff) (calls : List BackoffCall) : Backoff := calls.foldl after b

/-- The number of delays that were taken since the last reset. -/
def taken (calls : List BackoffCall) : Nat := (calls.rtakeWhile (· = .nextDelay)).length

/-- The schedule `i` delays after it was reset: the cap hides whether the current delay was capped before. -/
structure IsAt (initial : Duration) (factor : Nat) (max : Duration) (i : Nat) (b : Backoff) : Prop where
  initial_eq : b.initial = initial
  factor_eq : b.factor = Max.max 1 factor
  max_eq : b.max = max
  capped_eq : min b.current.nanos max.nanos = min (initial.nanos * Max.max 1 factor ^ i) max.nanos

variable {initial max : Duration} {factor i : Nat} {b : Backoff} {calls more : List BackoffCall}

theorem taken_concat_nextDelay : taken (calls ++ [.nextDelay]) = taken calls + 1 := by
  simp [taken]

theorem taken_concat_reset : taken (calls ++ [.reset]) = 0 := by
  simp [taken]

/-- Without a reset the number of delays grows. -/
theorem taken_le_append (h : .reset ∉ more) : taken calls ≤ taken (calls ++ more) := by
  induction more using List.reverseRecOn with
  | nil => simp
  | append_singleton more call ih =>
    cases call with
    | nextDelay =>
      have hmore : taken calls ≤ taken (calls ++ more) := ih fun hmem => h (List.mem_append_left _ hmem)
      rw [← List.append_assoc, taken_concat_nextDelay]
      omega
    | reset => exact absurd (List.mem_append_right _ (List.mem_singleton_self _)) h

theorem min_nanos (a b : Duration) : (a.min b).nanos = min a.nanos b.nanos := by
  have hle : a ≤ b ↔ a.nanos ≤ b.nanos := Iff.rfl
  unfold Duration.min
  split
  · rw [Nat.min_eq_left (hle.1 ‹_›)]
  · have : ¬a.nanos ≤ b.nanos := fun h => ‹¬a ≤ b› (hle.2 h)
    omega

/-- Capping before a multiplication does not show after it. -/
private theorem min_mul_min {a f m : Nat} (hf : 1 ≤ f) : min (min a m * f) m = min (a * f) m := by
  have hm : m ≤ m * f := Nat.le_mul_of_pos_right m hf
  rcases Nat.le_total a m with h | h
  · rw [Nat.min_eq_left h]
  · have ha : m * f ≤ a * f := Nat.mul_le_mul_right f h
    rw [Nat.min_eq_right h]
    omega

theorem isAt_new : IsAt initial factor max 0 (new initial factor max) where
  initial_eq := rfl
  factor_eq := Nat.max_comm ..
  max_eq := rfl
  capped_eq := by rw [pow_zero, Nat.mul_one]; rfl

theorem IsAt.nextDelay_nanos (h : IsAt initial factor max i b) :
    b.nextDelay.1.nanos = min (initial.nanos * Max.max 1 factor ^ i) max.nanos := by
  have hdelay : b.nextDelay.1 = b.current.min b.max := rfl
  rw [hdelay, min_nanos, h.max_eq, h.capped_eq]

theorem IsAt.nextDelay (h : IsAt initial factor max i b) : IsAt initial factor max (i + 1) b.nextDelay.2 where
  initial_eq := h.initial_eq
  factor_eq := h.factor_eq
  max_eq := h.max_eq
  capped_eq := by
    have hfactor : 1 ≤ Max.max 1 factor := Nat.le_max_left ..
    have hmax : max.nanos ≤ maxNanos := max.le_max
    have hcurrent : b.nextDelay.2.current.nanos = min (min (b.current.nanos * b.factor) maxNanos) b.max.nanos :=
      min_nanos ..
    calc min b.nextDelay.2.current.nanos max.nanos
        = min (b.current.nanos * Max.max 1 factor) max.nanos := by
          rw [hcurrent, h.factor_eq, h.max_eq]
          omega
      _ = min (min b.current.nanos max.nanos * Max.max 1 factor) max.nanos := (min_mul_min hfactor).symm
      _ = min (min (initial.nanos * Max.max 1 factor ^ i) max.nanos * Max.max 1 factor) max.nanos := by rw [h.capped_eq]
      _ = min (initial.nanos * Max.max 1 factor ^ i * Max.max 1 factor) max.nanos := min_mul_min hfactor
      _ = min (initial.nanos * Max.max 1 factor ^ (i + 1)) max.nanos := by rw [Nat.mul_assoc, ← pow_succ]

theorem IsAt.reset (h : IsAt initial factor max i b) : IsAt initial factor max 0 b.reset where
  initial_eq := h.initial_eq
  factor_eq := h.factor_eq
  max_eq := h.max_eq
  capped_eq := by
    have hcurrent : b.reset.current = b.initial := rfl
    rw [hcurrent, h.initial_eq, pow_zero, Nat.mul_one]

theorem isAt_run (initial : Duration) (factor : Nat) (max : Duration) (calls : List BackoffCall) :
    IsAt initial factor max (taken calls) ((new initial factor max).run calls) := by
  induction calls using List.reverseRecOn with
  | nil => exact isAt_new
  | append_singleton calls call ih =>
    rw [run, List.foldl_append]
    cases call with
    | nextDelay =>
      rw [taken_concat_nextDelay]
      exact ih.nextDelay
    | reset =>
      rw [taken_concat_reset]
      exact ih.reset

/-- Whatever was called before, the next delay is the uncapped power, capped once; so between two resets the delays do
not decrease, and none exceeds the cap. -/
theorem nextDelay_closed_form (initial : Duration) (factor : Nat) (max : Duration) (calls : List BackoffCall) :
    let delay calls := ((new initial factor max).run calls).nextDelay.1
    (delay calls).nanos = min (initial.nanos * Max.max 1 factor ^ taken calls) max.nanos ∧ delay calls ≤ max ∧
      ∀ more, .reset ∉ more → delay calls ≤ delay (calls ++ more) := by
  intro delay
  have hclosed (calls : List BackoffCall) :
      (delay calls).nanos = min (initial.nanos * Max.max 1 factor ^ taken calls) max.nanos :=
    (isAt_run initial factor max calls).nextDelay_nanos
  refine ⟨hclosed calls, ?_, fun more hmore => ?_⟩
  · show (delay calls).nanos ≤ max.nanos
    rw [hclosed]
    exact Nat.min_le_right ..
  · have hpow : Max.max 1 factor ^ taken calls ≤ Max.max 1 factor ^ taken (calls ++ more) :=
      Nat.pow_le_pow_right (Nat.le_max_left ..) (taken_le_append hmore)
    have hmul := Nat.mul_le_mul_left initial.nanos hpow
    show (delay calls).nanos ≤ (delay (calls ++ more)).nanos
    rw [hclosed, hclosed]
    omega

example : (((new (.fromSecs 1) 2 (.fromSecs 8)).run [.nextDelay, .nextDelay, .nextDelay, .nextDelay]).nextDelay.1) =
    .fromSecs 8 := by
  decide

end Backoff

end P2Proxy
