import Mathlib.Tactic.Common

/-!
# Retries

`while (attempt fails && count < bound) count++`, on a stream of outcomes. The attempt is made
before the counter is tested, so up to `bound + 1` attempts are made, and where the counter has come
to its bound the outcome of the last one is lost (`retry_eq_bound`).
-/

namespace Vehicle.Trace

/-- The counter behind the loop, for the outcomes `fails`, from the value `count` on, when it may
still be raised `left` times. -/
def retry (fails : ℕ → Bool) : ℕ → ℕ → ℕ
  | 0, count => count
  | left + 1, count => if fails count then retry fails left (count + 1) else count

section Retry

variable {fails : ℕ → Bool} {left count k : ℕ}

theorem le_retry : count ≤ retry fails left count := by
  induction left generalizing count with
  | zero => exact Nat.le_refl _
  | succ left ih =>
    rw [retry]
    split
    · have hle : count + 1 ≤ retry fails left (count + 1) := ih
      omega
    · exact Nat.le_refl _

theorem retry_le : retry fails left count ≤ count + left := by
  induction left generalizing count with
  | zero => exact Nat.le_refl _
  | succ left ih =>
    rw [retry]
    split
    · have hle : retry fails left (count + 1) ≤ count + 1 + left := ih
      omega
    · omega

/-- Every attempt but the last one has failed. -/
theorem fails_of_lt_retry (hk : count ≤ k) (hlt : k < retry fails left count) : fails k := by
  induction left generalizing count with
  | zero =>
    rw [retry] at hlt
    omega
  | succ left ih =>
    rw [retry] at hlt
    split at hlt
    case isTrue hfail =>
      rcases Nat.eq_or_lt_of_le hk with rfl | hk
      · exact hfail
      · exact ih hk hlt
    case isFalse => omega

/-- Below the bound the last attempt has not failed. -/
theorem not_fails_retry (hlt : retry fails left count < count + left) :
    fails (retry fails left count) = false := by
  induction left generalizing count with
  | zero =>
    rw [retry] at hlt
    omega
  | succ left ih =>
    rw [retry] at hlt ⊢
    split
    case isTrue hfail =>
      rw [if_pos hfail] at hlt
      apply ih
      omega
    case isFalse hfail => simpa using hfail

/-- **The counter is that of the first success**, when there is one below the bound. -/
theorem retry_eq (hk : count ≤ k) (hlt : k < count + left)
    (hfails : ∀ j, count ≤ j → j < k → fails j) (hok : fails k = false) :
    retry fails left count = k := by
  rcases Nat.lt_trichotomy (retry fails left count) k with h | h | h
  · have hno := not_fails_retry (Nat.lt_trans h hlt)
    rw [hfails _ le_retry h] at hno
    cases hno
  · exact h
  · rw [fails_of_lt_retry hk h] at hok
    cases hok

/-- **The counter comes to its bound** when that many attempts fail, whatever the last one does. -/
theorem retry_eq_bound :
    retry fails left count = count + left ↔ ∀ k, count ≤ k → k < count + left → fails k := by
  constructor
  · intro h k hk hlt
    exact fails_of_lt_retry hk (h ▸ hlt)
  · intro h
    by_contra hne
    have hle : retry fails left count ≤ count + left := retry_le
    have hno := not_fails_retry (show retry fails left count < count + left by omega)
    rw [h _ le_retry (by omega)] at hno
    cases hno

end Retry

end Vehicle.Trace
