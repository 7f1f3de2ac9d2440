import Mathlib.Data.List.Basic

/-!
# Decimal digits

The decimal digits of a number, as a reader has to know them: there is at least
one, and the first one is zero only if it is alone.
-/

namespace RouteScope.Text

/-- Only zero is written with a zero in front. -/
theorem head?_toDigits_ne_zero {n : Nat} (hn : 0 < n) :
    (Nat.toDigits 10 n).head? ≠ some '0' := by
  induction n using Nat.base_induction 10 (by decide) with
  | single n hlt =>
      rw [Nat.toDigits_of_lt_base hlt]
      simp
      omega
  | digit m k hk hm ih =>
      rw [← Nat.toDigits_append_toDigits (by decide) hm hk,
        List.head?_append_of_ne_nil _ Nat.toDigits_ne_nil]
      exact ih hm

/-- The decimal digits of a number: one digit or more, and no zero in front of
others. -/
theorem exists_toDigits_eq_cons (n : Nat) :
    ∃ c digits, Nat.toDigits 10 n = c :: digits ∧ c.isDigit = true ∧
      (∀ d ∈ digits, d.isDigit = true) ∧ (c = '0' → digits = []) := by
  have hdigit : ∀ c ∈ Nat.toDigits 10 n, c.isDigit = true :=
    fun c hc => Nat.isDigit_of_mem_toDigits (by decide) (by decide) hc
  rcases Nat.eq_zero_or_pos n with rfl | hn
  · exact ⟨'0', [], rfl, rfl, by simp, fun _ => rfl⟩
  · have hzero := head?_toDigits_ne_zero hn
    cases hdigits : Nat.toDigits 10 n with
    | nil => exact absurd hdigits Nat.toDigits_ne_nil
    | cons c digits =>
        rw [hdigits] at hdigit hzero
        refine ⟨c, digits, rfl, hdigit c List.mem_cons_self, ?_, ?_⟩
        · intro d hd
          exact hdigit d (List.mem_cons_of_mem c hd)
        · intro hc
          simp [hc] at hzero

end RouteScope.Text
