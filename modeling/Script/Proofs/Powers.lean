import Script.Proofs.Integers

/-! Powers of integers. A power is an integer if it fits in 64 bits and its exponent in 32, and a
double otherwise. Exponents that do not fit leave out the powers of -1, 0 and 1 alone. -/

namespace Script

namespace Integer

/-! Bases that stay small, whatever the exponent. -/

theorem small_pow {n : Int} (small : n.natAbs ≤ 1) (e : Nat) :
    n ^ (if e < 2 then e else 2 + e % 2) = n ^ e := by
  have base : n = 0 ∨ n = 1 ∨ n = -1 := by omega
  split
  · rfl
  · rename_i large
    rcases base with rfl | rfl | rfl
    · rw [zero_pow (by omega), zero_pow (by omega)]
    · rw [one_pow, one_pow]
    · rw [pow_add, neg_one_sq, one_mul, ← neg_one_pow_eq_pow_mod_two]

theorem fits_pow_of_small {n : Int} (small : n.natAbs ≤ 1) (e : Nat) : Fits (n ^ e) := by
  have size : (n ^ e).natAbs ≤ 1 := by
    rw [Int.natAbs_pow]
    exact (Nat.pow_le_pow_left small e).trans_eq (Nat.one_pow e)
  unfold Fits
  omega

/-- From its 64th power on, any other base is too large. -/
theorem not_fits_pow {n : Int} (large : ¬ n.natAbs ≤ 1) {e : Nat} (high : 64 ≤ e) :
    ¬ Fits (n ^ e) := by
  have size : 2 ^ 64 ≤ (n ^ e).natAbs :=
    calc 2 ^ 64 ≤ 2 ^ e := Nat.pow_le_pow_right (by decide) high
      _ ≤ n.natAbs ^ e := Nat.pow_le_pow_left (by omega) e
      _ = (n ^ e).natAbs := (Int.natAbs_pow n e).symm
  unfold Fits
  omega

/-- The exponents of which powers of integers are taken. -/
def Exponent (r : Int64) : Prop :=
  0 ≤ r.toInt ∧ r.toInt < 2 ^ 32

instance (r : Int64) : Decidable (Exponent r) :=
  inferInstanceAs (Decidable (_ ∧ _))

theorem pow_eq {r : Int64} (exponent : Exponent r) (l : Int64) :
    pow l r = exact (l.toInt ^ r.toInt.toNat) := by
  obtain ⟨nonneg, low⟩ := exponent
  have within : ¬ (r.toInt < 0 ∨ 4294967296 ≤ r.toInt.toNat) := by omega
  unfold pow
  dsimp only
  rw [if_neg within]
  split
  · rename_i small
    exact congrArg exact (small_pow small _)
  · rename_i large
    split
    · rfl
    · rename_i high
      exact (exact_eq_none (not_fits_pow large (Nat.le_of_not_lt high))).symm

theorem pow_eq_none {r : Int64} (other : ¬ Exponent r) (l : Int64) : pow l r = none := by
  unfold Exponent at other
  unfold pow
  dsimp only
  rw [if_pos (by omega)]

end Integer

namespace Host

variable {h : Host} {frame : Frame} {left right : Expr} {m m₁ m₂ : Machine}

/-- Powers of integers never fail. One is the integer that the mathematical power is exactly if that
fits and the exponent is one of 32 bits, and otherwise it is the power of doubles. An exponent that
is too large for that hides no power that fits, but those of -1, 0 and 1. -/
theorem powers_exact {l r : Int64} (span : Span)
    (first : h.evaluate frame left m = .ok (.int l) m₁)
    (second : h.evaluate frame right m₁ = .ok (.int r) m₂) :
    let ran := h.evaluate frame (.binary .pow left right span) m
    let n := l.toInt ^ r.toInt.toNat
    (Integer.Exponent r → Integer.Fits n → ∃ k : Int64, k.toInt = n ∧ ran = .ok (.int k) m₂) ∧
    (¬ (Integer.Exponent r ∧ Integer.Fits n) →
      ran = .ok (.double ((Integer.toDouble l).pow (Integer.toDouble r))) m₂) ∧
    (0 ≤ r.toInt → ¬ Integer.Exponent r → (Integer.Fits n ↔ l.toInt.natAbs ≤ 1)) := by
  intro ran n
  have same : ran = Eval.lift (BinOp.pow.onIntegers l r) span m₂ :=
    evaluate_binary .pow span first second
  refine ⟨fun exponent fits => ?_, fun other => ?_, fun nonneg high => ?_⟩
  · obtain ⟨k, found, value⟩ := Integer.exact_of_fits fits
    refine ⟨k, value, ?_⟩
    rw [same, BinOp.onIntegers, Integer.pow_eq exponent, found]
    rfl
  · have none : Integer.pow l r = none := by
      by_cases exponent : Integer.Exponent r
      · rw [Integer.pow_eq exponent]
        exact Integer.exact_eq_none fun fits => other ⟨exponent, fits⟩
      · exact Integer.pow_eq_none exponent l
    rw [same, BinOp.onIntegers, none]
    rfl
  · refine ⟨fun fits => ?_, fun small => Integer.fits_pow_of_small small _⟩
    by_contra large
    unfold Integer.Exponent at high
    exact Integer.not_fits_pow large (by omega) fits

/-- The least integer is a power, and so is one with the largest exponent that counts. -/
theorem least_as_power :
    (∃ k : Int64, k.toInt = -9223372036854775808 ∧
      onInts .pow (-2) 63 = .ok (.int k) State.start.machine) ∧
    ∃ k : Int64, k.toInt = -1 ∧ onInts .pow (-1) 4294967295 = .ok (.int k) State.start.machine := by
  obtain ⟨least, -⟩ := powers_exact default
    (evaluate_int (.of 0 (.inMemory ⟨[], []⟩ .working)) State.start.frame (-2) default
      State.start.machine) (evaluate_int _ _ 63 default _)
  obtain ⟨odd, -⟩ := powers_exact default
    (evaluate_int (.of 0 (.inMemory ⟨[], []⟩ .working)) State.start.frame (-1) default
      State.start.machine) (evaluate_int _ _ 4294967295 default _)
  have power : (-1 : Int64).toInt ^ (4294967295 : Int64).toInt.toNat = -1 :=
    Odd.neg_one_pow (n := 4294967295) (by decide)
  rw [power] at odd
  exact ⟨least (by decide) (by decide), odd (by decide) (by decide)⟩

/-- A power of one that fits, and is a double all the same. -/
theorem one_power_double :
    Integer.Fits ((1 : Int64).toInt ^ (4294967296 : Int64).toInt.toNat) ∧
      ∃ x, onInts .pow 1 4294967296 = .ok (.double x) State.start.machine :=
  ⟨Integer.fits_pow_of_small (by decide) _, _, rfl⟩

end Host

end Script
