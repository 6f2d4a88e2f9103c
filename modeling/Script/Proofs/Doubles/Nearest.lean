import Mathlib.Algebra.Ring.Int.Defs
import Mathlib.Algebra.Ring.Nat
import Mathlib.Tactic.SplitIfs
import Script.Number.Double

/-! Integers rounded to doubles. A double that is a whole number consists of 53 bits and of zeros
after them. -/

namespace Script.Double

/-- `n / unit`, rounded to the nearest. A tie goes to the even one. -/
def quotient (n unit : Nat) : Nat :=
  if 2 * (n % unit) < unit then n / unit
  else if 2 * (n % unit) = unit then n / unit + n / unit % 2
  else n / unit + 1

/-- How far apart the whole doubles lie between the power of two at the head of `n` and the next. -/
def spacing (n : Nat) : Nat :=
  2 ^ (n.log2 - 52)

def nearestNat (n : Nat) : Nat :=
  quotient n (spacing n) * spacing n

/-- The whole double nearest to an integer. -/
def nearest (n : Int) : Int :=
  if n < 0 then -(nearestNat n.natAbs : Int) else nearestNat n.natAbs

/-! Rounded quotients. -/

section Quotients
variable {n n' unit : Nat}

theorem quotient_scale {c : Nat} (positive : 0 < c) :
    quotient (n * c) (unit * c) = quotient n unit := by
  have rest : 2 * (n * c % (unit * c)) = 2 * (n % unit) * c := by
    rw [Nat.mul_mod_mul_right, Nat.mul_assoc]
  simp only [quotient, rest, Nat.mul_div_mul_right _ _ positive,
    Nat.mul_lt_mul_right positive, Nat.mul_left_inj (Nat.ne_of_gt positive)]

theorem quotient_mul (q : Nat) (positive : 0 < unit) : quotient (q * unit) unit = q := by
  rw [quotient, Nat.mul_mod_left, if_pos positive, Nat.mul_div_cancel _ positive]

theorem quotient_bounds (n unit : Nat) :
    n / unit ≤ quotient n unit ∧ quotient n unit ≤ n / unit + 1 := by
  unfold quotient
  split
  · omega
  · split <;> omega

theorem quotient_mono (unit : Nat) (le : n ≤ n') : quotient n unit ≤ quotient n' unit := by
  have below : n / unit ≤ n' / unit := Nat.div_le_div_right le
  rcases Nat.lt_or_eq_of_le below with lt | same
  · have up := quotient_bounds n unit
    have down := quotient_bounds n' unit
    omega
  · have rests : n % unit ≤ n' % unit := by
      have first := Nat.div_add_mod n unit
      have second := Nat.div_add_mod n' unit
      rw [same] at first
      omega
    unfold quotient
    rw [same]
    split_ifs <;> omega

/-- No multiple of the unit is nearer than the one by the rounded quotient. -/
theorem quotient_near (n c : Nat) (positive : 0 < unit) :
    ((quotient n unit * unit : Nat) - n : Int).natAbs ≤ ((c * unit : Nat) - n : Int).natAbs := by
  have parts : n / unit * unit + n % unit = n := by
    rw [Nat.mul_comm, Nat.div_add_mod]
  have rest := Nat.mod_lt n positive
  have next : (n / unit + 1) * unit = n / unit * unit + unit := Nat.succ_mul _ _
  -- A multiple lies at or below the one under `n`, or at or above the one over it.
  have apart : c * unit ≤ n / unit * unit ∨ n / unit * unit + unit ≤ c * unit := by
    rcases Nat.lt_or_ge (n / unit) c with above | below
    · exact .inr (next ▸ Nat.mul_le_mul_right unit above)
    · exact .inl (Nat.mul_le_mul_right unit below)
  unfold quotient
  split_ifs with down tie
  · omega
  · rcases Nat.mod_two_eq_zero_or_one (n / unit) with even | odd
    · rw [even, Nat.add_zero]
      omega
    · rw [odd, next]
      omega
  · rw [next]
    omega

end Quotients

/-! Rounded numbers. -/

theorem spacing_pos (n : Nat) : 0 < spacing n :=
  Nat.two_pow_pos _

/-- A whole double: 53 bits and zeros after them. -/
def Whole (n : Nat) : Prop :=
  ∃ m k, m < 2 ^ 53 ∧ n = m * 2 ^ k

theorem Whole.of_le {n : Nat} (small : n ≤ 2 ^ 53) : Whole n := by
  rcases Nat.lt_or_eq_of_le small with lt | rfl
  · exact ⟨n, 0, lt, (Nat.mul_one n).symm⟩
  · exact ⟨1, 53, by decide, rfl⟩

/-- A whole double from a power of two on is a multiple of the spacing there. -/
theorem Whole.spaced {x n : Nat} (whole : Whole x) (reach : 2 ^ n.log2 ≤ x) :
    ∃ c, x = c * spacing n := by
  obtain ⟨m, k, small, rfl⟩ := whole
  have shift : n.log2 - 52 ≤ k := by
    have below : 2 ^ n.log2 < 2 ^ (53 + k) := by
      rw [Nat.pow_add]
      exact Nat.lt_of_le_of_lt reach (Nat.mul_lt_mul_of_pos_right small (Nat.two_pow_pos k))
    have := (Nat.pow_lt_pow_iff_right (by decide)).1 below
    omega
  refine ⟨m * 2 ^ (k - (n.log2 - 52)), ?_⟩
  rw [spacing, Nat.mul_assoc, ← Nat.pow_add, Nat.sub_add_cancel shift]

theorem Whole.head (n : Nat) : Whole (2 ^ n.log2) :=
  ⟨1, n.log2, by decide, (Nat.one_mul _).symm⟩

/-- No whole double is nearer to a number than the one that it is rounded to. -/
theorem nearestNat_near {x : Nat} (n : Nat) (whole : Whole x) :
    ((nearestNat n : Int) - n).natAbs ≤ ((x : Int) - n).natAbs := by
  rcases Nat.lt_or_ge x (2 ^ n.log2) with below | reach
  · obtain ⟨c, head⟩ := (Whole.head n).spaced (Nat.le_refl _)
    have near := quotient_near n c (spacing_pos n)
    rw [← head] at near
    have inside : 2 ^ n.log2 ≤ n ∨ n = 0 := by
      rcases Nat.eq_zero_or_pos n with zero | positive
      · exact .inr zero
      · exact .inl (Nat.log2_self_le (by omega))
    unfold nearestNat
    rcases inside with inside | rfl
    · omega
    · change x < 1 at below
      obtain rfl : x = 0 := by omega
      exact Nat.le_refl _
  · obtain ⟨c, rfl⟩ := whole.spaced reach
    exact quotient_near n c (spacing_pos n)

theorem nearestNat_whole {n : Nat} (whole : Whole n) : nearestNat n = n := by
  have near := nearestNat_near n whole
  omega

/-- Rounding stays between the powers of two around a number. -/
theorem nearestNat_bounds {n : Nat} (positive : 0 < n) :
    2 ^ n.log2 ≤ nearestNat n ∧ nearestNat n ≤ 2 ^ (n.log2 + 1) := by
  obtain ⟨c, head⟩ := (Whole.head n).spaced (Nat.le_refl _)
  have double : 2 ^ (n.log2 + 1) = 2 * c * spacing n := by
    rw [Nat.pow_succ, head, Nat.mul_comm, Nat.mul_assoc]
  have low := quotient_mono (spacing n) (Nat.log2_self_le (Nat.ne_of_gt positive))
  have high := quotient_mono (spacing n) (Nat.le_of_lt (Nat.lt_log2_self (n := n)))
  rw [head, quotient_mul c (spacing_pos n)] at low
  rw [double, quotient_mul (2 * c) (spacing_pos n)] at high
  rw [double]
  exact ⟨head ▸ Nat.mul_le_mul_right _ low, Nat.mul_le_mul_right _ high⟩

theorem nearestNat_mono {l r : Nat} (le : l ≤ r) : nearestNat l ≤ nearestNat r := by
  rcases Nat.eq_zero_or_pos l with rfl | positive
  · rw [nearestNat_whole (.of_le (by decide))]
    exact Nat.zero_le _
  have logs : l.log2 ≤ r.log2 :=
    (Nat.le_log2 (by omega)).2 (Nat.le_trans (Nat.log2_self_le (by omega)) le)
  rcases Nat.lt_or_eq_of_le logs with lt | same
  · calc
      nearestNat l ≤ 2 ^ (l.log2 + 1) := (nearestNat_bounds positive).2
      _ ≤ 2 ^ r.log2 := Nat.pow_le_pow_right (by decide) lt
      _ ≤ nearestNat r := (nearestNat_bounds (Nat.lt_of_lt_of_le positive le)).1
  · have spaced : spacing l = spacing r := by rw [spacing, same, spacing]
    rw [nearestNat, nearestNat, spaced]
    exact Nat.mul_le_mul_right _ (quotient_mono _ le)

/-- No whole double is nearer to an integer than the one that it is rounded to. -/
theorem nearest_near {x : Int} (n : Int) (whole : Whole x.natAbs) :
    (nearest n - n).natAbs ≤ (x - n).natAbs := by
  have near := nearestNat_near n.natAbs whole
  unfold nearest
  split_ifs <;> omega

theorem nearest_mono {l r : Int} (le : l ≤ r) : nearest l ≤ nearest r := by
  unfold nearest
  split_ifs with below above
  · have := nearestNat_mono (show r.natAbs ≤ l.natAbs by omega)
    omega
  · omega
  · omega
  · have := nearestNat_mono (show l.natAbs ≤ r.natAbs by omega)
    omega

theorem nearest_of_small {n : Int} (small : n.natAbs ≤ 2 ^ 53) : nearest n = n := by
  rw [nearest, nearestNat_whole (.of_le small)]
  split_ifs <;> omega

end Script.Double
