import Mathlib
import Script.Proofs.Doubles.Nearest

/-! The double of an integer. It stands for the whole double nearest to it, and doubles of integers
are ordered as the numbers that they stand for. -/

namespace Script.Double

open Float.Model Float.Model.UnpackedFloat

/-- What stands for a whole number: a zero, or a mantissa of 53 bits with its exponent. -/
inductive Denotes : UnpackedFloat → Int → Prop
  | zero (s : Sign) : Denotes (.zero s) 0
  | finite {m k n : Nat} {e : Int} (s : Sign) (head : 2 ^ 52 ≤ m) (small : m < 2 ^ 53)
      (reach : k ≤ 64) (value : m * 2 ^ k = n * 2 ^ 52) (place : e = k - 52) (positive : 0 < m) :
      Denotes (.finite s m e positive) (s.apply n)

/-! Order. -/

theorem lt_of_place_lt {m m' k k' n n' : Nat} (small : m < 2 ^ 53) (head' : 2 ^ 52 ≤ m')
    (value : m * 2 ^ k = n * 2 ^ 52) (value' : m' * 2 ^ k' = n' * 2 ^ 52) (lt : k < k') :
    n < n' := by
  have step : n * 2 ^ 52 < n' * 2 ^ 52 := calc
    n * 2 ^ 52 = m * 2 ^ k := value.symm
    _ < 2 ^ 53 * 2 ^ k := Nat.mul_lt_mul_of_pos_right small (Nat.two_pow_pos k)
    _ = 2 ^ 52 * 2 ^ (k + 1) := by rw [Nat.pow_succ 2 k]; omega
    _ ≤ m' * 2 ^ k' := Nat.mul_le_mul head' (Nat.pow_le_pow_right (by decide) lt)
    _ = n' * 2 ^ 52 := value'
  exact Nat.lt_of_mul_lt_mul_right step

theorem compare_neg (v w : Int) : compare (-v) (-w) = compare w v := by
  simp only [Int.compare_eq_ite_lt, Int.neg_lt_neg_iff]

theorem compare_forms {m m' k k' n n' : Nat} (head : 2 ^ 52 ≤ m) (head' : 2 ^ 52 ≤ m')
    (small : m < 2 ^ 53) (small' : m' < 2 ^ 53) (value : m * 2 ^ k = n * 2 ^ 52)
    (value' : m' * 2 ^ k' = n' * 2 ^ 52) :
    (compare (k - 52 : Int) (k' - 52)).then (compare m m') = compare (n : Int) n' := by
  rcases Nat.lt_trichotomy k k' with lt | rfl | gt
  · rw [Int.compare_eq_lt.2 (by omega),
      Int.compare_eq_lt.2 (Int.ofNat_lt.2 (lt_of_place_lt small head' value value' lt))]
    rfl
  · have positive := Nat.two_pow_pos k
    rw [Int.compare_eq_eq.2 rfl]
    rcases Nat.lt_trichotomy m m' with less | rfl | more
    · have := Nat.mul_lt_mul_of_pos_right less positive
      rw [Nat.compare_eq_lt.2 less, Int.compare_eq_lt.2 (by omega)]
      rfl
    · rw [Nat.compare_eq_eq.2 rfl, Int.compare_eq_eq.2 (by omega)]
      rfl
    · have := Nat.mul_lt_mul_of_pos_right more positive
      rw [Nat.compare_eq_gt.2 more, Int.compare_eq_gt.2 (by omega)]
      rfl
  · rw [Int.compare_eq_gt.2 (by omega),
      Int.compare_eq_gt.2 (Int.ofNat_lt.2 (lt_of_place_lt small' head value' value gt))]
    rfl

theorem pos_of_value {m k n : Nat} (positive : 0 < m) (value : m * 2 ^ k = n * 2 ^ 52) : 0 < n := by
  have := Nat.mul_pos positive (Nat.two_pow_pos k)
  omega

theorem Denotes.compare {x y : UnpackedFloat} {v w : Int} (first : Denotes x v)
    (second : Denotes y w) : x.compare y = some (compare v w) := by
  cases first with
  | zero s =>
    cases second with
    | zero t => rfl
    | @finite m k n e t head small reach value place positive =>
      have above := pos_of_value positive value
      cases t with
      | negative => exact congrArg some (Int.compare_eq_gt.2 (show -(n : Int) < 0 by omega)).symm
      | positive => exact congrArg some (Int.compare_eq_lt.2 (show (0 : Int) < n by omega)).symm
  | @finite m k n e s head small reach value place positive =>
    have above := pos_of_value positive value
    cases second with
    | zero t =>
      cases s with
      | negative => exact congrArg some (Int.compare_eq_lt.2 (show -(n : Int) < 0 by omega)).symm
      | positive => exact congrArg some (Int.compare_eq_gt.2 (show (0 : Int) < n by omega)).symm
    | @finite m' k' n' e' t head' small' reach' value' place' positive' =>
      have above' := pos_of_value positive' value'
      have forms := compare_forms head head' small small' value value'
      subst place place'
      cases s with
      | negative =>
        cases t with
        | negative =>
          exact congrArg some (forms ▸ (Int.compare_swap n n').trans (compare_neg n n').symm)
        | positive =>
          exact congrArg some (Int.compare_eq_lt.2 (show -(n : Int) < n' by omega)).symm
      | positive =>
        cases t with
        | negative =>
          exact congrArg some (Int.compare_eq_gt.2 (show -(n' : Int) < n by omega)).symm
        | positive =>
          exact congrArg some forms

theorem Denotes.neg {x : UnpackedFloat} {v : Int} (denotes : Denotes x v) : Denotes x.neg (-v) := by
  cases denotes with
  | zero s => exact .zero (-s)
  | @finite m k n e s head small reach value place positive =>
    have turned : -s.apply n = (-s).apply n := by
      cases s with
      | negative => exact Int.neg_neg _
      | positive => rfl
    rw [turned]
    exact .finite (-s) head small reach value place positive

/-! Bits. -/

theorem unpackSign_packComponents (spec : Format) (s : Sign) (e : BitVec spec.exponentBits)
    (m : BitVec spec.mantissaBitsWithoutImplicit) :
    unpackSign (packComponents spec s e m) = s.toBitVec := by
  apply BitVec.eq_of_getLsbD_eq
  intro i inside
  obtain rfl : i = 0 := by omega
  simp [unpackSign, packComponents, BitVec.getLsbD_append, BitVec.getElem_append]

theorem ofBitVec_toBitVec (s : Sign) : Sign.ofBitVec s.toBitVec = s := by
  cases s <;> rfl

theorem Denotes.unpack_pack {x : UnpackedFloat} {v : Int} (denotes : Denotes x v) :
    (Float.Model.pack x).unpack = x := by
  cases denotes with
  | zero s => cases s <;> rfl
  | @finite m k n e s head small reach value place positive =>
    have log : m.log2 = 52 := (Nat.log2_eq_iff (by omega)).2 ⟨head, small⟩
    have bias : (e + Format.binary64.exponentBias +
        Format.binary64.mantissaBitsWithoutImplicit).toNat = k + 1023 := by
      change (e + 1023 + 52).toNat = _
      omega
    have exponent : (BitVec.ofNat 11 (k + 1023)).toNat = k + 1023 := by
      rw [BitVec.toNat_ofNat, Nat.mod_eq_of_lt (by omega)]
    have mantissa : (1#1 ++ BitVec.ofNat 52 m).toNat = m := by
      rw [BitVec.toNat_append, ← Nat.shiftLeft_add_eq_or_of_lt (BitVec.ofNat 52 m).isLt,
        BitVec.toNat_ofNat, Nat.shiftLeft_eq]
      change 1 * 2 ^ 52 + m % 2 ^ 52 = m
      omega
    have ordinary : BitVec.ofNat 11 (k + 1023) ≠ -1#11 := fun same => by
      have same := congrArg BitVec.toNat same
      rw [exponent] at same
      change k + 1023 = 2047 at same
      omega
    have normal : BitVec.ofNat 11 (k + 1023) ≠ 0#11 := fun same => by
      have same := congrArg BitVec.toNat same
      rw [exponent] at same
      change k + 1023 = 0 at same
      omega
    have packed : UnpackedFloat.pack .binary64 (.finite s m e positive) =
        packComponents .binary64 s (BitVec.ofNat 11 (k + 1023)) (BitVec.ofNat 52 m) := by
      rw [UnpackedFloat.pack]
      simp only [bias, log]
      rw [if_neg (show ¬ 2 ^ 11 ≤ k + 1023 + 1 by omega)]
      exact if_pos (show 52 + 1 = Format.binary64.mantissaBits from rfl)
    change UnpackedFloat.unpack .binary64 (UnpackedFloat.pack .binary64 _) = _
    rw [packed, UnpackedFloat.unpack]
    simp only [unpackMantissa_packComponents, unpackExponent_packComponents,
      unpackSign_packComponents, ofBitVec_toBitVec, if_neg ordinary, if_neg normal, mantissa, exponent]
    have back : ((k + 1023 : Nat) : Int) - (Format.binary64.exponentBias + (52 : Nat)) = e := by
      change ((k + 1023 : Nat) : Int) - (1023 + 52) = e
      omega
    simp only [back]

/-! Rounding. -/

/-- What is shifted out is kept as the answers to two questions: whether it amounts to half of a
unit, and whether it lies between none, a half and one. -/
theorem shifted (m s : Nat) :
    ExtendedMantissa.ofMantissaAndAccuracy m .exact >>> s =
      ⟨m / 2 ^ s, decide (2 ^ s ≤ 2 * (m % 2 ^ s)),
        decide (2 * (m % 2 ^ s) ≠ 0 ∧ 2 * (m % 2 ^ s) ≠ 2 ^ s)⟩ := by
  induction s with
  | zero =>
    simp only [Nat.pow_zero, Nat.mod_one, Nat.div_one]
    rfl
  | succ s ih =>
    have next : ExtendedMantissa.ofMantissaAndAccuracy m .exact >>> (s + 1) =
        (ExtendedMantissa.ofMantissaAndAccuracy m .exact >>> s).shiftRightOne := rfl
    have rest : m % 2 ^ (s + 1) = m % 2 ^ s + 2 ^ s * (m / 2 ^ s % 2) := Nat.mod_pow_succ
    have half : m % 2 ^ s < 2 ^ s := Nat.mod_lt _ (Nat.two_pow_pos s)
    rw [next, ih, rest]
    simp only [ExtendedMantissa.shiftRightOne, Nat.div_div_eq_div_mul, ← Nat.pow_succ]
    rcases Nat.mod_two_eq_zero_or_one (m / 2 ^ s) with even | odd
    · rw [even, Nat.mul_zero, Nat.add_zero, Nat.pow_succ]
      congr 1
      · rw [Bool.eq_iff_iff]
        simp only [decide_eq_true_eq, bne_self_eq_false, Bool.false_eq_true, false_iff]
        omega
      · rw [Bool.eq_iff_iff]
        simp only [Bool.or_eq_true, decide_eq_true_eq]
        omega
    · rw [odd, Nat.mul_one, Nat.pow_succ]
      congr 1
      · rw [Bool.eq_iff_iff]
        simp only [decide_eq_true_eq]
        exact iff_of_true rfl (by omega)
      · rw [Bool.eq_iff_iff]
        simp only [Bool.or_eq_true, decide_eq_true_eq]
        omega

theorem rounded (m s : Nat) :
    (ExtendedMantissa.ofMantissaAndAccuracy m .exact >>> s).roundedMantissa = quotient m (2 ^ s) := by
  have half : m % 2 ^ s < 2 ^ s := Nat.mod_lt _ (Nat.two_pow_pos s)
  rw [shifted, quotient]
  split_ifs with down tie
  · have low : decide (2 ^ s ≤ 2 * (m % 2 ^ s)) = false := decide_eq_false (by omega)
    rw [low]
    cases decide (2 * (m % 2 ^ s) ≠ 0 ∧ 2 * (m % 2 ^ s) ≠ 2 ^ s) <;> rfl
  · rw [decide_eq_true (show 2 ^ s ≤ 2 * (m % 2 ^ s) by omega), decide_eq_false (by omega)]
    rfl
  · rw [decide_eq_true (show 2 ^ s ≤ 2 * (m % 2 ^ s) by omega),
      decide_eq_true (by omega)]
    rfl

/-- By how many places a mantissa is shifted to have 53 bits. -/
def shift (m : Nat) (e : Int) : Nat :=
  (max (m.log2 + 1 + e - 53) (-1074) - e).toNat

theorem roundWithAccuracy_eq (s : Sign) (m : Nat) (e : Int) :
    roundWithAccuracy .binary64 s m e .exact =
      let q := quotient m (2 ^ shift m e)
      let e' := e + shift m e
      if h : q / 2 ^ shift q e' = 0 then .zero s
      else .finite s (q / 2 ^ shift q e') (e' + shift q e') (Nat.pos_of_ne_zero h) := by
  have target (m : Nat) (e : Int) :
      (Format.binary64.targetExponent (totalExponent m e) - e).toNat = shift m e := rfl
  have mantissa (m s : Nat) :
      (ExtendedMantissa.ofMantissaAndAccuracy m .exact >>> s).mantissa = m / 2 ^ s := by rw [shifted]
  simp only [roundWithAccuracy, shiftToTargetExponent, shiftToExponent, target, rounded, mantissa]

theorem log2_mul_two_pow {n : Nat} (positive : 0 < n) (a : Nat) :
    (n * 2 ^ a).log2 = n.log2 + a := by
  rw [Nat.log2_eq_iff (Nat.ne_of_gt (Nat.mul_pos positive (Nat.two_pow_pos a))), Nat.pow_add,
    Nat.add_right_comm, Nat.pow_add]
  exact ⟨Nat.mul_le_mul_right _ (Nat.log2_self_le (Nat.ne_of_gt positive)),
    Nat.mul_lt_mul_of_pos_right Nat.lt_log2_self (Nat.two_pow_pos a)⟩

/-- A number with zeros after it, rounded to its first 53 bits. -/
theorem quotient_head {n a : Nat} (wide : 52 ≤ n.log2 + a) :
    quotient (n * 2 ^ a) (2 ^ (n.log2 + a - 52)) * 2 ^ n.log2 = nearestNat n * 2 ^ 52 := by
  rcases Nat.lt_or_ge n.log2 52 with short | long
  · have exact : n * 2 ^ a = n * 2 ^ (52 - n.log2) * 2 ^ (n.log2 + a - 52) := by
      rw [Nat.mul_assoc, ← Nat.pow_add]
      congr 2
      omega
    have few : n < 2 ^ 53 := by
      have head := Nat.lt_log2_self (n := n)
      have := Nat.pow_le_pow_right (n := 2) (by decide) short
      omega
    rw [exact, quotient_mul _ (Nat.two_pow_pos _), nearestNat_whole (.of_le (Nat.le_of_lt few)),
      Nat.mul_assoc, ← Nat.pow_add, Nat.sub_add_cancel (Nat.le_of_lt short)]
  · have unit : 2 ^ (n.log2 + a - 52) = spacing n * 2 ^ a := by
      rw [spacing, ← Nat.pow_add]
      congr 1
      omega
    rw [unit, quotient_scale (Nat.two_pow_pos a), nearestNat, spacing, Nat.mul_assoc, ← Nat.pow_add,
      Nat.sub_add_cancel long]

theorem denotes_round {n a : Nat} (s : Sign) (positive : 0 < n) (small : n ≤ 2 ^ 63)
    (wide : 52 ≤ n.log2 + a) :
    Denotes (roundWithAccuracy .binary64 s (n * 2 ^ a) (-a) .exact) (s.apply (nearestNat n)) := by
  have reach : n.log2 ≤ 63 :=
    Nat.le_of_lt_succ ((Nat.log2_lt (Nat.ne_of_gt positive)).2 (Nat.lt_of_le_of_lt small (by decide)))
  have first : shift (n * 2 ^ a) (-a) = n.log2 + a - 52 := by
    rw [shift, log2_mul_two_pow positive]
    omega
  have value := quotient_head wide
  obtain ⟨low, high⟩ := nearestNat_bounds positive
  have leading := Nat.two_pow_pos n.log2
  rw [roundWithAccuracy_eq, first]
  generalize quotient (n * 2 ^ a) (2 ^ (n.log2 + a - 52)) = q at value ⊢
  have head : 2 ^ 52 ≤ q := by
    apply Nat.le_of_mul_le_mul_right _ leading
    omega
  have bound : q ≤ 2 ^ 53 := by
    apply Nat.le_of_mul_le_mul_right _ leading
    omega
  have place : (-a : Int) + (n.log2 + a - 52 : Nat) = n.log2 - 52 := by omega
  rw [place]
  rcases Nat.lt_or_eq_of_le bound with inside | rfl
  · have log : q.log2 = 52 := (Nat.log2_eq_iff (by omega)).2 ⟨head, inside⟩
    have again : shift q (n.log2 - 52) = 0 := by
      rw [shift, log]
      omega
    simp only [again, Nat.pow_zero, Nat.div_one]
    rw [dif_neg (by omega)]
    exact .finite s head inside (by omega) value (by omega) _
  · have again : shift (2 ^ 53) (n.log2 - 52) = 1 := by
      rw [shift, Nat.log2_two_pow]
      omega
    have half : 2 ^ 53 / 2 ^ 1 = 2 ^ 52 := by decide
    have carried : 2 ^ 52 * 2 ^ (n.log2 + 1) = nearestNat n * 2 ^ 52 := by
      rw [Nat.pow_succ 2 n.log2]
      omega
    simp only [again, half]
    rw [dif_neg (by decide)]
    exact .finite s (Nat.le_refl _) (by decide) (by omega) carried (by omega) _

/-! Conversion. -/

/-- A number of at most 53 bits is first filled up with zeros. -/
theorem ofNat_eq {n : Nat} (positive : 0 < n) (small : n.log2 ≤ 52) :
    UnpackedFloat.ofNat .binary64 n =
      roundWithAccuracy .binary64 .positive (n * 2 ^ (52 - n.log2)) (-(52 - n.log2 : Nat)) .exact := by
  have above : compare (n : Int) 0 = .gt := Int.compare_eq_gt.2 (by omega)
  have target : Format.binary64.targetExponent (totalExponent n 0) =
      max ((n.log2 : Int) + 1 + 0 - 53) (-1074) := rfl
  have places : (-max ((n.log2 : Int) + 1 + 0 - 53) (-1074)).toNat = 52 - n.log2 := by omega
  simp only [UnpackedFloat.ofNat, UnpackedFloat.ofInt, UnpackedFloat.normalize, above,
    Int.toNat_natCast, UnpackedFloat.round, decreaseExponent, target, Int.zero_sub, places,
    Nat.shiftLeft_eq]

theorem denotes_toFloat {n : Nat} (small : n < 2 ^ 53) :
    Denotes n.toUInt64.toFloat.toModel.unpack n := by
  have same : n.toUInt64.toNat = n := Nat.mod_eq_of_lt (by omega)
  change Denotes (Float.Model.pack (UnpackedFloat.ofNat .binary64 n.toUInt64.toNat)).unpack n
  rw [same]
  rcases Nat.eq_zero_or_pos n with rfl | positive
  · exact .zero .positive
  · have log : n.log2 ≤ 52 := Nat.le_of_lt_succ ((Nat.log2_lt (Nat.ne_of_gt positive)).2 small)
    have denotes := denotes_round (a := 52 - n.log2) .positive positive (by omega) (by omega)
    rw [nearestNat_whole (.of_le (Nat.le_of_lt small)), ← ofNat_eq positive log] at denotes
    rwa [denotes.unpack_pack]

theorem ofScientific_eq {n : Nat} (positive : 0 < n) :
    UnpackedFloat.ofScientific .binary64 n 0 =
      roundWithAccuracy .binary64 .positive (n * 2 ^ 53) (-(53 : Nat)) .exact := by
  have wide : ¬ (0 : Int) < -((2 ^ 11 : Int) + n.log2) := by omega
  rw [UnpackedFloat.ofScientific, dif_neg (Nat.ne_of_gt positive), if_neg (by decide), if_neg wide,
    if_pos (Int.le_refl 0)]
  have plain : n * 2 ^ Format.binary64.mantissaBits * 10 ^ Int.toNat 0 = n * 2 ^ 53 :=
    Nat.mul_one (n * 2 ^ 53)
  simp only [UnpackedFloat.mul, Nat.shiftLeft_eq, plain]
  rfl

theorem Denotes.mul_one {x : UnpackedFloat} {n : Nat} (denotes : Denotes x n) (small : n < 2 ^ 53) :
    Denotes (UnpackedFloat.mul .binary64 x (.finite .positive (2 ^ 52) (-52) (by decide))) n := by
  generalize number : (n : Int) = v at denotes
  cases denotes with
  | zero s => exact .zero (s * .positive)
  | @finite m k n' e s head narrow reach value place positive =>
    have above := pos_of_value positive value
    cases s with
    | negative =>
      change (n : Int) = -(n' : Int) at number
      omega
    | positive =>
      obtain rfl : n = n' := Int.ofNat.inj number
      have low : k ≤ 52 := by
        have below : 2 ^ 52 * 2 ^ k < 2 ^ 52 * 2 ^ 53 := calc
          2 ^ 52 * 2 ^ k ≤ m * 2 ^ k := Nat.mul_le_mul_right _ head
          _ = n * 2 ^ 52 := value
          _ < 2 ^ 52 * 2 ^ 53 := by omega
        have below := Nat.lt_of_mul_lt_mul_left below
        have := (Nat.pow_lt_pow_iff_right (by decide)).1 below
        omega
      have filled : m * 2 ^ 52 = n * 2 ^ (104 - k) := by
        apply Nat.eq_of_mul_eq_mul_right (Nat.two_pow_pos k)
        rw [Nat.mul_right_comm, value, Nat.mul_assoc, Nat.mul_assoc, ← Nat.pow_add, ← Nat.pow_add,
          Nat.sub_add_cancel (by omega)]
      have denotes := denotes_round (a := 104 - k) .positive above (by omega) (by omega)
      rw [nearestNat_whole (.of_le (Nat.le_of_lt small)), ← filled,
        show (-(104 - k : Nat) : Int) = e + -52 by omega] at denotes
      exact denotes

theorem denotes_ofNat {n : Nat} (small : n ≤ 2 ^ 63) :
    Denotes (Float.ofNat n).toModel.unpack (nearestNat n) := by
  change Denotes (Float.ofScientific n false 0).toModel.unpack (nearestNat n)
  unfold Float.ofScientific
  by_cases few : n < 2 ^ 53
  · rw [dif_pos ⟨few, by decide⟩]
    have one : (Float.ofBits 0x3FF0000000000000).toModel.unpack =
      .finite .positive (2 ^ 52) (-52) (by decide) := rfl
    have denotes := (denotes_toFloat few).mul_one few
    rw [← one, ← denotes.unpack_pack] at denotes
    rw [nearestNat_whole (.of_le (Nat.le_of_lt few))]
    exact denotes
  · rw [dif_neg fun fast => few fast.1]
    change Denotes (Float.Model.pack (UnpackedFloat.ofScientific .binary64 n 0)).unpack _
    have denotes := denotes_round (a := 53) .positive (show 0 < n by omega) small (by omega)
    rw [← ofScientific_eq (by omega)] at denotes
    rwa [denotes.unpack_pack]

theorem denotes_ofInt {n : Int} (small : n.natAbs ≤ 2 ^ 63) :
    Denotes (Float.ofInt n).toModel.unpack (nearest n) := by
  cases n with
  | ofNat n => exact denotes_ofNat small
  | negSucc n =>
    have denotes := (denotes_ofNat (n := n + 1) small).neg
    rw [← denotes.unpack_pack] at denotes
    rw [nearest, if_pos (Int.negSucc_lt_zero n)]
    exact denotes

/-! Comparison. -/

section Comparison
variable {x y : Float} {v w : Int}

theorem lt_iff (first : Denotes x.toModel.unpack v) (second : Denotes y.toModel.unpack w) :
    x < y ↔ v < w := by
  change decide ((x.toModel.unpack.compare y.toModel.unpack == some .lt) = true) = true ↔ v < w
  rw [first.compare second, decide_eq_true_eq, beq_iff_eq, Option.some_inj, Int.compare_eq_lt]

theorem le_iff (first : Denotes x.toModel.unpack v) (second : Denotes y.toModel.unpack w) :
    x ≤ y ↔ v ≤ w := by
  change decide ((x.toModel.unpack.compare y.toModel.unpack).any (·.isLE) = true) = true ↔ v ≤ w
  rw [first.compare second, decide_eq_true_eq, Option.any_some, Int.isLE_compare]

end Comparison

end Script.Double
