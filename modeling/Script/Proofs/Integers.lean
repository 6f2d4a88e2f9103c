import Mathlib.Data.Rat.Floor
import Script.Eval.Expression
import Script.Proofs.Limits

/-! Arithmetic on integers. It gives the integer that the mathematical operation gives, or says that
this one does not fit in 64 bits: nothing wraps and nothing becomes a double. -/

namespace Script

namespace Integer

theorem fits_toInt (n : Int64) : Fits n.toInt :=
  ⟨n.le_toInt, n.toInt_lt⟩

theorem exact_of_fits {n : Int} (fits : Fits n) : ∃ k : Int64, exact n = some k ∧ k.toInt = n :=
  ⟨Int64.ofInt n, if_pos fits, Int64.toInt_ofInt_of_le fits.1 fits.2⟩

theorem exact_toInt (n : Int64) : exact n.toInt = some n := by
  rw [exact, if_pos (fits_toInt n), Int64.ofInt_toInt]

theorem exact_eq_none {n : Int} (beyond : ¬ Fits n) : exact n = none :=
  if_neg beyond

/-! Quotients. -/

/-- The one quotient of two integers that does not fit. -/
def Outgrows (l r : Int64) : Prop :=
  l = Int64.minValue ∧ r = -1

instance (l r : Int64) : Decidable (Outgrows l r) :=
  inferInstanceAs (Decidable (_ ∧ _))

theorem outgrows_iff {l r : Int64} :
    Outgrows l r ↔ l.toInt = -9223372036854775808 ∧ r.toInt = -1 := by
  rw [Outgrows, ← Int64.toInt_inj, ← Int64.toInt_inj]
  rfl

theorem toInt_ne_zero {r : Int64} (nonzero : r ≠ 0) : r.toInt ≠ 0 :=
  fun zero => nonzero (Int64.toInt_inj.1 zero)

theorem fits_ediv_iff {a s : Int} (positive : 0 < s) :
    Fits (a / s) ↔ -9223372036854775808 * s ≤ a ∧ a < 9223372036854775808 * s := by
  rw [Fits, Int.le_ediv_iff_mul_le positive, Int.ediv_lt_iff_lt_mul positive]

theorem fits_fdiv_iff {l r : Int64} (nonzero : r ≠ 0) :
    Fits (l.toInt.fdiv r.toInt) ↔ ¬ Outgrows l r := by
  have bounds : Fits l.toInt := fits_toInt l
  have divisor := toInt_ne_zero nonzero
  unfold Fits at bounds
  rw [outgrows_iff]
  rcases Int.lt_or_gt_of_ne divisor with negative | positive
  · have turned : l.toInt.fdiv r.toInt = (-l.toInt) / (-r.toInt) := by
      rw [← Int.neg_fdiv_neg, Int.fdiv_eq_ediv_of_nonneg _ (by omega)]
    rw [turned, fits_ediv_iff (by omega)]
    omega
  · rw [Int.fdiv_eq_ediv_of_nonneg _ (by omega), fits_ediv_iff positive]
    omega

theorem fits_tdiv_iff {l r : Int64} (nonzero : r ≠ 0) :
    Fits (l.toInt.tdiv r.toInt) ↔ ¬ Outgrows l r := by
  have bounds : Fits l.toInt := fits_toInt l
  have divisor := toInt_ne_zero nonzero
  unfold Fits at bounds ⊢
  rw [outgrows_iff]
  have size := Int.natAbs_tdiv l.toInt r.toInt
  by_cases unit : r.toInt.natAbs = 1
  · rcases Int.natAbs_eq r.toInt with plus | minus
    · rw [plus, unit, Nat.cast_one, Int.tdiv_one]
      omega
    · rw [minus, unit, Nat.cast_one, Int.tdiv_neg, Int.tdiv_one]
      omega
  · have halved : (l.toInt.tdiv r.toInt).natAbs ≤ l.toInt.natAbs / 2 := by
      rw [size]
      exact Nat.div_le_div_left (by omega) (by decide)
    omega

/-- Rounding down from the quotient rounded towards zero. -/
theorem fdiv_eq_of_signs (l : Int) {r : Int} (nonzero : r ≠ 0) :
    l.fdiv r =
      if l.tmod r ≠ 0 ∧ decide (l < 0) ≠ decide (r < 0) then l.tdiv r - 1 else l.tdiv r := by
  rw [Int.fdiv_eq_tdiv]
  by_cases divides : r ∣ l
  · simp [divides, Int.tmod_eq_zero_of_dvd divides]
  · have rest : l.tmod r ≠ 0 := fun none => divides (Int.dvd_of_tmod_eq_zero none)
    rcases Int.lt_or_gt_of_ne nonzero with negative | positive
    · have sign := Int.sign_eq_neg_one_of_neg negative
      by_cases below : l < 0 <;> simp [divides, rest, below, negative, sign] <;> omega
    · have sign := Int.sign_eq_one_of_pos positive
      by_cases below : l < 0 <;> simp [divides, rest, below, sign] <;> omega

theorem floorDiv_eq {l r : Int64} (nonzero : r ≠ 0) :
    floorDiv l r = exact (l.toInt.fdiv r.toInt) := by
  by_cases outgrows : Outgrows l r
  · rw [floorDiv, exact_eq_none (mt (fits_tdiv_iff nonzero).1 (not_not_intro outgrows)),
      exact_eq_none (mt (fits_fdiv_iff nonzero).1 (not_not_intro outgrows))]
    rfl
  · obtain ⟨q, found, same⟩ := exact_of_fits ((fits_tdiv_iff nonzero).2 outgrows)
    rw [floorDiv, found, Option.bind_some, fdiv_eq_of_signs l.toInt (toInt_ne_zero nonzero), ← same]
    split
    · rfl
    · exact (exact_toInt q).symm

/-- The floor of the exact quotient. -/
theorem floor_div (l r : Int) : ⌊(l : ℚ) / r⌋ = l.fdiv r := by
  rcases Int.lt_or_le r 0 with negative | nonneg
  · obtain ⟨d, size⟩ := Int.eq_ofNat_of_zero_le (show 0 ≤ -r by omega)
    have turned : (l : ℚ) / r = ((-l : Int) : ℚ) / (d : ℕ) := by
      have cast : ((d : ℕ) : ℚ) = ((-r : Int) : ℚ) := by rw [size]; rfl
      rw [cast, Int.cast_neg, Int.cast_neg, neg_div_neg_eq]
    rw [turned, Rat.floor_intCast_div_natCast, ← Int.neg_fdiv_neg,
      Int.fdiv_eq_ediv_of_nonneg _ (by omega), size]
  · obtain ⟨d, rfl⟩ := Int.eq_ofNat_of_zero_le nonneg
    exact (Rat.floor_intCast_div_natCast l d).trans (Int.fdiv_eq_ediv_of_nonneg _ nonneg).symm

/-- The remainder that goes with the truncated quotient. -/
structure Remainder (l r n : Int) : Prop where
  below : |n| < |r|
  nonneg : 0 ≤ l → 0 ≤ n
  nonpos : l ≤ 0 → n ≤ 0
  divides : r ∣ l - n

theorem remainder_tmod (l : Int) {r : Int} (nonzero : r ≠ 0) : Remainder l r (l.tmod r) where
  below := by
    rw [Int.abs_eq_natAbs, Int.abs_eq_natAbs, Int.natAbs_tmod, Nat.cast_lt]
    exact Nat.mod_lt _ (Int.natAbs_pos.2 nonzero)
  nonneg := Int.tmod_nonneg r
  nonpos := fun negative => by
    have turned := Int.tmod_nonneg r (Int.neg_nonneg_of_nonpos negative)
    rw [Int.neg_tmod] at turned
    omega
  divides := ⟨l.tdiv r, by have := Int.mul_tdiv_add_tmod l r; omega⟩

theorem Remainder.fits {l n : Int} {r : Int64} (remainder : Remainder l r.toInt n) : Fits n := by
  have bounds : Fits r.toInt := fits_toInt r
  have below := remainder.below
  unfold Fits at bounds ⊢
  rw [Int.abs_eq_natAbs, Int.abs_eq_natAbs] at below
  omega

end Integer

/-! Runs of operators. -/

/-- How a run of `op` ends whose exact result is `n`: with the integer if it fits, and otherwise with
an overflow at `span`. -/
structure Exactly (op : BinOp) (n : Int) (span : Span) (m : Machine)
    (ran : EStateM.Result Halt Machine Value) : Prop where
  fits : Integer.Fits n → ∃ k : Int64, k.toInt = n ∧ ran = .ok (.int k) m
  beyond : ¬ Integer.Fits n → ran = .error (.fault ⟨.running (.overflow op), span⟩) m

theorem lift_within (op : BinOp) (n : Int) (span : Span) (m : Machine) :
    Exactly op n span m (Eval.lift (BinOp.onIntegers.within op (Integer.exact n)) span m) where
  fits fits := by
    obtain ⟨k, found, same⟩ := Integer.exact_of_fits fits
    exact ⟨k, same, by rw [found]; rfl⟩
  beyond beyond := by
    rw [Integer.exact_eq_none beyond]
    rfl

theorem lift_negate (n : Int64) (span : Span) (m : Machine) :
    Exactly .sub (-n.toInt) span m (Eval.lift (Value.negate (.int n)) span m) := by
  have same : Value.negate (.int n) = BinOp.onIntegers.within .sub (Integer.exact (-n.toInt)) := by
    simp only [Value.negate, Integer.neg]
    cases Integer.exact (-n.toInt) <;> rfl
  rw [same]
  exact lift_within _ _ _ _

namespace Host

variable {h : Host} {frame : Frame} {left right : Expr} {m m₁ m₂ : Machine} {v w : Value}

theorem evaluate_binary (op : BinOp) (span : Span) (first : h.evaluate frame left m = .ok v m₁)
    (second : h.evaluate frame right m₁ = .ok w m₂) :
    h.evaluate frame (.binary op left right span) m =
      Eval.lift (op.apply m₂.heap v w) span m₂ := by
  rw [Host.evaluate, ran_bind first, ran_bind second]
  rfl

theorem evaluate_negate (span : Span) (first : h.evaluate frame left m = .ok v m₁) :
    h.evaluate frame (.negate left span) m = Eval.lift v.negate span m₁ := by
  rw [Host.evaluate, ran_bind first]

/-- Sums, differences, products and negations of integers are exact or overflow. So is the quotient
that `//` rounds down, and with it the remainder of the truncated quotient, which overflow for one
pair alone. Nothing is divided by zero. -/
theorem integers_exact {l r : Int64} (span : Span)
    (first : h.evaluate frame left m = .ok (.int l) m₁)
    (second : h.evaluate frame right m₁ = .ok (.int r) m₂) :
    let run (op : BinOp) := h.evaluate frame (.binary op left right span) m
    let fails (f : RunFault) := EStateM.Result.error (Halt.fault ⟨.running f, span⟩) m₂
    Exactly .add (l.toInt + r.toInt) span m₂ (run .add) ∧
    Exactly .sub (l.toInt - r.toInt) span m₂ (run .sub) ∧
    Exactly .mul (l.toInt * r.toInt) span m₂ (run .mul) ∧
    Exactly .sub (-l.toInt) span m₁ (h.evaluate frame (.negate left span) m) ∧
    (r = 0 → ∀ op ∈ [BinOp.div, .floorDiv, .rem], run op = fails .divisionByZero) ∧
    (r ≠ 0 →
      Exactly .floorDiv ⌊(l.toInt : ℚ) / r.toInt⌋ span m₂ (run .floorDiv) ∧
      (Integer.Fits ⌊(l.toInt : ℚ) / r.toInt⌋ ↔ ¬ Integer.Outgrows l r) ∧
      (Integer.Outgrows l r → run .rem = fails (.overflow .rem)) ∧
      (¬ Integer.Outgrows l r →
        ∃ k : Int64, Integer.Remainder l.toInt r.toInt k.toInt ∧ run .rem = .ok (.int k) m₂)) := by
  intro run fails
  have ran (op : BinOp) : run op = Eval.lift (op.apply m₂.heap (.int l) (.int r)) span m₂ :=
    evaluate_binary op span first second
  refine ⟨?_, ?_, ?_, ?_, fun zero op listed => ?_, fun nonzero => ⟨?_, ?_, fun outgrows => ?_,
    fun inside => ?_⟩⟩
  · rw [ran]
    exact lift_within _ _ _ _
  · rw [ran]
    exact lift_within _ _ _ _
  · rw [ran]
    exact lift_within _ _ _ _
  · rw [evaluate_negate span first]
    exact lift_negate l span m₁
  · rw [ran]
    simp only [List.mem_cons, List.not_mem_nil, or_false] at listed
    rcases listed with rfl | rfl | rfl <;>
      simp only [BinOp.apply, BinOp.arithmetic, BinOp.onIntegers, if_pos zero] <;> rfl
  · rw [ran, Integer.floor_div]
    simp only [BinOp.apply, BinOp.arithmetic, BinOp.onIntegers, if_neg nonzero,
      Integer.floorDiv_eq nonzero]
    exact lift_within _ _ _ _
  · rw [Integer.floor_div]
    exact Integer.fits_fdiv_iff nonzero
  · have beyond := mt (Integer.fits_tdiv_iff nonzero).1 (not_not_intro outgrows)
    rw [ran]
    simp only [BinOp.apply, BinOp.arithmetic, BinOp.onIntegers, if_neg nonzero, Integer.rem,
      Integer.exact_eq_none beyond]
    rfl
  · obtain ⟨q, quotient, -⟩ := Integer.exact_of_fits ((Integer.fits_tdiv_iff nonzero).2 inside)
    have remainder := Integer.remainder_tmod l.toInt (Integer.toInt_ne_zero nonzero)
    obtain ⟨k, found, same⟩ := Integer.exact_of_fits remainder.fits
    refine ⟨k, same ▸ remainder, ?_⟩
    rw [ran]
    simp only [BinOp.apply, BinOp.arithmetic, BinOp.onIntegers, if_neg nonzero, Integer.rem,
      quotient, Option.bind_some, found]
    rfl

/-- How an operator on two integers ends in a script without variables. -/
def onInts (op : BinOp) (l r : Int64) : EStateM.Result Halt Machine Value :=
  (Host.of 0 (.inMemory ⟨[], []⟩ .working)).evaluate State.start.frame
    (.binary op (.literal (.int l) default) (.literal (.int r) default) default)
    State.start.machine

theorem evaluate_int (h : Host) (frame : Frame) (n : Int64) (span : Span) (m : Machine) :
    h.evaluate frame (.literal (.int n) span) m = .ok (.int n) m :=
  rfl

/-- The quotient that does not fit, and a remainder below zero. -/
theorem least_by_minus_one :
    let fails (op : BinOp) : EStateM.Result Halt Machine Value :=
      .error (.fault ⟨.running (.overflow op), default⟩) State.start.machine
    onInts .floorDiv Int64.minValue (-1) = fails .floorDiv ∧
      onInts .rem Int64.minValue (-1) = fails .rem ∧
      ∃ k : Int64, Integer.Remainder (-7) 2 k.toInt ∧
        onInts .rem (-7) 2 = .ok (.int k) State.start.machine := by
  intro fails
  obtain ⟨-, -, -, -, -, least⟩ := integers_exact default
    (evaluate_int _ _ Int64.minValue default _) (evaluate_int _ _ (-1) default _)
  obtain ⟨-, -, -, -, -, seven⟩ := integers_exact default
    (evaluate_int _ _ (-7) default _) (evaluate_int _ _ 2 default _)
  obtain ⟨quotient, fits, rest, -⟩ := least (by decide)
  have outgrows : Integer.Outgrows Int64.minValue (-1) := by decide
  exact ⟨quotient.beyond (mt fits.1 (not_not_intro outgrows)), rest outgrows,
    (seven (by decide)).2.2.2 (by decide)⟩

end Host

end Script
