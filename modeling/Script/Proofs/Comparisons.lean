import Mathlib.Logic.ExistsUnique
import Script.Proofs.Doubles.Conversion
import Script.Proofs.Integers

/-! Comparison of integers. Equality tells any two apart, but the other comparisons see the doubles
nearest to them. -/

namespace Script

namespace Integer

theorem denotes_toDouble (n : Int64) :
    Double.Denotes (toDouble n).toModel.unpack (Double.nearest n.toInt) := by
  have bounds : Fits n.toInt := fits_toInt n
  unfold Fits at bounds
  exact Double.denotes_ofInt (by omega)

end Integer

/-- The four comparisons of a run come out as the order of two numbers. -/
structure Orders (run : BinOp → EStateM.Result Halt Machine Value) (m : Machine) (l r : Int) :
    Prop where
  lt : run .lt = .ok (.bool (decide (l < r))) m
  le : run .le = .ok (.bool (decide (l ≤ r))) m
  gt : run .gt = .ok (.bool (decide (r < l))) m
  ge : run .ge = .ok (.bool (decide (r ≤ l))) m

namespace Orders

variable {run : BinOp → EStateM.Result Halt Machine Value} {m : Machine} {l r x y : Int}

theorem ok_bool_iff {p : Prop} [Decidable p] {b : Bool} :
    EStateM.Result.ok (ε := Halt) (Value.bool (decide p)) m = .ok (.bool b) m ↔ (p ↔ b = true) := by
  rw [EStateM.Result.ok.injEq, Value.bool.injEq, and_iff_left rfl, Bool.eq_iff_iff, decide_eq_true_eq]

theorem iff (orders : Orders run m x y) :
    Orders run m l r ↔
      (x < y ↔ l < r) ∧ (x ≤ y ↔ l ≤ r) ∧ (y < x ↔ r < l) ∧ (y ≤ x ↔ r ≤ l) := by
  have same (op : BinOp) {p q : Prop} [Decidable p] [Decidable q]
      (ran : run op = .ok (.bool (decide p)) m) :
      run op = .ok (.bool (decide q)) m ↔ (p ↔ q) := by
    rw [ran, ok_bool_iff, decide_eq_true_eq]
  rw [← same .lt orders.lt, ← same .le orders.le, ← same .gt orders.gt, ← same .ge orders.ge]
  exact ⟨fun exact => ⟨exact.lt, exact.le, exact.gt, exact.ge⟩,
    fun ⟨lt, le, gt, ge⟩ => ⟨lt, le, gt, ge⟩⟩

/-- Exactly one of the three holds if equality does, which the order bears out, or if the numbers
differ. -/
theorem exists_unique {p : Prop} [Decidable p] (orders : Orders run m x y)
    (equal : run .eq = .ok (.bool (decide p)) m) (same : p → x = y) :
    (∃! op, op ∈ [BinOp.lt, .eq, .gt] ∧ run op = .ok (.bool true) m) ↔ p ∨ x ≠ y := by
  have which (op : BinOp) : (op ∈ [BinOp.lt, .eq, .gt] ∧ run op = .ok (.bool true) m) ↔
      op = .lt ∧ x < y ∨ op = .eq ∧ p ∨ op = .gt ∧ y < x := by
    have less : run .lt = .ok (.bool true) m ↔ x < y := by
      rw [orders.lt, ok_bool_iff, iff_true_right rfl]
    have equals : run .eq = .ok (.bool true) m ↔ p := by
      rw [equal, ok_bool_iff, iff_true_right rfl]
    have greater : run .gt = .ok (.bool true) m ↔ y < x := by
      rw [orders.gt, ok_bool_iff, iff_true_right rfl]
    rw [← less, ← equals, ← greater]
    simp only [List.mem_cons, List.not_mem_nil, or_false]
    constructor
    · rintro ⟨rfl | rfl | rfl, holds⟩
      · exact .inl ⟨rfl, holds⟩
      · exact .inr (.inl ⟨rfl, holds⟩)
      · exact .inr (.inr ⟨rfl, holds⟩)
    · rintro (⟨rfl, holds⟩ | ⟨rfl, holds⟩ | ⟨rfl, holds⟩)
      · exact ⟨.inl rfl, holds⟩
      · exact ⟨.inr (.inl rfl), holds⟩
      · exact ⟨.inr (.inr rfl), holds⟩
  simp only [which]
  constructor
  · rintro ⟨op, ⟨-, lt⟩ | ⟨-, holds⟩ | ⟨-, gt⟩, -⟩
    · exact .inr (Int.ne_of_lt lt)
    · exact .inl holds
    · exact .inr (Int.ne_of_gt gt)
  · intro apart
    rcases Int.lt_trichotomy x y with lt | eq | gt
    · refine ⟨.lt, .inl ⟨rfl, lt⟩, ?_⟩
      rintro op (⟨rfl, -⟩ | ⟨-, holds⟩ | ⟨-, gt⟩)
      · rfl
      · exact absurd (same holds) (Int.ne_of_lt lt)
      · omega
    · refine ⟨.eq, .inr (.inl ⟨rfl, apart.resolve_right (not_not_intro eq)⟩), ?_⟩
      rintro op (⟨-, lt⟩ | ⟨rfl, -⟩ | ⟨-, gt⟩)
      · omega
      · rfl
      · omega
    · refine ⟨.gt, .inr (.inr ⟨rfl, gt⟩), ?_⟩
      rintro op (⟨-, lt⟩ | ⟨-, holds⟩ | ⟨rfl, -⟩)
      · omega
      · exact absurd (same holds) (Int.ne_of_gt gt)
      · rfl

end Orders

namespace Host

variable {h : Host} {frame : Frame} {left right : Expr} {m m₁ m₂ : Machine} {l r : Int64}

section
variable (span : Span) (first : h.evaluate frame left m = .ok (.int l) m₁)
  (second : h.evaluate frame right m₁ = .ok (.int r) m₂)

include first second

theorem orders_nearest :
    Orders (fun op => h.evaluate frame (.binary op left right span) m) m₂
      (Double.nearest l.toInt) (Double.nearest r.toInt) := by
  have x := Integer.denotes_toDouble l
  have y := Integer.denotes_toDouble r
  constructor
  · rw [evaluate_binary .lt span first second, ← decide_eq_decide.2 (Double.lt_iff x y)]
    rfl
  · rw [evaluate_binary .le span first second, ← decide_eq_decide.2 (Double.le_iff x y)]
    rfl
  · rw [evaluate_binary .gt span first second, ← decide_eq_decide.2 (Double.lt_iff y x)]
    rfl
  · rw [evaluate_binary .ge span first second, ← decide_eq_decide.2 (Double.le_iff y x)]
    rfl

theorem equal_exact :
    h.evaluate frame (.binary .eq left right span) m = .ok (.bool (decide (l = r))) m₂ := by
  rw [evaluate_binary .eq span first second]
  have same : (l == r) = decide (l = r) := by rw [Bool.eq_iff_iff, beq_iff_eq, decide_eq_true_eq]
  rw [← same]
  rfl

/-- Comparisons of integers come out as the order of the doubles nearest to them, while equality is
exact. So they are right, and exactly one of less, equal and greater holds, for an integer and
itself and for any two whose nearest doubles differ. Integers of at most 53 bits are doubles. -/
theorem comparisons_rounded :
    let run (op : BinOp) := h.evaluate frame (.binary op left right span) m
    let x := Double.nearest l.toInt
    let y := Double.nearest r.toInt
    Orders run m₂ x y ∧ run .eq = .ok (.bool (decide (l = r))) m₂ ∧
      (Orders run m₂ l.toInt r.toInt ↔ l = r ∨ x ≠ y) ∧
      ((∃! op, op ∈ [BinOp.lt, .eq, .gt] ∧ run op = .ok (.bool true) m₂) ↔ l = r ∨ x ≠ y) ∧
      (l.toInt.natAbs ≤ 2 ^ 53 → r.toInt.natAbs ≤ 2 ^ 53 → Orders run m₂ l.toInt r.toInt) := by
  intro run x y
  have orders : Orders run m₂ x y := orders_nearest span first second
  have equal : run .eq = .ok (.bool (decide (l = r))) m₂ := equal_exact span first second
  have up : l.toInt ≤ r.toInt → x ≤ y := Double.nearest_mono
  have down : r.toInt ≤ l.toInt → y ≤ x := Double.nearest_mono
  have same : l = r ↔ l.toInt = r.toInt := Int64.toInt_inj.symm
  have exact : Orders run m₂ l.toInt r.toInt ↔ l = r ∨ x ≠ y := by
    rw [orders.iff, same]
    omega
  refine ⟨orders, equal, exact, ?_, fun few few' => ?_⟩
  · exact orders.exists_unique equal fun equal => congrArg (Double.nearest ·.toInt) equal
  · have left : x = l.toInt := Double.nearest_of_small few
    have right : y = r.toInt := Double.nearest_of_small few'
    rw [exact, same]
    omega

end

/-- Two integers that are no doubles, but the doubles nearest to them differ. -/
theorem ordered_neighbours :
    Orders (onInts · 9007199254740993 9007199254740995) State.start.machine
      9007199254740993 9007199254740995 := by
  obtain ⟨-, -, exact, -⟩ := comparisons_rounded default
    (evaluate_int (.of 0 (.inMemory ⟨[], []⟩ .working)) State.start.frame 9007199254740993 default
      State.start.machine)
    (evaluate_int _ _ 9007199254740995 default _)
  exact exact.2 (.inr (by decide))

/-- The least positive integer that is no double is not told from the one below it. -/
theorem tied_neighbours :
    (9007199254740992 : Int64).toInt < (9007199254740993 : Int64).toInt ∧
      ∀ op ∈ [BinOp.lt, .eq, .gt],
        onInts op 9007199254740992 9007199254740993 = .ok (.bool false) State.start.machine := by
  refine ⟨by decide, fun op listed => ?_⟩
  simp only [List.mem_cons, List.not_mem_nil, or_false] at listed
  rcases listed with rfl | rfl | rfl <;> rfl

end Host

end Script
