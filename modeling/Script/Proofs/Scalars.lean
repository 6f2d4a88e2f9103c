import Script.Eval.Operator

/-! What operators answer with: a value of its own, never a reference to something that is shared. -/

namespace Script

/-- No list, object, class or function. -/
def Value.Scalar : Value → Prop
  | .list _ | .object _ | .cls _ | .function _ => False
  | _ => True

namespace BinOp

variable {op : BinOp} {v : Value}

theorem scalar_within {n : Option Int64} (ran : onIntegers.within op n = .ok v) : v.Scalar := by
  cases n with
  | none => cases ran
  | some n =>
    cases ran
    trivial

theorem scalar_onIntegers {l r : Int64} (ran : op.onIntegers l r = .ok v) : v.Scalar := by
  unfold onIntegers at ran
  split at ran
  · exact scalar_within ran
  · exact scalar_within ran
  · exact scalar_within ran
  · split at ran
    · cases ran
    · cases ran
      trivial
  · split at ran
    · cases ran
    · exact scalar_within ran
  · split at ran
    · cases ran
    · exact scalar_within ran
  · split at ran
    · cases ran
      trivial
    · cases ran
      trivial
  · cases ran

theorem scalar_onDoubles {l r : Float} (ran : op.onDoubles l r = .ok v) : v.Scalar := by
  unfold onDoubles at ran
  split at ran
  · cases ran
    trivial
  · cases ran
    trivial
  · cases ran
    trivial
  · split at ran
    · cases ran
    · cases ran
      trivial
  · split at ran
    · cases ran
    · cases ran
      trivial
  · split at ran
    · cases ran
    · cases ran
      trivial
  · cases ran
    trivial
  · cases ran

theorem scalar_arithmetic {l r : Value} (ran : op.arithmetic l r = .ok v) : v.Scalar := by
  unfold arithmetic at ran
  split at ran
  · exact scalar_onIntegers ran
  · split at ran
    · exact scalar_onDoubles ran
    · cases ran

theorem scalar_ordered {test : Float → Float → Bool} {l r : Value}
    (ran : op.ordered test l r = .ok v) : v.Scalar := by
  unfold ordered at ran
  split at ran
  · cases ran
    trivial
  · cases ran

theorem scalar_member {h : Heap} {l r : Value} (ran : h.member l r = .ok v) : v.Scalar := by
  unfold Heap.member at ran
  split at ran
  · cases ran
    trivial
  · split at ran
    · cases ran
      trivial
    · cases ran
  · split at ran
    · cases ran
      trivial
    · cases ran
  · cases ran

theorem scalar_apply {h : Heap} {l r : Value} (ran : op.apply h l r = .ok v) : v.Scalar := by
  unfold apply at ran
  split at ran
  · cases ran
    trivial
  · cases ran
    trivial
  · exact scalar_member ran
  · exact scalar_ordered ran
  · exact scalar_ordered ran
  · exact scalar_ordered ran
  · exact scalar_ordered ran
  · split at ran
    · cases ran
      trivial
    · cases ran
    · cases ran
    · exact scalar_arithmetic ran
  · exact scalar_arithmetic ran

end BinOp

theorem Value.scalar_negate {v w : Value} (ran : v.negate = .ok w) : w.Scalar := by
  unfold Value.negate at ran
  split at ran
  · split at ran
    · cases ran
      trivial
    · cases ran
  · cases ran
    trivial
  · cases ran

end Script
