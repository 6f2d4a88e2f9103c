import Script.Machine

/-! Loops. Each runs its body until that leaves the loop or gives a value. -/

namespace Script.Exec

/-- Goes round as long as the test holds and the body runs through. -/
def repeatWhile (test : Exec Bool) (body : Exec Flow) : Nat → Exec Flow
  | 0 => throw .exhausted
  | n + 1 => do
    if ← test then
      match ← body with
      | .done => repeatWhile test body n
      | .left => return .done
      | .gave v => return .gave v
    else
      return .done

/-- Runs the body once for each of the bindings. -/
def visit (body : Exec Flow) : List (List (String × Value)) → Exec Flow
  | [] => return .done
  | bindings :: rest => do
    bindings.forM fun b => assign b.1 b.2
    match ← body with
    | .done => visit body rest
    | .left => return .done
    | .gave v => return .gave v

/-- Runs the body for `n` integers on from `i`. -/
def count (name : String) (body : Exec Flow) : Nat → Int → Exec Flow
  | 0, _ => return .done
  | n + 1, i => do
    assign name (.int (Int64.ofInt i))
    match ← body with
    | .done => count name body n (i + 1)
    | .left => return .done
    | .gave v => return .gave v

end Script.Exec
