import Script.Eval.Expression
import Script.Eval.Loop
import Script.Eval.Module

/-! Execution of statements, and the knot that ties calls and modules back to it. -/

namespace Script

namespace Host

/-- The bound of a range. -/
def bound (h : Host) (e : Expr) : Exec Int64 :=
  Exec.eval fun frame => do
    match ← h.evaluate frame e with
    | .int n => return n
    | v => Eval.fail (.rangeBound v.kind) e.span

/-- Runs a loop over what its header yields at the start. -/
def iterate (h : Host) (header : Header) (span : Span) (body : Exec Flow) : Exec Flow := do
  match header with
  | .range name start stop =>
    let a ← h.bound start
    let b ← h.bound stop
    Exec.count name body (b.toInt - a.toInt + 1).toNat a.toInt
  | .each name e =>
    let vs ← Exec.eval fun frame => do
      let v ← h.evaluate frame e
      Eval.lift ((← Eval.heap).items v) span
    Exec.visit body (vs.map fun v => [(name, v)])
  | .pairs key value e =>
    let ps ← Exec.eval fun frame => do
      let v ← h.evaluate frame e
      Eval.lift ((← Eval.heap).pairs v) span
    Exec.visit body (ps.map fun p => [(key, p.1), (value, p.2)])

/-- Assigns to a target, whose own expressions are evaluated after the value. -/
def assign (h : Host) (target : Target) (value : Value) (span : Span) : Exec Unit :=
  match target with
  | .name x => Exec.assign x value
  | .index object key => Exec.eval fun frame => do
    let o ← h.evaluate frame object
    let k ← h.evaluate frame key
    Eval.changeHeap (← Eval.lift ((← Eval.heap).setIndexed o k value) span)
  | .property object x => Exec.eval fun frame => do
    let o ← h.evaluate frame object
    Eval.changeHeap (← Eval.lift (o.setProperty x value) span)

/-- Adds members to a class, one after another. Property values see no variables. -/
def addMembers (h : Host) (detached : Frame) : List Member → Class → Eval Class
  | [], c => return c
  | .property name e _ :: rest, c => do
    let v ← h.evaluate detached e
    h.addMembers detached rest { c with properties := c.properties.set name v }
  | .method decl :: rest, c => do
    let r ← Eval.onHeap (·.newFunction ⟨decl, none, false⟩)
    h.addMembers detached rest (c.setMethod decl.name r)
  | .constructor decl :: rest, c => do
    let r ← Eval.onHeap (·.newFunction ⟨decl, none, false⟩)
    h.addMembers detached rest { c with constructor := some r }

/-- The class that a class statement declares. -/
def declaredClass (h : Host) (frame : Frame) (name : String) (parent : Option ClassPath)
    (members : List Member) (span : Span) : Eval Value := do
  let p ← match parent with
    | none => pure none
    | some path => some <$> Eval.lift ((← Eval.heap).resolveClass frame path) span
  let c := Class.under (← Eval.heap) name p
  let detached ← Eval.onHeap Frame.new
  let c ← h.addMembers detached members c
  return .cls (← Eval.onHeap (·.newClass c))

mutual

/-- Runs a statement. -/
def execute (h : Host) : Stmt → Exec Flow
  | .expression e _ => do
    let _ ← Exec.eval fun frame => h.evaluate frame e
    return .done
  | .print e span => do
    Exec.eval fun frame => do
      let v ← h.evaluate frame e
      h.print v span
    return .done
  | .assign target e span => do
    let v ← Exec.eval fun frame => h.evaluate frame e
    h.assign target v span
    return .done
  | .branch branches otherwise _ => do
    match ← executeBranches h branches with
    | some flow => return flow
    | none =>
      match otherwise with
      | some b => executeBlock h b
      | none => return .done
  | .loop e b _ =>
    Exec.repeatWhile (Exec.eval fun frame => Eval.truth (h.evaluate frame e)) (executeBlock h b)
      h.steps
  | .iterate header b span => h.iterate header span (executeBlock h b)
  | .leave _ => return .left
  | .give none _ => return .gave .null
  | .give (some e) _ => return .gave (← Exec.eval fun frame => h.evaluate frame e)
  | .function decl _ => do
    Exec.eval fun frame => do
      let r ← Eval.onHeap (·.newFunction ⟨decl, none, false⟩)
      Eval.changeHeap fun heap => heap.define frame.table decl.name r
    return .done
  | .init _ span => Exec.eval fun _ => Eval.fail .strayInit span
  | .cls name parent members span => do
    let v ← Exec.eval fun frame => h.declaredClass frame name parent members span
    Exec.assign name v
    return .done
  | .super args span => do
    Exec.eval fun frame => do
      let (self, c, f) ← frame.parentConstructor span
      let vs ← h.evaluateAll frame args
      h.construct frame c f self vs span
    return .done
  | .share names span => do
    Exec.eval fun frame => frame.share span names
    return .done
  | .imports file items span => do
    h.importFile file items span
    return .done
  | .load file name span => do
    h.loadFile file name span
    return .done

/-- Runs statements up to the first that does not run through. -/
def executeBlock (h : Host) : Block → Exec Flow
  | [] => return .done
  | s :: rest => do
    match ← execute h s with
    | .done => executeBlock h rest
    | flow => return flow

/-- Runs the block of the first branch whose condition holds. -/
def executeBranches (h : Host) : List (Expr × Block) → Exec (Option Flow)
  | [] => return none
  | (e, b) :: rest => do
    if (← Exec.eval fun frame => Eval.truth (h.evaluate frame e)) then
      return some (← executeBlock h b)
    else
      executeBranches h rest

end

end Host

/-- Runs a block in a context. Calls and modules nest no deeper than `limit`, and a loop goes
round no more often than that. -/
def run : Nat → Context → Block → Exec Flow
  | 0, _, _ => throw .exhausted
  | n + 1, c, b => Host.executeBlock ⟨c, n, run n⟩ b

/-- What the statements of a script in a context are run with. -/
def Host.of (limit : Nat) (c : Context) : Host :=
  ⟨c, limit, run limit⟩

end Script
