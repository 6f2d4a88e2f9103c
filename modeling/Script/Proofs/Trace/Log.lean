import Script.Repl

/-! The statements that a run executes, in their order. The log of a computation is read off the
computation itself: what is executed later is what the state then leads to. -/

namespace Script

/-- A statement at the moment when it is executed. -/
structure Moment where
  host : Host
  statement : Stmt
  state : State

/-- What is executed from a state on. -/
abbrev Log (σ : Type) := σ → List Moment

namespace Log

variable {σ α : Type}

def silent : Log σ := fun _ => []

/-- What `x` executes, and then what its answer leads to. -/
def chain (x : EStateM Halt σ α) (first : Log σ) (next : α → Log σ) : Log σ := fun s =>
  first s ++
    match x s with
    | .ok a t => next a t
    | .error _ _ => []

/-- What comes after a computation that executes nothing. -/
def after (x : EStateM Halt σ α) (next : α → Log σ) : Log σ := chain x silent next

def eval (l : Frame → Log Machine) : Log State := fun s => l s.frame s.machine

def inside (frame : Frame) (l : Log State) : Log Machine := fun m => l ⟨frame, m⟩

/-- Statements after one that runs through. -/
def onward (rest : Log State) : Flow → Log State
  | .done => rest
  | _ => silent

/-- The rounds of a loop after one that runs through, as often as the loop goes round. -/
def repeatWhile (test : Exec Bool) (tests : Log State) (body : Exec Flow) (bodies : Log State) :
    Nat → Log State
  | 0 => silent
  | n + 1 => chain test tests fun
    | true => chain body bodies (onward (repeatWhile test tests body bodies n))
    | false => silent

def visit (body : Exec Flow) (bodies : Log State) : List (List (String × Value)) → Log State
  | [] => silent
  | bindings :: rest =>
    after (bindings.forM fun b => Exec.assign b.1 b.2) fun _ =>
      chain body bodies (onward (visit body bodies rest))

def count (name : String) (body : Exec Flow) (bodies : Log State) : Nat → Int → Log State
  | 0, _ => silent
  | n + 1, i =>
    after (Exec.assign name (.int (Int64.ofInt i))) fun _ =>
      chain body bodies (onward (count name body bodies n (i + 1)))

/-- The statements of a program one by one. -/
def topLevel (run : Block → Exec Flow) (nested : Block → Log State) : Block → Log State
  | [] => silent
  | s :: rest => chain (run [s]) (nested [s]) (onward (topLevel run nested rest))

def program (run : Block → Exec Flow) (nested : Block → Log State) (b : Block) : Log State :=
  topLevel run nested (b.filter Stmt.isImport ++ b.filter (!·.isImport))

def source (run : Block → Exec Flow) (nested : Block → Log State) (text : String) : Log State :=
  match parse text with
  | .ok b => program run nested b
  | .error _ => silent

/-- What a module executes, from a frame of its own. -/
def module (l : Log State) : Log Machine := fun m =>
  let (frame, heap) := Frame.new m.heap
  l ⟨frame, ⟨heap, m.output, .empty⟩⟩

end Log

namespace Host

variable (h : Host) (nested : Context → Block → Log State)

def bodyLog (f : Function) (frame : Frame) : Log Machine :=
  .inside frame (nested h.context f.decl.body)

def callLog (caller : Frame) (r : FunctionRef) (args : List Value) (span : Span) : Log Machine :=
  .after Eval.heap fun heap => .after (checkArity (heap.function r) args span) fun _ =>
    let f := heap.function r
    let frame := f.scope.elim caller.callee caller.callee.enter
    h.bodyLog nested f (frame.assignAll f.decl.params args)

def constructLog (caller : Frame) (c : Class) (r : FunctionRef) (self : Value)
    (args : List Value) : Log Machine :=
  .after Eval.heap fun heap =>
    let f := heap.function r
    if f.decl.params.length ≠ args.length then .silent
    else
      let frame := { caller.callee with parent := c.parent }
      h.bodyLog nested f ((frame.assign selfName self).assignAll f.decl.params args)

def createLog (caller : Frame) (r : ClassRef) (args : List Value) : Log Machine :=
  .after Eval.heap fun heap => .after (Eval.newObject (heap.blankInstance r)) fun self =>
    match (heap.cls r).constructor with
    | some f => h.constructLog nested caller (heap.cls r) f self args
    | none => .silent

def callMethodLog (caller : Frame) (r : FunctionRef) (self : Value) (args : List Value)
    (span : Span) : Log Machine :=
  .after Eval.heap fun heap => .after (checkArity (heap.function r) args span) fun _ =>
    let f := heap.function r
    h.bodyLog nested f ((caller.callee.assign selfName self).assignAll f.decl.params args)

def callOnLog (caller : Frame) (v : Value) (callee : Callee) (args : List Value) (span : Span) :
    Log Machine :=
  match callee with
  | .method r => h.callMethodLog nested caller r v args span
  | .function r => h.callLog nested caller r args span
  | .cls r => h.createLog nested caller r args
  | .builtin => .silent

mutual

def evaluateLog (frame : Frame) : Expr → Log Machine
  | .literal _ _ | .name _ _ => .silent
  | .binary _ left right _ =>
    .chain (h.evaluate frame left) (evaluateLog frame left) fun _ => evaluateLog frame right
  | .negate e _ | .property e _ _ | .group e _ => evaluateLog frame e
  | .logic op left right _ =>
    .chain (Eval.truth (h.evaluate frame left)) (evaluateLog frame left) fun l =>
      if l == decide (op = .or) then .silent else evaluateLog frame right
  | .call name args span =>
    .after (frame.called name span) fun r =>
      .chain (h.evaluateAll frame args) (evaluateAllLog frame args) fun vs =>
        h.callLog nested frame r vs span
  | .method object name args span =>
    .chain (h.evaluate frame object) (evaluateLog frame object) fun v =>
      .after (v.callee name span) fun callee =>
        .chain (h.evaluateAll frame args) (evaluateAllLog frame args) fun vs =>
          h.callOnLog nested frame v callee vs span
  | .index object key _ =>
    .chain (h.evaluate frame object) (evaluateLog frame object) fun _ => evaluateLog frame key
  | .list items _ => evaluateAllLog frame items
  | .object entries _ => evaluateEntriesLog frame entries .empty
  | .create path args span =>
    .after Eval.heap fun heap => .after (Eval.lift (heap.resolveClass frame path) span) fun c =>
      .chain (h.evaluateAll frame args) (evaluateAllLog frame args) fun vs =>
        h.createLog nested frame c vs

def evaluateAllLog (frame : Frame) : List Expr → Log Machine
  | [] => .silent
  | e :: es => .chain (h.evaluate frame e) (evaluateLog frame e) fun _ => evaluateAllLog frame es

def evaluateEntriesLog (frame : Frame) : List (String × Expr) → Object Value → Log Machine
  | [], _ => .silent
  | (key, e) :: rest, o =>
    .chain (h.evaluate frame e) (evaluateLog frame e) fun v =>
      evaluateEntriesLog frame rest (o.set key v)

end

/-- What the module in a file executes. -/
def ofFileLog (file : String) : Log Machine :=
  match h.context.files.resolve (h.context.locate file) with
  | none => .silent
  | some path =>
    if h.context.chain.contains path then .silent
    else
      match h.context.files.read path with
      | .error _ => .silent
      | .ok text =>
        .module (.source (h.nested (h.context.module path)) (nested (h.context.module path)) text)

def iterateLog (header : Header) (span : Span) (body : Exec Flow) (bodies : Log State) :
    Log State :=
  match header with
  | .range name start stop =>
    .chain (h.bound start) (.eval fun frame => h.evaluateLog nested frame start) fun a =>
      .chain (h.bound stop) (.eval fun frame => h.evaluateLog nested frame stop) fun b =>
        .count name body bodies (b.toInt - a.toInt + 1).toNat a.toInt
  | .each name e =>
    .chain (Exec.eval fun frame => do
        let v ← h.evaluate frame e
        Eval.lift ((← Eval.heap).items v) span)
      (.eval fun frame => h.evaluateLog nested frame e)
      fun vs => .visit body bodies (vs.map fun v => [(name, v)])
  | .pairs key value e =>
    .chain (Exec.eval fun frame => do
        let v ← h.evaluate frame e
        Eval.lift ((← Eval.heap).pairs v) span)
      (.eval fun frame => h.evaluateLog nested frame e)
      fun ps => .visit body bodies (ps.map fun p => [(key, p.1), (value, p.2)])

def assignLog (target : Target) : Log State :=
  match target with
  | .name _ => .silent
  | .index object key => .eval fun frame =>
    .chain (h.evaluate frame object) (h.evaluateLog nested frame object) fun _ =>
      h.evaluateLog nested frame key
  | .property object _ => .eval fun frame => h.evaluateLog nested frame object

/-- The values of the properties. -/
def membersLog (detached : Frame) : List Member → Log Machine
  | [] => .silent
  | .property _ e _ :: rest =>
    .chain (h.evaluate detached e) (h.evaluateLog nested detached e) fun _ =>
      membersLog detached rest
  | .method decl :: rest | .constructor decl :: rest =>
    .after (Eval.onHeap (·.newFunction ⟨decl, none, false⟩)) fun _ => membersLog detached rest

def classLog (frame : Frame) (parent : Option ClassPath) (members : List Member) (span : Span) :
    Log Machine :=
  .after
    (match parent with
      | none => pure none
      | some path => do return some (← Eval.lift ((← Eval.heap).resolveClass frame path) span))
    fun _ => .after Eval.heap fun _ => .after (Eval.onHeap Frame.new) fun detached =>
      h.membersLog nested detached members

def superLog (frame : Frame) (args : List Expr) (span : Span) : Log Machine :=
  .after (frame.parentConstructor span) fun (self, c, f) =>
    .chain (h.evaluateAll frame args) (h.evaluateAllLog nested frame args) fun vs =>
      h.constructLog nested frame c f self vs

/-- The statement itself, and then what it executes. -/
def note (x : Stmt) (l : Log State) : Log State := fun s => ⟨h, x, s⟩ :: l s

mutual

def executeLog : Stmt → Log State
  | .expression e _ | .print e _ | .give (some e) _ =>
    .eval fun frame => h.evaluateLog nested frame e
  | .assign target e _ =>
    .chain (Exec.eval fun frame => h.evaluate frame e)
      (.eval fun frame => h.evaluateLog nested frame e) fun _ => h.assignLog nested target
  | .branch branches otherwise _ =>
    .chain (h.executeBranches branches) (branchesLog branches) fun
      | some _ => .silent
      | none => match otherwise with
        | some b => blockLog b
        | none => .silent
  | .loop e b _ =>
    .repeatWhile (Exec.eval fun frame => Eval.truth (h.evaluate frame e))
      (.eval fun frame => h.evaluateLog nested frame e) (h.executeBlock b) (blockLog b) h.steps
  | .iterate header b span => h.iterateLog nested header span (h.executeBlock b) (blockLog b)
  | .cls _ parent members span => .eval fun frame => h.classLog nested frame parent members span
  | .super args span => .eval fun frame => h.superLog nested frame args span
  | .imports file _ _ | .load file _ _ => .eval fun _ => h.ofFileLog nested file
  | .leave _ | .give none _ | .function _ _ | .init _ _ | .share _ _ => .silent

def blockLog : Block → Log State
  | [] => .silent
  | x :: rest => .chain (h.execute x) (h.note x (executeLog x)) (.onward (blockLog rest))

def branchesLog : List (Expr × Block) → Log State
  | [] => .silent
  | (e, b) :: rest =>
    .chain (Exec.eval fun frame => Eval.truth (h.evaluate frame e))
      (.eval fun frame => h.evaluateLog nested frame e) fun
      | true => blockLog b
      | false => branchesLog rest

end

end Host

/-- What the run of a block executes. -/
def runLog : Nat → Context → Block → Log State
  | 0, _, _ => .silent
  | n + 1, c, b => Host.blockLog ⟨c, n, run n⟩ (runLog n) b

/-- What a source text executes as a step of a session. -/
def Session.stepLog (c : Context) (text : String) : Log State :=
  .source (run unlimited c) (runLog unlimited c) text

/-- What an entry of an interactive session executes. -/
def Repl.entryLog (c : Context) (b : Block) : Log State :=
  let h := Host.of Session.unlimited c
  let nested := runLog Session.unlimited
  match b with
  | [.expression e span] =>
    h.note (.expression e span) (.eval fun frame => h.evaluateLog nested frame e)
  | _ => .program (run Session.unlimited c) (nested c) b

end Script
