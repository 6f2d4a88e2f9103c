import Script.Proofs.Termination.Nesting
import Script.Proofs.Trace.Log

/-! The values whose texts a run makes, to print them or as strings, each with the heap as it is
then. They are read off the run itself, as its log is. -/

namespace Script

/-- A value at the moment when its text is made. -/
structure Rendering where
  heap : Heap
  value : Value

/-- What an answer leads to. An error leads to nothing. -/
def following {σ α β : Type} (r : EStateM.Result Halt σ α) (next : α → σ → List β) : List β :=
  match r with
  | .ok a s => next a s
  | .error _ _ => []

/-- What a method of the name renders that needs no class: its receiver, if it is made a string. -/
def Builtin.renderings (v : Value) (name : String) (args : List Value) (m : Machine) :
    List Rendering :=
  match find? v.kind name, args with
  | some .asString, [] => [⟨m.heap, v⟩]
  | _, _ => []

/-- What a property of the name renders. Those of objects are their entries. -/
def Value.propertyRenderings (v : Value) (name : String) (m : Machine) : List Rendering :=
  match v with
  | .object _ => []
  | _ => Builtin.renderings v name [] m

/-- Nothing that is rendered contains itself. -/
def AllAcyclic (rs : List Rendering) : Prop :=
  ∀ r ∈ rs, r.heap.Acyclic r.value

namespace AllAcyclic

variable {σ α : Type} {r : EStateM.Result Halt σ α} {next : α → σ → List Rendering}
  {rs : List Rendering}

theorem following (acyclic : AllAcyclic (following r next)) {a : α} {s : σ} (ran : r = .ok a s) :
    AllAcyclic (next a s) := by
  cases ran
  exact acyclic

theorem onward (acyclic : AllAcyclic (rs ++ Script.following r next)) :
    AllAcyclic rs ∧ ∀ a s, r = .ok a s → AllAcyclic (next a s) := by
  obtain ⟨first, rest⟩ := List.forall_mem_append.1 acyclic
  exact ⟨first, fun a s ran => following rest ran⟩

end AllAcyclic

namespace Host

variable (h : Host) (frame : Frame)

mutual

/-- What the evaluation of an expression renders, apart from what the statements of functions do
that it calls. -/
def renderings : Expr → Machine → List Rendering
  | .literal _ _, _ | .name _ _, _ => []
  | .binary _ left right _, m | .index left right _, m =>
    renderings left m ++ following (h.evaluate frame left m) fun _ m => renderings right m
  | .negate e _, m | .group e _, m => renderings e m
  | .logic op left right _, m =>
    renderings left m ++ following (Eval.truth (h.evaluate frame left) m) fun l m =>
      if l == decide (op = .or) then [] else renderings right m
  | .call name args span, m => following (frame.called name span m) fun _ m => allRenderings args m
  | .method object name args span, m =>
    renderings object m ++ following (h.evaluate frame object m) fun v m =>
      following (v.callee name span m) fun callee m =>
        allRenderings args m ++ following (h.evaluateAll frame args m) fun vs m =>
          match callee with
          | .builtin => Builtin.renderings v name vs m
          | _ => []
  | .property object name _, m =>
    renderings object m ++ following (h.evaluate frame object m) fun v m =>
      v.propertyRenderings name m
  | .list items _, m => allRenderings items m
  | .object entries _, m => entryRenderings entries m
  | .create path args span, m =>
    following (Eval.lift (m.heap.resolveClass frame path) span m) fun _ m => allRenderings args m

def allRenderings : List Expr → Machine → List Rendering
  | [], _ => []
  | e :: es, m =>
    renderings e m ++ following (h.evaluate frame e m) fun _ m => allRenderings es m

def entryRenderings : List (String × Expr) → Machine → List Rendering
  | [], _ => []
  | (_, e) :: rest, m =>
    renderings e m ++ following (h.evaluate frame e m) fun _ m => entryRenderings rest m

end

/-- What the target of an assignment renders. -/
def targetRenderings (target : Target) (m : Machine) : List Rendering :=
  match target with
  | .name _ => []
  | .index object key =>
    h.renderings frame object m ++
      following (h.evaluate frame object m) fun _ m => h.renderings frame key m
  | .property object _ => h.renderings frame object m

/-- What the conditions of branches render, up to the first that holds. -/
def conditionRenderings : List (Expr × Block) → Machine → List Rendering
  | [], _ => []
  | (e, _) :: rest, m =>
    h.renderings frame e m ++ following (Eval.truth (h.evaluate frame e) m) fun holds m =>
      if holds then [] else conditionRenderings rest m

/-- What the header of a loop renders. -/
def headerRenderings (header : Header) (m : Machine) : List Rendering :=
  match header with
  | .range _ start stop =>
    h.renderings frame start m ++
      following (h.bound start ⟨frame, m⟩) fun _ s => h.renderings frame stop s.machine
  | .each _ e | .pairs _ _ e => h.renderings frame e m

end Host

/-- What a statement renders itself. What the statements in it do counts as theirs. Loops on a
condition and classes are left out. -/
def Moment.renderings (x : Moment) : List Rendering :=
  let frame := x.state.frame
  let m := x.state.machine
  match x.statement with
  | .expression e _ | .give (some e) _ => x.host.renderings frame e m
  | .print e _ =>
    x.host.renderings frame e m ++
      following (x.host.evaluate frame e m) fun v m => [⟨m.heap, v⟩]
  | .assign target e _ =>
    x.host.renderings frame e m ++
      following (x.host.evaluate frame e m) fun _ m => x.host.targetRenderings frame target m
  | .branch branches _ _ => x.host.conditionRenderings frame branches m
  | .iterate header _ _ => x.host.headerRenderings frame header m
  | .super args span =>
    following (frame.parentConstructor span m) fun _ m => x.host.allRenderings frame args m
  | _ => []

/-- What the run of a program renders. -/
def programRenderings (limit : Nat) (c : Context) (b : Block) (s : State) : List Rendering :=
  (Log.program (run limit c) (runLog limit c) b s).flatMap Moment.renderings

end Script
