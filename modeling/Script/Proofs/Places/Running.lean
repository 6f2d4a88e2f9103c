import Script.Proofs.Methods
import Script.Proofs.Places.Spans
import Script.Proofs.Safe
import Script.Session

/-! Where a run can fail. Besides the nodes of the block that it runs, these are places in
declarations that are stored: those that were there before, those of the block, and those of the
modules that it loads. A module that fails does so at the statement that loads it. -/

namespace Script

variable {P Q : Span → Prop} {M : String → Prop}

/-- A statement with its nodes in `Q` and its declarations in `P`, which names files in `M` only. -/
structure Stmt.Placed (Q P : Span → Prop) (M : String → Prop) (x : Stmt) : Prop where
  spans : ∀ p ∈ x.spans, Q p
  declared : ∀ p ∈ x.declared, P p
  files : ∀ file ∈ x.references, M file

theorem blockPlaced {b : Block} (spans : ∀ p ∈ blockSpans b, Q p)
    (declared : ∀ p ∈ blockDeclared b, P p) (files : ∀ file ∈ blockReferences b, M file) :
    ∀ x ∈ b, x.Placed Q P M := by
  induction b with
  | nil => exact List.forall_mem_nil _
  | cons x b ih =>
    simp only [blockSpans, blockDeclared, blockReferences, List.forall_mem_append]
      at spans declared files
    exact List.forall_mem_cons.2
      ⟨⟨spans.1, declared.1, files.1⟩, ih spans.2 declared.2 files.2⟩

namespace Stmt.Placed

theorem loop {e : Expr} {b : Block} {s : Span} (placed : (Stmt.loop e b s).Placed Q P M) :
    (∀ p ∈ e.spans, Q p) ∧ ∀ x ∈ b, x.Placed Q P M := by
  obtain ⟨spans, declared, files⟩ := placed
  simp only [Stmt.spans, Stmt.declared, Stmt.references, List.forall_mem_cons,
    List.forall_mem_append] at spans declared files
  exact ⟨spans.2.1, blockPlaced spans.2.2 declared files⟩

theorem iterate {header : Header} {b : Block} {s : Span}
    (placed : (Stmt.iterate header b s).Placed Q P M) :
    (∀ p ∈ header.spans, Q p) ∧ ∀ x ∈ b, x.Placed Q P M := by
  obtain ⟨spans, declared, files⟩ := placed
  simp only [Stmt.spans, Stmt.declared, Stmt.references, List.forall_mem_cons,
    List.forall_mem_append] at spans declared files
  exact ⟨spans.2.1, blockPlaced spans.2.2 declared files⟩

theorem branch {bs : List (Expr × Block)} {o : Option Block} {s : Span}
    (placed : (Stmt.branch bs o s).Placed Q P M) :
    (∀ c ∈ bs, (∀ p ∈ c.1.spans, Q p) ∧ ∀ x ∈ c.2, x.Placed Q P M) ∧
      ∀ b ∈ o, ∀ x ∈ b, x.Placed Q P M := by
  have split : (∀ file ∈ branchReferences bs, M file) ∧
      ∀ b ∈ o, ∀ file ∈ blockReferences b, M file := by
    have files := placed.files
    cases o with
    | none => exact ⟨(List.forall_mem_append.1 files).1, nofun⟩
    | some b =>
      obtain ⟨others, final⟩ := List.forall_mem_append.1 files
      refine ⟨others, ?_⟩
      rintro _ ⟨⟩
      exact final
  obtain ⟨spans, declared, -⟩ := placed
  simp only [Stmt.spans, Stmt.declared, List.forall_mem_cons, List.forall_mem_append]
    at spans declared
  obtain ⟨-, spans, spans'⟩ := spans
  obtain ⟨declared, declared'⟩ := declared
  obtain ⟨files, files'⟩ := split
  constructor
  · clear spans' declared' files'
    induction bs with
    | nil => exact List.forall_mem_nil _
    | cons c bs ih =>
      simp only [branchSpans, branchDeclared, branchReferences, List.forall_mem_append]
        at spans declared files
      exact List.forall_mem_cons.2
        ⟨⟨spans.1, blockPlaced spans.2.1 declared.1 files.1⟩, ih spans.2.2 declared.2 files.2⟩
  · rintro b ⟨⟩
    exact blockPlaced spans' declared' (files' b rfl)

end Stmt.Placed

/-- A function all of whose places are in `P`. One without a body has no place that a run can
report. -/
structure Function.Stored (P : Span → Prop) (M : String → Prop) (f : Function) : Prop where
  span : f.decl.body ≠ [] → P f.decl.span
  body : ∀ x ∈ f.decl.body, x.Placed P P M

theorem Decl.stored {d : Decl} (spans : ∀ p ∈ d.spans, P p) (files : ∀ file ∈ d.references, M file)
    (scope : Option Frame) (shared : Bool) : Function.Stored P M ⟨d, scope, shared⟩ := by
  obtain ⟨name, params, body, span⟩ := d
  obtain ⟨here, inner⟩ := List.forall_mem_cons.1 spans
  have nested (p : Span) (member : p ∈ blockDeclared body) : P p :=
    inner p (blockDeclared_sub body member)
  exact ⟨fun _ => here, blockPlaced inner nested files⟩

/-- All functions of the heap are. -/
def Heap.Stores (P : Span → Prop) (M : String → Prop) (h : Heap) : Prop :=
  ∀ (i : Nat) (f : Function), h.functions[i]? = some f → f.Stored P M

namespace Heap.Stores

variable {h : Heap}

theorem function (stores : h.Stores P M) (r : FunctionRef) : (h.function r).Stored P M := by
  unfold Heap.function
  cases found : h.functions[r.index]? with
  | some f => exact stores r.index f found
  -- a reference to nothing stands for a function without a body
  | none => exact ⟨fun proper => absurd rfl proper, List.forall_mem_nil _⟩

theorem newFunction (stores : h.Stores P M) {f : Function} (stored : f.Stored P M) :
    (h.newFunction f).2.Stores P M := by
  intro i g found
  unfold Heap.newFunction at found
  dsimp only at found
  rw [Array.getElem?_push] at found
  split at found
  · cases found
    exact stored
  · exact stores i g found

theorem markShared (stores : h.Stores P M) (r : FunctionRef) : (h.markShared r).Stores P M := by
  intro i g found
  unfold Heap.markShared at found
  dsimp only at found
  rw [Array.getElem?_modify] at found
  split at found
  · obtain ⟨f, before, rfl⟩ := Option.map_eq_some_iff.1 found
    exact ⟨(stores i f before).span, (stores i f before).body⟩
  · exact stores i g found

end Heap.Stores

/-- The halt is at a place in `Q`. -/
def Halt.Points (Q : Span → Prop) (halt : Halt) : Prop :=
  ∀ e, halt = .fault e → Q e.span

/-- Blocks that the host runs fail in their own places or in stored ones, and do not leave a loop
without a statement. -/
def HostPlaced (P : Span → Prop) (M : String → Prop) (host : Host) : Prop :=
  ∀ Q : Span → Prop, (∀ p, P p → Q p) → ∀ c b, c.files = host.context.files →
    (∀ x ∈ b, x.Placed Q P M) →
      ExecSafe (Heap.Stores P M) (Halt.Points Q) (fun flow => flow = .left → b ≠ [])
        (host.nested c b)

/-- The modules in files of `M` have their declarations in `P` and name files in `M` only. -/
def FilesPlaced (P : Span → Prop) (M : String → Prop) (fs : Files) : Prop :=
  ∀ file, M file → ∀ (c : Context) p text b, c.files = fs →
    fs.resolve (c.locate file) = some p → fs.read p = .ok text → parse text = .ok b →
      ∀ x ∈ b, x.Placed (fun _ => True) P M

namespace Points

abbrev EvalPlaced (P : Span → Prop) (M : String → Prop) (Q : Span → Prop) {α : Type}
    (x : Eval α) : Prop :=
  EvalSafe (Heap.Stores P M) (Halt.Points Q) (fun _ => True) x

abbrev ExecPlaced (P : Span → Prop) (M : String → Prop) (Q : Span → Prop) {α : Type}
    (x : Exec α) : Prop :=
  ExecSafe (Heap.Stores P M) (Halt.Points Q) (fun _ => True) x

variable {α : Type} {s : Span}

theorem raise (f : Fault) (here : Q s) : EvalPlaced P M Q (Eval.raise f s : Eval α) := by
  apply Safe.throw
  rintro e ⟨⟩
  exact here

theorem fail (f : RunFault) (here : Q s) : EvalPlaced P M Q (Eval.fail f s : Eval α) :=
  raise _ here

theorem exhausted : EvalPlaced P M Q (throw .exhausted : Eval α) :=
  Safe.throw nofun

theorem orFail (x : Option α) (f : RunFault) (here : Q s) :
    EvalPlaced P M Q (Eval.orFail x f s) := by
  cases x with
  | none => exact fail f here
  | some a => exact Safe.pure trivial

theorem lift (x : Except RunFault α) (here : Q s) : EvalPlaced P M Q (Eval.lift x s) := by
  cases x with
  | error f => exact fail f here
  | ok a => exact Safe.pure trivial

/-- Reads of the heap, and changes of it that leave its functions alone. -/
theorem onHeap {f : Heap → α × Heap} (same : ∀ k, (f k).2.functions = k.functions) :
    EvalPlaced P M Q (Eval.onHeap f) := by
  apply Safe.onHeap
  intro k stores
  refine ⟨trivial, ?_⟩
  unfold Heap.Stores
  rw [same]
  exact stores

theorem changeHeap {f : Heap → Heap} (same : ∀ k, (f k).functions = k.functions) :
    EvalPlaced P M Q (Eval.changeHeap f) := by
  apply Safe.changeHeap
  intro k stores
  unfold Heap.Stores
  rw [same]
  exact stores

theorem newFunction {f : Function} (stored : f.Stored P M) :
    EvalPlaced P M Q (Eval.onHeap (·.newFunction f)) :=
  Safe.onHeap fun _ stores => ⟨trivial, stores.newFunction stored⟩

theorem newList (items : Array Value) : EvalPlaced P M Q (Eval.newList items) :=
  Safe.bind (onHeap fun _ => rfl) fun _ _ => Safe.pure trivial

theorem newObject (o : Object Value) : EvalPlaced P M Q (Eval.newObject o) :=
  Safe.bind (onHeap fun _ => rfl) fun _ _ => Safe.pure trivial

theorem truth {x : Eval Value} (h : EvalPlaced P M Q x) : EvalPlaced P M Q (Eval.truth x) :=
  Safe.bind h fun _ _ => Safe.bind Safe.heap fun _ _ => Safe.pure trivial

theorem checkArity (f : Function) (args : List Value) (here : Q s) :
    EvalPlaced P M Q (Host.checkArity f args s) :=
  Safe.ite (fail _ here) (Safe.pure trivial)

theorem print {host : Host} (v : Value) (here : Q s) : EvalPlaced P M Q (host.print v s) := by
  apply Safe.bind Safe.heap
  intro h _
  cases host.context.sink with
  | broken reason => exact fail _ here
  | working =>
    cases h.text? v with
    | none => exact exhausted
    | some text => exact Safe.modify fun m stores => stores

theorem parentConstructor (frame : Frame) (here : Q s) :
    EvalPlaced P M Q (frame.parentConstructor s) := by
  unfold Frame.parentConstructor
  split
  · apply Safe.bind (orFail _ _ here)
    intro p _
    apply Safe.bind Safe.heap
    intro h _
    exact Safe.bind (orFail _ _ here) fun _ _ => Safe.pure trivial
  · exact fail _ here

theorem keyArg (b : Builtin) (v : Value) (here : Q s) : EvalPlaced P M Q (b.keyArg v s) := by
  cases v with
  | string x => exact Safe.pure trivial
  | _ => exact fail _ here

theorem method {b : Builtin} {v : Value} {args : List Value} {x : Span → Eval Value}
    (does : b.Does v args x) (here : Q s) : EvalPlaced P M Q (x s) := by
  cases does with
  | answers _ => exact Safe.pure trivial
  | renders _ =>
    apply Safe.bind Safe.heap
    intro h _
    cases h.text? v with
    | none => exact exhausted
    | some text => exact Safe.pure trivial
  | readsInteger _ | readsDouble _ => exact Safe.bind (orFail _ _ here) fun _ _ => Safe.pure trivial
  | readsList _ | readsObject _ => exact Safe.bind Safe.heap fun _ _ => Safe.pure trivial
  | changesList _ => exact Safe.bind (changeHeap fun _ => rfl) fun _ _ => Safe.pure trivial
  | copiesList _ | listsObject _ => exact Safe.bind Safe.heap fun _ _ => newList _
  | findsKey u =>
    apply Safe.bind (keyArg b u here)
    exact fun _ _ => Safe.bind Safe.heap fun _ _ => Safe.pure trivial
  | getsKey u =>
    apply Safe.bind (keyArg b u here)
    exact fun _ _ => Safe.bind Safe.heap fun _ _ => orFail _ _ here
  | setsKey u _ =>
    apply Safe.bind (keyArg b u here)
    exact fun _ _ => Safe.bind (changeHeap fun _ => rfl) fun _ _ => Safe.pure trivial

theorem callBuiltin (v : Value) (name : String) (args : List Value) (f : RunFault) (here : Q s) :
    EvalPlaced P M Q ((Builtin.call? v name args s).getD (Eval.fail f s)) := by
  unfold Builtin.call?
  cases Builtin.find? v.kind name with
  | none => exact fail f here
  | some b => exact Safe.ite (method (b.does v args) here) (fail _ here)

theorem lookup (frame : Frame) (name : String) (here : Q s) :
    EvalPlaced P M Q (frame.lookup name s) :=
  Safe.bind Safe.heap fun _ _ => orFail _ _ here

theorem called (frame : Frame) (name : String) (here : Q s) :
    EvalPlaced P M Q (frame.called name s) :=
  Safe.bind Safe.heap fun _ _ => orFail _ _ here

theorem property (v : Value) (name : String) (here : Q s) :
    EvalPlaced P M Q (v.property name s) := by
  cases v with
  | object r => exact Safe.bind Safe.heap fun _ _ => orFail _ _ here
  | _ => exact callBuiltin _ name [] _ here

theorem callee (v : Value) (name : String) (here : Q s) :
    EvalPlaced P M Q (v.callee name s) := by
  apply Safe.bind Safe.heap
  intro h _
  split
  · exact Safe.bind (orFail _ _ here) fun _ _ => Safe.pure trivial
  · split
    · exact Safe.pure trivial
    · exact Safe.pure trivial
    · exact Safe.pure trivial
  · exact Safe.pure trivial

/-! Calls. -/

variable {host : Host} (wide : ∀ p, P p → Q p) (bodies : HostPlaced P M host)

include wide bodies

theorem body {f : Function} (stored : f.Stored P M) (frame : Frame) :
    EvalPlaced P M Q (host.body f frame) := by
  -- the body is no part of the block that calls it, so that it fails in stored places only
  have ran : ExecSafe (Heap.Stores P M) (Halt.Points Q)
      (fun flow => flow = .left → f.decl.body ≠ []) (host.nested host.context f.decl.body) :=
    (bodies P (fun _ here => here) host.context f.decl.body rfl stored.body).weaken
      (fun halt points e fault => wide _ (points e fault)) fun _ proper => proper
  apply Safe.bind (Safe.inside ran frame)
  intro flow proper
  cases flow with
  | done => exact Safe.pure trivial
  | gave v => exact Safe.pure trivial
  | left => exact fail _ (wide _ (stored.span (proper rfl)))

theorem call (caller : Frame) (r : FunctionRef) (args : List Value) (here : Q s) :
    EvalPlaced P M Q (host.call caller r args s) := by
  apply Safe.bind Safe.heap
  intro h stores
  apply Safe.bind (checkArity _ args here)
  intro _ _
  exact body wide bodies (stores.function r) _

theorem construct (caller : Frame) (c : Class) (r : FunctionRef) (self : Value)
    (args : List Value) (here : Q s) :
    EvalPlaced P M Q (host.construct caller c r self args s) := by
  apply Safe.bind Safe.heap
  intro h stores
  have run (frame : Frame) :
      EvalPlaced P M Q (host.body (h.function r) frame >>= fun _ => Pure.pure PUnit.unit) :=
    Safe.bind (body wide bodies (stores.function r) frame) fun _ _ => Safe.pure trivial
  exact Safe.ite (Safe.bind (fail _ here) fun _ _ => run _) (run _)

theorem create (caller : Frame) (r : ClassRef) (args : List Value) (here : Q s) :
    EvalPlaced P M Q (host.create caller r args s) := by
  apply Safe.bind Safe.heap
  intro h _
  apply Safe.bind (newObject _)
  intro self _
  dsimp only
  cases (h.cls r).constructor with
  | some f =>
    exact Safe.bind (construct wide bodies caller _ f self args here) fun _ _ => Safe.pure trivial
  | none =>
    exact Safe.ite (Safe.bind (fail _ here) fun _ _ => Safe.pure trivial) (Safe.pure trivial)

theorem callMethod (caller : Frame) (r : FunctionRef) (self : Value) (args : List Value)
    (here : Q s) : EvalPlaced P M Q (host.callMethod caller r self args s) := by
  apply Safe.bind Safe.heap
  intro h stores
  apply Safe.bind (checkArity _ args here)
  intro _ _
  exact body wide bodies (stores.function r) _

theorem callOn (caller : Frame) (v : Value) (name : String) (callee : Callee) (args : List Value)
    (here : Q s) : EvalPlaced P M Q (host.callOn caller v name callee args s) := by
  cases callee with
  | method r => exact callMethod wide bodies caller r v args here
  | function r => exact call wide bodies caller r args here
  | cls r => exact create wide bodies caller r args here
  | builtin => exact callBuiltin v name args _ here

omit wide bodies

/-! Expressions. -/

mutual

theorem evaluate (wide : ∀ p, P p → Q p) (bodies : HostPlaced P M host) (frame : Frame) (e : Expr)
    (placed : ∀ p ∈ e.spans, Q p) :
    EvalPlaced P M Q (host.evaluate frame e) := by
  have here := placed _ e.span_mem
  cases e <;> simp only [Expr.spans, List.forall_mem_cons, List.forall_mem_append] at placed
  case literal v s => exact Safe.pure trivial
  case name x s => exact lookup frame x here
  case binary op l r s =>
    apply Safe.bind (evaluate wide bodies frame l placed.2.1)
    intro u _
    apply Safe.bind (evaluate wide bodies frame r placed.2.2)
    intro v _
    exact Safe.bind Safe.heap fun _ _ => lift _ here
  case negate e s => exact Safe.bind (evaluate wide bodies frame e placed.2) fun _ _ => lift _ here
  case logic op l r s =>
    apply Safe.bind (truth (evaluate wide bodies frame l placed.2.1))
    intro b _
    apply Safe.ite (Safe.pure trivial)
    exact Safe.bind (truth (evaluate wide bodies frame r placed.2.2)) fun _ _ => Safe.pure trivial
  case call x args s =>
    apply Safe.bind (called frame x here)
    intro r _
    apply Safe.bind (evaluateAll wide bodies frame args placed.2)
    intro vs _
    exact call wide bodies frame r vs here
  case method e x args s =>
    apply Safe.bind (evaluate wide bodies frame e placed.2.1)
    intro v _
    apply Safe.bind (callee v x here)
    intro callee _
    apply Safe.bind (evaluateAll wide bodies frame args placed.2.2)
    intro vs _
    exact callOn wide bodies frame v x callee vs here
  case property e x s =>
    exact Safe.bind (evaluate wide bodies frame e placed.2) fun v _ => property v x here
  case index e i s =>
    apply Safe.bind (evaluate wide bodies frame e placed.2.1)
    intro v _
    apply Safe.bind (evaluate wide bodies frame i placed.2.2)
    intro key _
    exact Safe.bind Safe.heap fun _ _ => lift _ here
  case group e s => exact evaluate wide bodies frame e placed.2
  case list items s =>
    exact Safe.bind (evaluateAll wide bodies frame items placed.2) fun _ _ => newList _
  case object entries s =>
    apply Safe.bind (evaluateEntries wide bodies frame entries .empty placed.2)
    intro o _
    exact newObject o
  case create path args s =>
    apply Safe.bind Safe.heap
    intro h _
    apply Safe.bind (lift _ here)
    intro c _
    apply Safe.bind (evaluateAll wide bodies frame args placed.2)
    intro vs _
    exact create wide bodies frame c vs here

theorem evaluateAll (wide : ∀ p, P p → Q p) (bodies : HostPlaced P M host) (frame : Frame)
    (es : List Expr) (placed : ∀ p ∈ spansOfAll es, Q p) :
    EvalPlaced P M Q (host.evaluateAll frame es) := by
  cases es with
  | nil => exact Safe.pure trivial
  | cons e es =>
    obtain ⟨first, others⟩ := List.forall_mem_append.1 placed
    apply Safe.bind (evaluate wide bodies frame e first)
    intro v _
    exact Safe.bind (evaluateAll wide bodies frame es others) fun _ _ => Safe.pure trivial

theorem evaluateEntries (wide : ∀ p, P p → Q p) (bodies : HostPlaced P M host) (frame : Frame)
    (es : List (String × Expr)) (o : Object Value) (placed : ∀ p ∈ spansOfEntries es, Q p) :
    EvalPlaced P M Q (host.evaluateEntries frame es o) := by
  match es with
  | [] => exact Safe.pure trivial
  | (key, e) :: rest =>
    obtain ⟨first, others⟩ := List.forall_mem_append.1 placed
    apply Safe.bind (evaluate wide bodies frame e first)
    intro v _
    exact evaluateEntries wide bodies frame rest _ others

end

/-! Loops. -/

theorem next {rest : Exec Flow} (h : ExecPlaced P M Q rest) (flow : Flow) :
    ExecPlaced P M Q
      (match flow with
        | .done => rest
        | .left => return .done
        | .gave v => return .gave v) := by
  cases flow with
  | done => exact h
  | left => exact Safe.pure trivial
  | gave v => exact Safe.pure trivial

theorem repeatWhile {test : Exec Bool} {body : Exec Flow} (tests : ExecPlaced P M Q test)
    (rounds : ExecPlaced P M Q body) (n : Nat) :
    ExecPlaced P M Q (Exec.repeatWhile test body n) := by
  induction n with
  | zero => exact Safe.throw nofun
  | succ n ih =>
    apply Safe.bind tests
    intro b _
    exact Safe.ite (Safe.bind rounds fun flow _ => next ih flow) (Safe.pure trivial)

theorem visit {body : Exec Flow} (rounds : ExecPlaced P M Q body)
    (values : List (List (String × Value))) : ExecPlaced P M Q (Exec.visit body values) := by
  have assigned (bindings : List (String × Value)) :
      ExecPlaced P M Q (bindings.forM fun b => Exec.assign b.1 b.2) := by
    induction bindings with
    | nil => exact Safe.pure trivial
    | cons b bindings ih => exact Safe.bind (Safe.assign b.1 b.2) fun _ _ => ih
  induction values with
  | nil => exact Safe.pure trivial
  | cons bindings values ih =>
    apply Safe.bind (assigned bindings)
    intro _ _
    exact Safe.bind rounds fun flow _ => next ih flow

theorem count (name : String) {body : Exec Flow} (rounds : ExecPlaced P M Q body) (n : Nat)
    (i : Int) : ExecPlaced P M Q (Exec.count name body n i) := by
  induction n generalizing i with
  | zero => exact Safe.pure trivial
  | succ n ih =>
    apply Safe.bind (Safe.assign name _)
    intro _ _
    exact Safe.bind rounds fun flow _ => next (ih (i + 1)) flow

/-! Modules. -/

theorem topLevel {run : Block → Exec Flow} {b : Block}
    (runs : ∀ x ∈ b, ExecPlaced P M Q (run [x])) (places : ∀ x ∈ b, Q x.span) :
    ExecPlaced P M Q (Script.topLevel run b) := by
  induction b with
  | nil => exact Safe.pure trivial
  | cons x b ih =>
    obtain ⟨first, others⟩ := List.forall_mem_cons.1 runs
    obtain ⟨here, elsewhere⟩ := List.forall_mem_cons.1 places
    apply Safe.bind first
    intro flow _
    cases flow with
    | done => exact ih others elsewhere
    | left =>
      apply Safe.throw
      rintro e ⟨⟩
      exact here
    | gave v =>
      apply Safe.throw
      rintro e ⟨⟩
      exact here

theorem runProgram {run : Block → Exec Flow} {b : Block}
    (runs : ∀ x ∈ b, ExecPlaced P M Q (run [x])) (places : ∀ x ∈ b, Q x.span) :
    ExecPlaced P M Q (Script.runProgram run b) := by
  have among (x : Stmt) (member : x ∈ b.filter Stmt.isImport ++ b.filter (!·.isImport)) :
      x ∈ b := by
    rcases List.mem_append.1 member with filtered | filtered
    · exact (List.mem_filter.1 filtered).1
    · exact (List.mem_filter.1 filtered).1
  exact topLevel (fun x member => runs x (among x member))
    fun x member => places x (among x member)

/-- Whatever happens in a module happens at the statement that runs it. -/
theorem module (access : Access) (file : String) (here : Q s) {x : Exec Unit}
    (placed : ExecPlaced P M (fun _ => True) x) :
    EvalPlaced P M Q (Module.run access file s x) := by
  intro m start
  have ended := placed ⟨(Frame.new m.heap).1, (Frame.new m.heap).2, m.output, .empty⟩ start
  unfold Module.run
  dsimp only
  cases run : x ⟨(Frame.new m.heap).1, (Frame.new m.heap).2, m.output, .empty⟩ with
  | ok a t =>
    rw [run] at ended
    exact ended
  | error halt t =>
    rw [run] at ended
    cases halt with
    | fault e =>
      refine ⟨?_, ended.2⟩
      rintro e ⟨⟩
      exact here
    | exhausted => exact ⟨nofun, ended.2⟩

theorem ofFile (bodies : HostPlaced P M host) (files : FilesPlaced P M host.context.files)
    (access : Access) {file : String} (named : M file) (here : Q s) :
    EvalPlaced P M Q (Module.ofFile host access file s) := by
  unfold Module.ofFile
  dsimp only
  split
  · exact raise _ here
  · rename_i p found
    apply Safe.ite (raise _ here)
    split
    · exact raise _ here
    · rename_i text content
      apply module access file here
      unfold runSource
      cases parsed : parse text with
      | error e => exact Safe.throw fun _ _ => trivial
      | ok b =>
        -- where a module fails is not asked, as its error is moved to the statement that loads it
        have placed := files file named host.context p text b rfl found content parsed
        refine runProgram (fun x member => ?_) fun _ _ => trivial
        have inside : ∀ y ∈ [x], y.Placed (fun _ => True) P M :=
          List.forall_mem_singleton.2 (placed x member)
        have same : (host.context.module p).files = host.context.files := rfl
        exact (bodies _ (fun _ _ => trivial) _ _ same inside).forget

theorem exported (m : Module) (r : FunctionRef) : EvalPlaced P M Q (m.exported r) := by
  apply Safe.onHeap
  intro k stores
  have stored := stores.function r
  exact ⟨trivial, stores.newFunction ⟨stored.span, stored.body⟩⟩

theorem define (m : Module) (t : TableRef) (fs : List (String × FunctionRef)) :
    EvalPlaced P M Q (m.define t fs) := by
  induction fs with
  | nil => exact Safe.pure trivial
  | cons f fs ih =>
    apply Safe.bind (exported m f.2)
    intro copy _
    exact Safe.bind (changeHeap fun _ => rfl) fun _ _ => ih

theorem collect (m : Module) (fs : List (String × FunctionRef)) (o : Object Value) :
    EvalPlaced P M Q (m.collect fs o) := by
  induction fs generalizing o with
  | nil => exact Safe.pure trivial
  | cons f fs ih => exact Safe.bind (exported m f.2) fun _ _ => ih _

theorem bind (m : Module) (file : String) (here : Q s) (names : List String) :
    ExecPlaced P M Q (m.bind file s names) := by
  induction names with
  | nil => exact Safe.pure trivial
  | cons name names ih =>
    apply Safe.bind (Safe.look fun _ _ => trivial)
    intro t _
    split
    · exact Safe.bind (Safe.eval fun frame => define m frame.table _) fun _ _ => ih
    · exact Safe.bind (Safe.assign name _) fun _ _ => ih
    · apply Safe.throw_bind
      rintro e ⟨⟩
      exact here

theorem importFile (bodies : HostPlaced P M host) (files : FilesPlaced P M host.context.files)
    {file : String} (named : M file) (items : Selection) (here : Q s) :
    ExecPlaced P M Q (host.importFile file items s) := by
  apply Safe.bind (Safe.eval fun _ => ofFile bodies files .importing named here)
  intro m _
  cases items with
  | names names => exact bind m file here names
  | all =>
    have bound : ExecPlaced P M Q (modify fun t =>
        { t with frame := { t.frame with vars := t.frame.vars.overlay m.frame.vars } }) :=
      Safe.modify fun t stores => stores
    apply Safe.bind bound
    intro _ _
    exact Safe.eval fun frame => Safe.bind Safe.heap fun h _ => define m frame.table _

theorem loadFile (bodies : HostPlaced P M host) (files : FilesPlaced P M host.context.files)
    {file : String} (named : M file) (name : String) (here : Q s) :
    ExecPlaced P M Q (host.loadFile file name s) := by
  have loaded (frame : Frame) : EvalPlaced P M Q (do
      let m ← Module.ofFile host .loading file s
      let o := Object.empty.setAll m.sharedVars
      let o ← m.collect (m.functions (← Eval.heap)) o
      Eval.newObject o) := by
    apply Safe.bind (ofFile bodies files .loading named here)
    intro m _
    apply Safe.bind Safe.heap
    intro h _
    exact Safe.bind (collect m _ _) fun o _ => newObject o
  exact Safe.bind (Safe.eval loaded) fun v _ => Safe.assign name v

theorem share (frame : Frame) (here : Q s) (names : List String) :
    EvalPlaced P M Q (frame.share s names) := by
  induction names with
  | nil => exact Safe.pure trivial
  | cons name names ih =>
    apply Safe.bind Safe.heap
    intro h _
    split
    · apply Safe.bind (Safe.changeHeap fun k stores => stores.markShared _)
      intro _ _
      exact ih
    · apply Safe.ite
      · exact Safe.bind (Safe.modify fun m stores => stores) fun _ _ => ih
      · exact Safe.bind (raise _ here) fun _ _ => ih

/-! Statements. -/

theorem bound (wide : ∀ p, P p → Q p) (bodies : HostPlaced P M host) {e : Expr}
    (placed : ∀ p ∈ e.spans, Q p) : ExecPlaced P M Q (host.bound e) := by
  apply Safe.eval
  intro frame
  apply Safe.bind (evaluate wide bodies frame e placed)
  intro v _
  cases v with
  | int n => exact Safe.pure trivial
  | _ => exact fail _ (placed _ e.span_mem)

theorem iterate (wide : ∀ p, P p → Q p) (bodies : HostPlaced P M host) {header : Header}
    (placed : ∀ p ∈ header.spans, Q p) (here : Q s) {body : Exec Flow}
    (rounds : ExecPlaced P M Q body) : ExecPlaced P M Q (host.iterate header s body) := by
  have source {α : Type} {e : Expr} (inner : ∀ p ∈ e.spans, Q p)
      (read : Heap → Value → Except RunFault α) (frame : Frame) :
      EvalPlaced P M Q (do
        let v ← host.evaluate frame e
        Eval.lift (read (← Eval.heap) v) s) := by
    apply Safe.bind (evaluate wide bodies frame e inner)
    intro v _
    exact Safe.bind Safe.heap fun _ _ => lift _ here
  cases header with
  | range x a b =>
    obtain ⟨first, last⟩ := List.forall_mem_append.1 placed
    apply Safe.bind (bound wide bodies first)
    intro m _
    apply Safe.bind (bound wide bodies last)
    intro n _
    exact count x rounds _ _
  | each x e =>
    exact Safe.bind (Safe.eval (source placed Heap.items)) fun vs _ => visit rounds _
  | pairs x y e =>
    exact Safe.bind (Safe.eval (source placed Heap.pairs)) fun ps _ => visit rounds _

theorem setIndexed_functions {h : Heap} {v key value : Value} {f : Heap → Heap}
    (answer : h.setIndexed v key value = .ok f) (k : Heap) : (f k).functions = k.functions := by
  unfold Heap.setIndexed at answer
  split at answer
  · split at answer
    · cases answer
      rfl
    · cases answer
  · cases answer
  · cases answer
    rfl
  · cases answer
  · cases answer
  · cases answer

theorem setProperty_functions {v value : Value} {x : String} {f : Heap → Heap}
    (answer : v.setProperty x value = .ok f) (k : Heap) : (f k).functions = k.functions := by
  unfold Value.setProperty at answer
  split at answer
  · cases answer
    rfl
  · cases answer

theorem changeBy {x : Except RunFault (Heap → Heap)}
    (same : ∀ f, x = .ok f → ∀ k, (f k).functions = k.functions) (here : Q s) :
    EvalPlaced P M Q (Eval.lift x s >>= Eval.changeHeap) := by
  cases x with
  | error f =>
    apply Safe.throw_bind
    rintro e ⟨⟩
    exact here
  | ok f => exact changeHeap (same f rfl)

theorem assign (wide : ∀ p, P p → Q p) (bodies : HostPlaced P M host) {target : Target}
    (placed : ∀ p ∈ target.spans, Q p) (v : Value) (here : Q s) :
    ExecPlaced P M Q (host.assign target v s) := by
  unfold Host.assign
  cases target with
  | name x => exact Safe.assign x v
  | index e i =>
    obtain ⟨object, key⟩ := List.forall_mem_append.1 placed
    apply Safe.eval
    intro frame
    apply Safe.bind (evaluate wide bodies frame e object)
    intro o _
    apply Safe.bind (evaluate wide bodies frame i key)
    intro k _
    exact Safe.bind Safe.heap fun h _ =>
      changeBy (fun f answer => setIndexed_functions answer) here
  | property e x =>
    apply Safe.eval
    intro frame
    apply Safe.bind (evaluate wide bodies frame e placed)
    intro o _
    exact changeBy (fun f answer => setProperty_functions answer) here

theorem addMembers (wide : ∀ p, P p → Q p) (bodies : HostPlaced P M host) (detached : Frame)
    {ms : List Member} (spans : ∀ p ∈ memberSpans ms, Q p)
    (declared : ∀ p ∈ ms.flatMap Member.declared, P p)
    (files : ∀ file ∈ memberReferences ms, M file) (c : Class) :
    EvalPlaced P M Q (host.addMembers detached ms c) := by
  induction ms generalizing c with
  | nil => exact Safe.pure trivial
  | cons m ms ih =>
    simp only [memberSpans, memberReferences, List.flatMap_cons, List.forall_mem_append]
      at spans declared files
    have rest := ih spans.2 declared.2 files.2
    cases m with
    | property x e s =>
      have value := (List.forall_mem_cons.1 spans.1).2
      exact Safe.bind (evaluate wide bodies detached e value) fun v _ => rest _
    | method d =>
      exact Safe.bind (newFunction (Decl.stored declared.1 files.1 none false)) fun r _ => rest _
    | constructor d =>
      exact Safe.bind (newFunction (Decl.stored declared.1 files.1 none false)) fun r _ => rest _

theorem declaredClass (wide : ∀ p, P p → Q p) (bodies : HostPlaced P M host) (frame : Frame)
    {name : String} {parent : Option ClassPath} {ms : List Member}
    (placed : (Stmt.cls name parent ms s).Placed Q P M) :
    EvalPlaced P M Q (host.declaredClass frame name parent ms s) := by
  obtain ⟨spans, declared, files⟩ := placed
  obtain ⟨here, members⟩ := List.forall_mem_cons.1 spans
  have built (p : Option ClassRef) : EvalPlaced P M Q (do
      let c := Class.under (← Eval.heap) name p
      let detached ← Eval.onHeap Frame.new
      let c ← host.addMembers detached ms c
      return Value.cls (← Eval.onHeap (·.newClass c))) := by
    apply Safe.bind Safe.heap
    intro h _
    apply Safe.bind (onHeap fun _ => rfl)
    intro detached _
    apply Safe.bind (addMembers wide bodies detached members declared files _)
    intro c _
    exact Safe.bind (onHeap fun _ => rfl) fun _ _ => Safe.pure trivial
  cases parent with
  | none => exact built none
  | some path =>
    have resolved : EvalPlaced P M Q (do
        return some (← Eval.lift ((← Eval.heap).resolveClass frame path) s)) :=
      Safe.bind Safe.heap fun _ _ => Safe.bind (lift _ here) fun _ _ => Safe.pure trivial
    have whole := Safe.bind resolved fun p _ => built p
    exact whole

theorem effect {f : Frame → Eval α} (placed : ∀ frame, EvalPlaced P M Q (f frame)) :
    ExecPlaced P M Q (Exec.eval f >>= fun _ => Pure.pure Flow.done) :=
  Safe.bind (Safe.eval placed) fun _ _ => Safe.pure trivial

mutual

theorem execute (wide : ∀ p, P p → Q p) (bodies : HostPlaced P M host)
    (files : FilesPlaced P M host.context.files) (x : Stmt) (placed : x.Placed Q P M) :
    ExecPlaced P M Q (host.execute x) := by
  have here := placed.spans _ x.span_mem
  have spans := placed.spans
  cases x with
  | expression e s =>
    exact effect fun frame => evaluate wide bodies frame e (List.forall_mem_cons.1 spans).2
  | print e s =>
    refine effect fun frame => ?_
    apply Safe.bind (evaluate wide bodies frame e (List.forall_mem_cons.1 spans).2)
    intro v _
    exact print v here
  | assign target e s =>
    obtain ⟨-, spans⟩ := List.forall_mem_cons.1 spans
    obtain ⟨left, right⟩ := List.forall_mem_append.1 spans
    apply Safe.bind (Safe.eval fun frame => evaluate wide bodies frame e right)
    intro v _
    exact Safe.bind (assign wide bodies left v here) fun _ _ => Safe.pure trivial
  | branch bs o s =>
    obtain ⟨branches, otherwise⟩ := placed.branch
    have chosen := executeBranches wide bodies files bs branches
    cases o with
    | none =>
      apply Safe.bind chosen
      intro flow _
      cases flow with
      | some flow => exact Safe.pure trivial
      | none => exact Safe.pure trivial
    | some b =>
      apply Safe.bind chosen
      intro flow _
      cases flow with
      | some flow => exact Safe.pure trivial
      | none => exact (executeBlock wide bodies files b (otherwise b rfl)).forget
  | loop e b s =>
    obtain ⟨test, body⟩ := placed.loop
    exact repeatWhile (Safe.eval fun frame => truth (evaluate wide bodies frame e test))
      (executeBlock wide bodies files b body).forget _
  | iterate header b s =>
    obtain ⟨values, body⟩ := placed.iterate
    exact iterate wide bodies values here (executeBlock wide bodies files b body).forget
  | leave s => exact Safe.pure trivial
  | give value s =>
    cases value with
    | none => exact Safe.pure trivial
    | some e =>
      apply Safe.bind
        (Safe.eval fun frame => evaluate wide bodies frame e (List.forall_mem_cons.1 spans).2)
      intro v _
      exact Safe.pure trivial
  | function d s =>
    refine effect fun frame => ?_
    apply Safe.bind (newFunction (Decl.stored placed.declared placed.files none false))
    intro r _
    exact changeHeap fun _ => rfl
  | init d s => exact Safe.eval fun _ => fail _ here
  | cls x parent ms s =>
    apply Safe.bind (Safe.eval fun frame => declaredClass wide bodies frame placed)
    intro v _
    exact Safe.bind (Safe.assign x v) fun _ _ => Safe.pure trivial
  | super args s =>
    refine effect fun frame => ?_
    apply Safe.bind (parentConstructor frame here)
    rintro ⟨self, c, f⟩ _
    apply Safe.bind (evaluateAll wide bodies frame args (List.forall_mem_cons.1 spans).2)
    intro vs _
    exact construct wide bodies frame c f self vs here
  | share names s => exact effect fun frame => share frame here names
  | imports file items s =>
    have named := placed.files file List.mem_cons_self
    exact Safe.bind (importFile bodies files named items here) fun _ _ => Safe.pure trivial
  | load file x s =>
    have named := placed.files file List.mem_cons_self
    exact Safe.bind (loadFile bodies files named x here) fun _ _ => Safe.pure trivial

theorem executeBlock (wide : ∀ p, P p → Q p) (bodies : HostPlaced P M host)
    (files : FilesPlaced P M host.context.files) (b : List Stmt)
    (placed : ∀ x ∈ b, x.Placed Q P M) :
    ExecSafe (Heap.Stores P M) (Halt.Points Q) (fun flow => flow = .left → b ≠ [])
      (host.executeBlock b) := by
  cases b with
  | nil => exact Safe.pure nofun
  | cons x b =>
    obtain ⟨first, others⟩ := List.forall_mem_cons.1 placed
    apply Safe.bind (execute wide bodies files x first)
    intro flow _
    have rest := executeBlock wide bodies files b others
    cases flow with
    | done => exact rest.weaken (fun _ points => points) fun _ _ _ => List.cons_ne_nil x b
    | left => exact Safe.pure fun _ => List.cons_ne_nil x b
    | gave v => exact Safe.pure nofun

theorem executeBranches (wide : ∀ p, P p → Q p) (bodies : HostPlaced P M host)
    (files : FilesPlaced P M host.context.files) (bs : List (Expr × List Stmt))
    (placed : ∀ c ∈ bs, (∀ p ∈ c.1.spans, Q p) ∧ ∀ x ∈ c.2, x.Placed Q P M) :
    ExecPlaced P M Q (host.executeBranches bs) := by
  match bs with
  | [] => exact Safe.pure trivial
  | (e, b) :: rest =>
    obtain ⟨first, others⟩ := List.forall_mem_cons.1 placed
    apply Safe.bind (Safe.eval fun frame => truth (evaluate wide bodies frame e first.1))
    intro c _
    apply Safe.ite
    · exact Safe.bind (executeBlock wide bodies files b first.2) fun _ _ => Safe.pure trivial
    · exact executeBranches wide bodies files rest others

end

/-- Runs, however deep they nest, fail in places of their block or in stored ones. -/
theorem run {fs : Files} (files : FilesPlaced P M fs) (limit : Nat) (wide : ∀ p, P p → Q p)
    {c : Context} (same : c.files = fs) {b : Block} (placed : ∀ x ∈ b, x.Placed Q P M) :
    ExecSafe (Heap.Stores P M) (Halt.Points Q) (fun flow => flow = .left → b ≠ [])
      (Script.run limit c b) := by
  -- the places of the block change with each nested run, those that are stored do not
  induction limit generalizing Q c b with
  | zero => exact Safe.throw nofun
  | succ n ih =>
    subst same
    have bodies : HostPlaced P M ⟨c, n, Script.run n⟩ :=
      fun Q wide c' b same placed => ih wide same placed
    exact executeBlock wide bodies files b placed

end Points

end Script
