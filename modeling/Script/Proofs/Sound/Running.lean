import Script.Proofs.Methods
import Script.Proofs.Sound.Logic
import Script.Repl

/-! Runs over sound heaps. Whatever statements are run, what they leave behind is sound, as long as
they and those that they can come to run are kept. -/

namespace Script

/-- What is asked of the statements that are kept, when they are run with certain files. Their
faults are allowed, and they run no modules but of kept statements. -/
structure Rules (kept : Stmt → Prop) (allowed : Fault → Prop) (fs : Files) : Prop where
  regular : ∀ f : Fault, f.Regular → allowed f
  leaves : ∀ x d, kept x → d ∈ x.decls → blockLeaves d.body = true →
    allowed (.running (.strayLeaveIn d.name))
  files : ∀ x, kept x → ∀ file, x.file? = some file → ∀ (c : Context) p text b, c.files = fs →
    fs.resolve (c.locate file) = some p → fs.read p = .ok text → parse text = .ok b →
      ∀ y ∈ blockParts b, kept y

namespace Heap

def HasFlow (h : Heap) : Flow → Prop
  | .gave v => h.Has v
  | _ => True

/-- What a class statement names as the parent of its class. -/
def Extends (h : Heap) (frame : Frame) (path : Option ClassPath) (parent : Option ClassRef) : Prop :=
  match path with
  | none => parent = none
  | some path => ∃ p, h.resolveClass frame path = .ok p ∧ parent = some p

def HasCallee (h : Heap) : Callee → Prop
  | .cls r => h.Has (.cls r)
  | _ => True

end Heap

/-- What a block ends with: a value that is there, and no flow that it does not hold. -/
def Flow.Ends (b : Block) (h : Heap) (flow : Flow) : Prop :=
  h.HasFlow flow ∧ flow.Within (blockLeaves b) (blockGives b)

/-- Blocks of kept statements can be left to the host. -/
def HostUpholds (kept : Stmt → Prop) (allowed : Fault → Prop) (host : Host) : Prop :=
  ∀ h c b, c.files = host.context.files → (∀ y ∈ blockParts b, kept y) →
    ExecUpholds kept allowed h (Flow.Ends b) (host.nested c b)

namespace Upholds

variable {α : Type} {kept : Stmt → Prop} {allowed : Fault → Prop} {host : Host} {h : Heap}
  {good : Heap → α → Prop}

/-! Faults and allocations. -/

section Faults

variable {fs : Files} (rules : Rules kept allowed fs)

include rules

theorem raise (f : Fault) (s : Span) (regular : f.Regular) :
    EvalUpholds kept allowed h good (Eval.raise f s) :=
  throw (rules.regular f regular)

theorem fail (f : RunFault) (s : Span) (regular : f.Regular) :
    EvalUpholds kept allowed h good (Eval.fail f s) :=
  raise rules (.running f) s regular

theorem orFail {x : Option α} (there : ∀ a, x = some a → good h a) (f : RunFault) (s : Span)
    (regular : f.Regular) : EvalUpholds kept allowed h good (Eval.orFail x f s) := by
  cases x with
  | none => exact fail rules f s regular
  | some a => exact pure (there a rfl)

theorem lift {x : Except RunFault α} (yields : Yields (good h) x) (s : Span) :
    EvalUpholds kept allowed h good (Eval.lift x s) := by
  cases x with
  | error f => exact fail rules f s yields
  | ok a => exact pure yields

theorem changeBy {x : Except RunFault (Heap → Heap)}
    (yields : Yields (fun f => h.Later (f h) ∧ (h.Sound kept → (f h).Sound kept)) x) (s : Span) :
    EvalUpholds kept allowed h anything (Eval.lift x s >>= Eval.changeHeap) := by
  cases x with
  | error f => exact throw_bind (rules.regular (.running f) yields)
  | ok f => exact changeHeap yields.1 yields.2

end Faults

theorem newList {items : Array Value} (valid : ∀ v ∈ items, h.Has v) :
    EvalUpholds kept allowed h Heap.Has (Eval.newList items) :=
  after (onHeap (later_law.newList h items) fun sound => ⟨sound.newList valid, trivial⟩)
    fun _ _ _ => pure trivial

theorem newObject {o : Object Value} (valid : h.HasObject o) :
    EvalUpholds kept allowed h Heap.Has (Eval.newObject o) :=
  after (onHeap (later_law.newObject h o) fun sound => ⟨sound.newObject valid, trivial⟩)
    fun _ _ _ => pure trivial

theorem newFunction {d : Decl} (decl : d.Kept kept) :
    EvalUpholds kept allowed h (fun k r => ∃ f, k.functions[r.index]? = some f ∧ f.decl = d)
      (Eval.onHeap (·.newFunction ⟨d, none, false⟩)) := by
  apply onHeap (later_law.newFunction h _)
  intro sound
  exact ⟨sound.newFunction decl nofun, _, Array.getElem?_push_size, rfl⟩

theorem define (t : TableRef) (name : String) (r : FunctionRef) :
    EvalUpholds kept allowed h anything (Eval.changeHeap fun heap => heap.define t name r) :=
  changeHeap (later_law.define h t name r) fun sound => sound.define t name r

theorem truth {x : Eval Value} (value : EvalUpholds kept allowed h Heap.Has x) :
    EvalUpholds kept allowed h anything (Eval.truth x) :=
  bind value fun _ _ _ _ => read fun _ => pure trivial

/-! Builtin methods, and names. -/

section Names

variable {fs : Files} (rules : Rules kept allowed fs)

include rules

theorem print (v : Value) (s : Span) :
    EvalUpholds kept allowed h anything (host.print v s) := by
  apply read
  intro _
  cases host.context.sink with
  | broken reason => exact fail rules _ s trivial
  | working =>
    cases h.text? v with
    | none => exact throw trivial
    | some text => exact aside fun _ => rfl

theorem keyArg (b : Builtin) (v : Value) (s : Span) :
    EvalUpholds kept allowed h anything (b.keyArg v s) := by
  cases v with
  | string x => exact pure trivial
  | _ => exact fail rules _ s ⟨b, rfl⟩

theorem method {b : Builtin} {v : Value} {args : List Value} {x : Span → Eval Value}
    (does : b.Does v args x) (valid : h.HasAll args) (s : Span) :
    EvalUpholds kept allowed h Heap.Has (x s) := by
  have changes {k : Heap} {f : Heap → Heap} (later : k.Later (f k))
      (keeps : k.Sound kept → (f k).Sound kept) :
      EvalUpholds kept allowed k Heap.Has (Eval.changeHeap f >>= fun _ => Pure.pure Value.null) :=
    after (changeHeap later keeps) fun _ _ _ => pure trivial
  cases does with
  | answers scalar => exact pure (Heap.has_of_scalar scalar)
  | renders _ =>
    apply read
    intro _
    cases h.text? v with
    | none => exact throw trivial
    | some text => exact pure trivial
  | readsInteger _ | readsDouble _ =>
    exact after (orFail rules (fun _ _ => trivial) _ s trivial) fun _ _ _ => pure trivial
  | readsList scalar | readsObject scalar =>
    exact read fun _ => pure (Heap.has_of_scalar (scalar _))
  | @changesList r _ _ members =>
    refine changes (later_law.updateList h r _) fun sound => sound.updateList r ?_
    intro items all u member
    rcases members items u member with old | given
    · exact all u old
    · exact valid u given
  | copiesList members =>
    exact read fun sound => newList fun u member => sound.list _ u (members _ u member)
  | listsObject scalar =>
    exact read fun _ => newList fun u member => Heap.has_of_scalar (scalar _ u member)
  | findsKey u => exact after (keyArg rules b u s) fun _ _ _ => read fun _ => pure trivial
  | getsKey u =>
    apply after (keyArg rules b u s)
    exact fun _ _ _ => read fun sound =>
      orFail rules (fun _ => (sound.object _).get?) _ s trivial
  | @setsKey r _ w u given =>
    apply after (keyArg rules b u s)
    exact fun key k later =>
      changes (later_law.setKey k r key w) fun sound => sound.setKey r key (later.has (valid w given))

theorem callBuiltin (v : Value) (name : String) {args : List Value} (valid : h.HasAll args)
    (f : RunFault) (s : Span) (regular : f.Regular) :
    EvalUpholds kept allowed h Heap.Has
      ((Builtin.call? v name args s).getD (Eval.fail f s)) := by
  unfold Builtin.call?
  cases Builtin.find? v.kind name with
  | none => exact fail rules f s regular
  | some b => exact ite (method rules (b.does v args) valid s) (fail rules _ s ⟨b, rfl⟩)

theorem lookup {frame : Frame} (valid : h.HasFrame frame) (name : String) (s : Span) :
    EvalUpholds kept allowed h Heap.Has (frame.lookup name s) := by
  apply read
  intro _
  refine orFail rules (fun v found => ?_) _ s trivial
  cases bound : frame.get? name with
  | some u =>
    rw [bound] at found
    cases found
    exact valid.get? bound
  | none =>
    rw [bound] at found
    obtain ⟨r, -, rfl⟩ := Option.map_eq_some_iff.1 found
    trivial

theorem parentConstructor (frame : Frame) (s : Span) :
    EvalUpholds kept allowed h (fun k p => k.Has p.1) (frame.parentConstructor s) := by
  unfold Frame.parentConstructor
  split
  · refine after (orFail rules (fun _ _ => trivial) .noParent s trivial) fun p k _ => ?_
    apply read
    intro _
    exact after (orFail rules (fun _ _ => trivial) .noParentConstructor s trivial)
      fun _ _ _ => pure trivial
  · exact fail rules _ s trivial

theorem called (frame : Frame) (name : String) (s : Span) :
    EvalUpholds kept allowed h anything (frame.called name s) :=
  read fun _ => orFail rules (fun _ _ => trivial) _ s trivial

theorem property (v : Value) (name : String) (s : Span) :
    EvalUpholds kept allowed h Heap.Has (v.property name s) := by
  cases v with
  | object r =>
    exact read fun sound => orFail rules (fun _ => (sound.object r).get?) _ s trivial
  | _ => exact callBuiltin rules _ name (List.forall_mem_nil _) _ s trivial

theorem callee (v : Value) (name : String) (s : Span) :
    EvalUpholds kept allowed h Heap.HasCallee (v.callee name s) := by
  apply read
  intro sound
  split
  · exact after (orFail rules (fun _ _ => trivial) _ s trivial)
      fun _ _ _ => pure trivial
  · split
    · exact pure trivial
    · rename_i r found
      exact pure ((sound.object _).get? found)
    · exact pure trivial
  · exact pure trivial

theorem checkArity (f : Function) (args : List Value) (s : Span) :
    EvalUpholds kept allowed h anything (Host.checkArity f args s) :=
  ite (fail rules _ s trivial) (pure trivial)

end Names

/-! Calls. -/

section Calls

variable (rules : Rules kept allowed host.context.files) (bodies : HostUpholds kept allowed host)

include rules bodies

theorem body {f : Function} (decl : f.decl.Kept kept) {frame : Frame} (valid : h.HasFrame frame) :
    EvalUpholds kept allowed h Heap.Has (host.body f frame) := by
  apply bind (inside (bodies h host.context f.decl.body rfl decl.body) valid)
  rintro flow k later ⟨answer, within⟩
  cases flow with
  | done => exact pure trivial
  | gave v => exact pure answer
  | left =>
    -- a body that leaves a loop is not empty, so that a kept statement declares it
    have proper : f.decl.body ≠ [] := by
      intro empty
      rw [empty] at within
      cases within
    obtain ⟨x, here, member⟩ := decl.made proper
    exact throw (rules.leaves x f.decl here member within)

variable {caller : Frame} (valid : h.HasFrame caller) {args : List Value} (all : h.HasAll args)

include valid all

theorem call (r : FunctionRef) (s : Span) :
    EvalUpholds kept allowed h Heap.Has (host.call caller r args s) := by
  apply read
  intro sound
  obtain ⟨decl, scopes⟩ := sound.function r
  apply after (checkArity rules _ args s)
  intro _ k later
  apply body rules bodies decl
  refine Heap.HasFrame.assignAll ?_ _ (later.all all)
  cases scope : (h.function r).scope with
  | none => exact later.frame valid.callee
  | some inner => exact later.frame (valid.callee.enter (scopes inner scope))

variable {self : Value} (instance' : h.Has self)

include instance'

theorem construct (c : Class) (r : FunctionRef) (s : Span) :
    EvalUpholds kept allowed h anything (host.construct caller c r self args s) := by
  apply read
  intro sound
  let frame : Frame := { caller.callee with parent := c.parent }
  have started : h.HasFrame frame := valid
  have frames := (started.assign selfName instance').assignAll (h.function r).decl.params all
  have run {k : Heap} (later : h.Later k) : EvalUpholds kept allowed k anything
      (host.body (h.function r) _ >>= fun _ => Pure.pure PUnit.unit) :=
    bind (body rules bodies (sound.function r).1 (later.frame frames)) fun _ _ _ _ => pure trivial
  exact ite (after (fail rules _ s trivial) fun _ _ later => run later)
    (run (.refl h))

theorem callMethod (r : FunctionRef) (s : Span) :
    EvalUpholds kept allowed h Heap.Has (host.callMethod caller r self args s) := by
  apply read
  intro sound
  apply after (checkArity rules _ args s)
  intro _ k later
  apply body rules bodies (sound.function r).1
  exact later.frame ((valid.callee.assign selfName instance').assignAll _ all)

omit instance'

theorem create {r : ClassRef} (there : h.Has (.cls r)) (s : Span) :
    EvalUpholds kept allowed h Heap.Has (host.create caller r args s) := by
  apply read
  intro sound
  apply bind (newObject (sound.blankInstance there))
  intro self k later has
  dsimp only
  cases (h.cls r).constructor with
  | some f =>
    exact after (construct rules bodies (later.frame valid) (later.all all) has _ f s)
      fun _ _ later' => pure (later'.has has)
  | none =>
    exact ite (after (fail rules _ s trivial)
      fun _ _ later' => pure (later'.has has)) (pure has)

theorem callOn {v : Value} (has : h.Has v) (name : String) {callee : Callee}
    (there : h.HasCallee callee) (s : Span) :
    EvalUpholds kept allowed h Heap.Has (host.callOn caller v name callee args s) := by
  cases callee with
  | method r => exact callMethod rules bodies valid all has r s
  | function r => exact call rules bodies valid all r s
  | cls r => exact create rules bodies valid all there s
  | builtin => exact callBuiltin rules v name all _ s trivial

end Calls

/-! Expressions. -/

mutual

theorem evaluate {h : Heap} (rules : Rules kept allowed host.context.files)
    (bodies : HostUpholds kept allowed host) {frame : Frame} (valid : h.HasFrame frame) (e : Expr) :
    EvalUpholds kept allowed h Heap.Has (host.evaluate frame e) := by
  cases e with
  | literal v s => exact pure v.has_value
  | name x s => exact lookup rules valid x s
  | binary op l r s =>
    apply bind (evaluate rules bodies valid l)
    intro u k later _
    apply bind (evaluate rules bodies (later.frame valid) r)
    intro v k' _ _
    exact read fun _ => lift rules (op.apply_yields u v) s
  | negate e s =>
    exact bind (evaluate rules bodies valid e) fun v _ _ _ => lift rules v.negate_yields s
  | logic op l r s =>
    apply after (truth (evaluate rules bodies valid l))
    intro b k later
    apply ite (pure trivial)
    exact after (truth (evaluate rules bodies (later.frame valid) r)) fun _ _ _ => pure trivial
  | call x args s =>
    apply after (called rules frame x s)
    intro r k later
    have frames := later.frame valid
    apply bind (evaluateAll rules bodies frames args)
    intro vs k' later' all
    exact call rules bodies (later'.frame frames) all r s
  | method e x args s =>
    apply bind (evaluate rules bodies valid e)
    intro v k later has
    apply bind (callee rules v x s)
    intro callee k' later' there
    have frames := later'.frame (later.frame valid)
    apply bind (evaluateAll rules bodies frames args)
    intro vs k'' later'' all
    have still : k''.HasCallee callee := by
      cases callee with
      | cls r => exact later''.has (v := .cls r) there
      | _ => trivial
    exact callOn rules bodies (later''.frame frames) all (later''.has (later'.has has)) x still s
  | property e x s =>
    exact bind (evaluate rules bodies valid e) fun v _ _ _ => property rules v x s
  | index e i s =>
    apply bind (evaluate rules bodies valid e)
    intro v k later _
    apply bind (evaluate rules bodies (later.frame valid) i)
    intro key k' _ _
    exact read fun sound => lift rules (sound.indexed v key) s
  | group e s => exact evaluate rules bodies valid e
  | list items s =>
    apply bind (evaluateAll rules bodies valid items)
    intro vs k _ all
    exact newList fun v member => all v (List.mem_toArray.1 member)
  | object entries s =>
    exact bind (evaluateEntries rules bodies valid entries .empty) fun o _ _ all => newObject all
  | create path args s =>
    apply read
    intro sound
    have found : EvalUpholds kept allowed h (fun k r => k.Has (.cls r))
        (Eval.lift (h.resolveClass frame path) s) := lift rules (sound.resolveClass valid path) s
    apply bind found
    intro c k later there
    have frames := later.frame valid
    apply bind (evaluateAll rules bodies frames args)
    intro vs k' later' all
    exact create rules bodies (later'.frame frames) all (later'.has there) s

theorem evaluateAll {h : Heap} (rules : Rules kept allowed host.context.files)
    (bodies : HostUpholds kept allowed host) {frame : Frame} (valid : h.HasFrame frame)
    (es : List Expr) : EvalUpholds kept allowed h Heap.HasAll (host.evaluateAll frame es) := by
  cases es with
  | nil => exact pure (List.forall_mem_nil _)
  | cons e es =>
    apply bind (evaluate rules bodies valid e)
    intro v k later has
    apply bind (evaluateAll rules bodies (later.frame valid) es)
    intro vs k' later' all
    exact pure (List.forall_mem_cons.2 ⟨later'.has has, all⟩)

theorem evaluateEntries {h : Heap} (rules : Rules kept allowed host.context.files)
    (bodies : HostUpholds kept allowed host) {frame : Frame} (valid : h.HasFrame frame)
    (es : List (String × Expr)) {o : Object Value} (all : h.HasObject o) :
    EvalUpholds kept allowed h Heap.HasObject (host.evaluateEntries frame es o) := by
  match es with
  | [] => exact pure all
  | (key, e) :: rest =>
    apply bind (evaluate rules bodies valid e)
    intro v k later has
    exact evaluateEntries rules bodies (later.frame valid) rest ((later.object all).set key has)

end

/-! Loops. -/

theorem next {rest : Exec Flow} (others : ExecUpholds kept allowed h Heap.HasFlow rest)
    (flow : Flow) :
    h.HasFlow flow → ExecUpholds kept allowed h Heap.HasFlow
      (match flow with
        | .done => rest
        | .left => return .done
        | .gave v => return .gave v) := by
  intro valid
  cases flow with
  | done => exact others
  | left => exact pure trivial
  | gave v => exact pure valid

section Loops

variable {test : Exec Bool} {round : Exec Flow}
  (tests : ∀ k, ExecUpholds kept allowed k anything test)
  (rounds : ∀ k, ExecUpholds kept allowed k Heap.HasFlow round)

include rounds

theorem visit {bindings : List (List (String × Value))} (valid : ∀ bs ∈ bindings, h.HasEntries bs) :
    ExecUpholds kept allowed h Heap.HasFlow (Exec.visit round bindings) := by
  induction bindings generalizing h with
  | nil => exact pure trivial
  | cons bs bindings ih =>
    obtain ⟨first, others⟩ := List.forall_mem_cons.1 valid
    apply after (assignEach first)
    intro _ k later
    apply bind (rounds k)
    intro flow k' later' answer
    have still (bs) (member : bs ∈ bindings) : k'.HasEntries bs :=
      later'.entries (later.entries (others bs member))
    exact next (ih still) flow answer

theorem count (name : String) (n : Nat) (i : Int) :
    ExecUpholds kept allowed h Heap.HasFlow (Exec.count name round n i) := by
  induction n generalizing h i with
  | zero => exact pure trivial
  | succ n ih =>
    apply after (assign name (v := .int _) trivial)
    intro _ k _
    exact bind (rounds k) fun flow _ _ answer => next (ih (i + 1)) flow answer

include tests

theorem repeatWhile (n : Nat) :
    ExecUpholds kept allowed h Heap.HasFlow (Exec.repeatWhile test round n) := by
  induction n generalizing h with
  | zero => exact throw trivial
  | succ n ih =>
    apply after (tests h)
    intro b k _
    exact ite (bind (rounds k) fun flow _ _ answer => next ih flow answer) (pure trivial)

end Loops

/-! Modules. -/

/-- A flow at the top level, where only statements that run through may stand. -/
def Tolerated (allowed : Fault → Prop) : Flow → Prop
  | .done => True
  | .left => allowed (.running .strayLeave)
  | .gave _ => allowed (.running .strayGive)

theorem topLevel {run : Block → Exec Flow} {b : Block}
    (runs : ∀ x ∈ b, ∀ k, ExecUpholds kept allowed k (fun _ => Tolerated allowed) (run [x])) :
    ExecUpholds kept allowed h anything (Script.topLevel run b) := by
  induction b generalizing h with
  | nil => exact pure trivial
  | cons x b ih =>
    obtain ⟨first, others⟩ := List.forall_mem_cons.1 runs
    apply bind (first h)
    intro flow k _ tolerated
    cases flow with
    | done => exact ih others
    | left => exact throw tolerated
    | gave v => exact throw tolerated

theorem runProgram {run : Block → Exec Flow} {b : Block}
    (runs : ∀ x ∈ b, ∀ k, ExecUpholds kept allowed k (fun _ => Tolerated allowed) (run [x])) :
    ExecUpholds kept allowed h anything (Script.runProgram run b) := by
  apply topLevel
  intro x member
  rcases List.mem_append.1 member with filtered | filtered
  · exact runs x (List.mem_filter.1 filtered).1
  · exact runs x (List.mem_filter.1 filtered).1

/-- However a module fails, the failure of the statement that runs it is a regular one. -/
theorem module {fs : Files} (rules : Rules kept allowed fs) (access : Access) (file : String)
    (s : Span) {x : Exec Unit}
    (upholds : ∀ k, ExecUpholds kept (fun _ => True) k anything x) :
    EvalUpholds kept allowed h (fun k m => k.HasFrame m.frame) (Module.run access file s x) := by
  rintro m rfl sound
  have later := later_law.newTable m.heap
  have ended := upholds _ ⟨(Frame.new m.heap).1, (Frame.new m.heap).2, m.output, .empty⟩ rfl
    ⟨sound.newTable, List.forall_mem_nil _⟩
  unfold Module.run
  dsimp only
  cases run : x ⟨(Frame.new m.heap).1, (Frame.new m.heap).2, m.output, .empty⟩ with
  | ok a t =>
    rw [run] at ended
    exact ⟨later.trans ended.1, ended.2.1.1, ended.2.1.2⟩
  | error halt t =>
    rw [run] at ended
    cases halt with
    | fault e => exact ⟨later.trans ended.1, ended.2.1.1, rules.regular _ trivial⟩
    | exhausted => exact ⟨later.trans ended.1, ended.2.1.1, trivial⟩

section Imports

variable (rules : Rules kept allowed host.context.files) (bodies : HostUpholds kept allowed host)
  {x : Stmt} (here : kept x) {file : String} (names : x.file? = some file)

include rules bodies here names

theorem ofFile (access : Access) (s : Span) :
    EvalUpholds kept allowed h (fun k m => k.HasFrame m.frame)
      (Module.ofFile host access file s) := by
  unfold Module.ofFile
  dsimp only
  split
  · exact raise rules _ s trivial
  · rename_i p found
    apply ite (raise rules (.cycle file) s trivial)
    split
    · exact raise rules _ s trivial
    · rename_i text content
      apply module rules access file s
      intro k
      unfold runSource
      cases parsed : parse text with
      | error e => exact throw trivial
      | ok b =>
        have inner := rules.files x here file names host.context p text b rfl found content parsed
        apply runProgram
        intro y member k
        have parts : ∀ z ∈ blockParts [y], kept z := by
          intro z part
          rw [blockParts, blockParts, List.append_nil] at part
          exact inner z (blockParts_of_mem member part)
        -- inside the module all faults may happen, as none of them gets out as it is
        have halts (e : Halt) (_ : e.Allowed allowed) : e.Allowed fun _ => True := by
          cases e <;> trivial
        have flows (flow : Flow) : Tolerated (fun _ => True) flow := by
          cases flow <;> trivial
        have same : (host.context.module p).files = host.context.files := rfl
        exact (bodies k _ [y] same parts).weaken halts fun _ flow _ => flows flow

end Imports

section Exports

variable {m : Module} (valid : h.HasFrame m.frame)

include valid

theorem exported (r : FunctionRef) : EvalUpholds kept allowed h anything (m.exported r) := by
  apply onHeap (later_law.newFunction h _)
  intro sound
  refine ⟨sound.newFunction (sound.function r).1 ?_, trivial⟩
  rintro _ ⟨⟩
  exact valid

theorem defineAll (t : TableRef) (fs : List (String × FunctionRef)) :
    EvalUpholds kept allowed h anything (m.define t fs) := by
  induction fs generalizing h with
  | nil => exact pure trivial
  | cons f fs ih =>
    apply after (exported valid f.2)
    intro copy k later
    exact after (define t f.1 copy) fun _ _ later' => ih (later'.frame (later.frame valid))

theorem collect (fs : List (String × FunctionRef)) {o : Object Value} (all : h.HasObject o) :
    EvalUpholds kept allowed h Heap.HasObject (m.collect fs o) := by
  induction fs generalizing h o with
  | nil => exact pure all
  | cons f fs ih =>
    apply after (exported valid f.2)
    intro copy k later
    exact ih (later.frame valid) ((later.object all).set f.1 trivial)

theorem sharedVars : h.HasEntries m.sharedVars := by
  intro e member
  obtain ⟨s, -, shared⟩ := List.mem_filterMap.1 member
  obtain ⟨v, found, rfl⟩ := Option.map_eq_some_iff.1 shared
  exact valid.get? found

theorem bindAll {fs : Files} (rules : Rules kept allowed fs) (file : String) (s : Span)
    (names : List String) : ExecUpholds kept allowed h anything (m.bind file s names) := by
  induction names generalizing h with
  | nil => exact pure trivial
  | cons name names ih =>
    apply look
    intro t
    split
    · exact after (eval fun frame _ => defineAll valid frame.table _)
        fun _ _ later => ih (later.frame valid)
    · rename_i v _ found
      exact after (assign name (valid.get? found)) fun _ _ later => ih (later.frame valid)
    · exact throw_bind (rules.regular (.notShared name file) trivial)

end Exports

section Imports

variable (rules : Rules kept allowed host.context.files) (bodies : HostUpholds kept allowed host)
  {x : Stmt} (here : kept x) {file : String} (names : x.file? = some file)

include rules bodies here names

theorem importFile (items : Selection) (s : Span) :
    ExecUpholds kept allowed h anything (host.importFile file items s) := by
  apply bind (eval fun _ _ => ofFile rules bodies here names .importing s)
  intro m k _ valid
  cases items with
  | names listed => exact bindAll valid rules file s listed
  | all =>
    let overlaid (frame : Frame) : Frame := { frame with vars := frame.vars.overlay m.frame.vars }
    apply after (modifyFrame (f := overlaid) fun _ frames => Bindings.holds_overlay frames valid)
    intro _ k' later _
    apply eval
    intro frame _
    exact read fun _ => defineAll (later.frame valid) frame.table _

theorem loadFile (name : String) (s : Span) :
    ExecUpholds kept allowed h anything (host.loadFile file name s) := by
  have loaded (frame : Frame) (_ : h.HasFrame frame) : EvalUpholds kept allowed h Heap.Has (do
      let m ← Module.ofFile host .loading file s
      let o := Object.empty.setAll m.sharedVars
      let o ← m.collect (m.functions (← Eval.heap)) o
      Eval.newObject o) := by
    apply bind (ofFile rules bodies here names .loading s)
    intro m k _ valid
    apply read
    intro _
    have shared := (Heap.HasObject.empty (h := k)).setAll (sharedVars valid)
    exact bind (collect valid _ shared) fun o _ _ all => newObject all
  exact bind (eval loaded) fun v _ _ has => assign name has

end Imports

theorem share {fs : Files} (rules : Rules kept allowed fs) (frame : Frame) (s : Span)
    (names : List String) : EvalUpholds kept allowed h anything (frame.share s names) := by
  induction names generalizing h with
  | nil => exact pure trivial
  | cons name names ih =>
    apply read
    intro _
    split
    · rename_i r _
      exact after (changeHeap (later_law.markShared h r) fun sound => sound.markShared r)
        fun _ _ _ => ih
    · apply ite
      · exact after (aside fun _ => rfl) fun _ _ _ => ih
      · exact after (raise rules (.cannotShare name) s trivial) fun _ _ _ => ih

/-! Statements. -/

section Statements

variable (rules : Rules kept allowed host.context.files) (bodies : HostUpholds kept allowed host)

include rules bodies

theorem bound (e : Expr) : ExecUpholds kept allowed h anything (host.bound e) := by
  apply eval
  intro frame valid
  apply bind (evaluate rules bodies valid e)
  intro v k _ _
  cases v with
  | int n => exact pure trivial
  | _ => exact fail rules _ e.span trivial

theorem iterate (header : Header) (s : Span) {round : Exec Flow}
    (rounds : ∀ k, ExecUpholds kept allowed k Heap.HasFlow round) :
    ExecUpholds kept allowed h Heap.HasFlow (host.iterate header s round) := by
  cases header with
  | range x a b =>
    apply after (bound rules bodies a)
    intro m k _
    exact after (bound rules bodies b) fun n _ _ => count rounds x _ _
  | each x e =>
    have source : ExecUpholds kept allowed h Heap.HasAll (Exec.eval fun frame => do
        let v ← host.evaluate frame e
        Eval.lift ((← Eval.heap).items v) s) := by
      apply eval
      intro frame valid
      apply bind (evaluate rules bodies valid e)
      intro v k _ _
      exact read fun sound => lift rules (sound.items v) s
    apply bind source
    intro vs k _ all
    apply visit rounds
    intro bs member
    obtain ⟨v, item, rfl⟩ := List.mem_map.1 member
    exact List.forall_mem_singleton.2 (all v item)
  | pairs x y e =>
    have source : ExecUpholds kept allowed h (fun k ps => ∀ p ∈ ps, k.Has p.1 ∧ k.Has p.2)
        (Exec.eval fun frame => do
          let v ← host.evaluate frame e
          Eval.lift ((← Eval.heap).pairs v) s) := by
      apply eval
      intro frame valid
      apply bind (evaluate rules bodies valid e)
      intro v k _ _
      exact read fun sound => lift rules (sound.pairs v) s
    apply bind source
    intro ps k _ all
    apply visit rounds
    intro bs member
    obtain ⟨p, item, rfl⟩ := List.mem_map.1 member
    exact List.forall_mem_cons.2 ⟨(all p item).1, List.forall_mem_singleton.2 (all p item).2⟩

theorem assignTo (target : Target) {v : Value} (has : h.Has v) (s : Span) :
    ExecUpholds kept allowed h anything (host.assign target v s) := by
  unfold Host.assign
  cases target with
  | name x => exact assign x has
  | index e i =>
    apply eval
    intro frame valid
    apply bind (evaluate rules bodies valid e)
    intro o k later _
    apply bind (evaluate rules bodies (later.frame valid) i)
    intro key k' later' _
    exact read fun _ => changeBy rules
      (Heap.Sound.setIndexed o key (later'.has (later.has has))) s
  | property e x =>
    apply eval
    intro frame valid
    apply bind (evaluate rules bodies valid e)
    intro o k later _
    exact changeBy rules (Heap.Sound.setProperty o x (later.has has)) s

theorem addMembers {detached : Frame} (valid : h.HasFrame detached) {before ms : List Member}
    {own : List (Decl × FunctionRef)} {c : Class} (built : h.Builds before own c)
    (decls : ∀ d ∈ ms.filterMap Member.decl?, d.Kept kept) :
    EvalUpholds kept allowed h
      (fun k c' => c'.name = c.name ∧ c'.parent = c.parent ∧
        ∃ own', k.Builds (before ++ ms) own' c')
      (host.addMembers detached ms c) := by
  induction ms generalizing h before own c with
  | nil =>
    rw [List.append_nil]
    exact pure ⟨rfl, rfl, own, built⟩
  | cons m ms ih =>
    rw [List.append_cons]
    cases m with
    | property x e s =>
      apply bind (evaluate rules bodies valid e)
      intro v k later has
      exact ih (later.frame valid) ((later.builds built).property x e s has) decls
    | method d =>
      obtain ⟨first, others⟩ := List.forall_mem_cons.1 decls
      apply bind (newFunction first)
      intro r k later made
      exact ih (later.frame valid) ((later.builds built).method d made) others
    | constructor d =>
      obtain ⟨first, others⟩ := List.forall_mem_cons.1 decls
      apply bind (newFunction first)
      intro r k later _
      exact ih (later.frame valid) ((later.builds built).constructor d r) others

/-- A class statement makes a new class of its members and of the parent that it names. -/
theorem declaredClass {frame : Frame} (valid : h.HasFrame frame) {name : String}
    {path : Option ClassPath} {ms : List Member} {s : Span}
    (inner : ∀ y ∈ (Stmt.cls name path ms s).parts, kept y) :
    EvalUpholds kept allowed h
      (fun k v => ∃ r c own, v = .cls r ∧ ¬ h.Has (.cls r) ∧ k.classes[r.index]? = some c ∧
        c.name = name ∧ h.Extends frame path c.parent ∧ k.Builds ms own c)
      (host.declaredClass frame name path ms s) := by
  have here := inner _ (Stmt.mem_parts _)
  have decls (d : Decl) (member : d ∈ ms.filterMap Member.decl?) : d.Kept kept :=
    .of_parts inner member
  have built {k : Heap} (since : h.Later k) {p : Option ClassRef} (there : ∀ r ∈ p, k.Has (.cls r))
      (above : h.Extends frame path p) :
      EvalUpholds kept allowed k
        (fun k v => ∃ r c own, v = .cls r ∧ ¬ h.Has (.cls r) ∧ k.classes[r.index]? = some c ∧
          c.name = name ∧ h.Extends frame path c.parent ∧ k.Builds ms own c) (do
        let c := Class.under (← Eval.heap) name p
        let detached ← Eval.onHeap Frame.new
        let c ← host.addMembers detached ms c
        return Value.cls (← Eval.onHeap (·.newClass c))) := by
    apply read
    intro sound
    have detach : EvalUpholds kept allowed k Heap.HasFrame (Eval.onHeap Frame.new) :=
      onHeap (later_law.newTable k) fun sound => ⟨sound.newTable, List.forall_mem_nil _⟩
    apply bind detach
    intro detached k' later frames
    have start := later.builds (sound.under name there)
    apply bind (addMembers rules bodies frames start decls)
    rintro c k'' later' ⟨named, parent, own, made⟩
    have named : c.name = name := named.trans (Class.under_name k name p)
    have above : h.Extends frame path c.parent := by
      rw [parent, Class.under_parent]
      exact above
    have fresh : ¬ h.Has (.cls ⟨k''.classes.size⟩) :=
      Nat.not_lt_of_le ((since.trans later).trans later').size_le
    have bound : EvalUpholds kept allowed k''
        (fun k r => ¬ h.Has (.cls r) ∧ k.classes[r.index]? = some c ∧ k.Builds ms own c)
        (Eval.onHeap (·.newClass c)) := by
      have later := later_law.newClass k'' c
      apply onHeap later
      intro sound
      rw [← named] at here
      exact ⟨sound.newClass here made, fresh, Array.getElem?_push_size, later.builds made⟩
    exact bind bound fun r _ _ ⟨fresh, found, made⟩ =>
      pure ⟨r, c, own, rfl, fresh, found, named, above, made⟩
  cases path with
  | none => exact built (.refl h) nofun rfl
  | some path =>
    have resolved : EvalUpholds kept allowed h
        (fun k p => (∀ r ∈ p, k.Has (.cls r)) ∧ h.Extends frame (some path) p) (do
        return some (← Eval.lift ((← Eval.heap).resolveClass frame path) s)) := by
      apply read
      intro sound
      have found : EvalUpholds kept allowed h
          (fun k r => k.Has (.cls r) ∧ h.resolveClass frame path = .ok r)
          (Eval.lift (h.resolveClass frame path) s) :=
        lift rules (sound.resolveClass valid path).known s
      apply bind found
      rintro r k _ ⟨there, same⟩
      refine pure ⟨?_, r, same, rfl⟩
      rintro _ ⟨⟩
      exact there
    have whole := bind resolved fun p k since ⟨there, above⟩ => built since there above
    exact whole

end Statements

theorem effect {f : Frame → Eval α}
    (upholds : ∀ frame, h.HasFrame frame → EvalUpholds kept allowed h anything (f frame)) :
    ExecUpholds kept allowed h Heap.HasFlow (Exec.eval f >>= fun _ => Pure.pure Flow.done) :=
  after (eval upholds) fun _ _ _ => pure trivial

mutual

theorem execute {h : Heap} (rules : Rules kept allowed host.context.files)
    (bodies : HostUpholds kept allowed host) (x : Stmt) (inner : ∀ y ∈ x.parts, kept y) :
    ExecUpholds kept allowed h Heap.HasFlow (host.execute x) := by
  have here := inner x x.mem_parts
  cases x with
  | expression e s => exact effect fun frame valid => (evaluate rules bodies valid e).forget
  | print e s =>
    apply effect
    intro frame valid
    exact bind (evaluate rules bodies valid e) fun v _ _ _ => print rules v s
  | assign target e s =>
    apply bind (eval fun frame valid => evaluate rules bodies valid e)
    intro v k _ has
    exact after (assignTo rules bodies target has s) fun _ _ _ => pure trivial
  | branch bs o s =>
    cases o with
    | none =>
      simp only [Stmt.parts, otherwiseParts, List.append_nil, List.forall_mem_cons] at inner
      apply bind (executeBranches rules bodies bs inner.2)
      intro chosen k _ answer
      cases chosen with
      | some flow => exact pure (answer flow rfl)
      | none => exact pure trivial
    | some b =>
      simp only [Stmt.parts, otherwiseParts, List.forall_mem_cons, List.forall_mem_append] at inner
      apply bind (executeBranches rules bodies bs inner.2.1)
      intro chosen k _ answer
      cases chosen with
      | some flow => exact pure (answer flow rfl)
      | none => exact executeBlock rules bodies b inner.2.2
  | loop e b s =>
    have tests (k : Heap) : ExecUpholds kept allowed k anything
        (Exec.eval fun frame => Eval.truth (host.evaluate frame e)) :=
      eval fun frame valid => truth (evaluate rules bodies valid e)
    have rounds (k : Heap) := executeBlock (h := k) rules bodies b
      fun y part => inner y (List.mem_cons_of_mem _ part)
    exact repeatWhile tests rounds _
  | iterate header b s =>
    have rounds (k : Heap) := executeBlock (h := k) rules bodies b
      fun y part => inner y (List.mem_cons_of_mem _ part)
    exact iterate rules bodies header s rounds
  | leave s => exact pure trivial
  | give value s =>
    cases value with
    | none => exact pure trivial
    | some e =>
      exact bind (eval fun frame valid => evaluate rules bodies valid e) fun v _ _ has => pure has
  | function d s =>
    have decl : d.Kept kept := .of_parts inner List.mem_cons_self
    apply effect
    intro frame _
    exact bind (newFunction decl) fun r _ _ _ => define _ _ _
  | init d s => exact eval fun _ _ => fail rules .strayInit s trivial
  | cls name parent ms s =>
    have declared (frame : Frame) (valid : h.HasFrame frame) :
        EvalUpholds kept allowed h Heap.Has (host.declaredClass frame name parent ms s) := by
      apply (declaredClass rules bodies valid inner).weaken fun _ halts => halts
      rintro k v ⟨r, c, own, rfl, -, found, -⟩
      exact (Array.getElem?_eq_some_iff.1 found).1
    apply bind (eval declared)
    intro v k _ there
    exact after (assign name there) fun _ _ _ => pure trivial
  | super args s =>
    apply effect
    intro frame valid
    apply bind (parentConstructor rules frame s)
    rintro ⟨self, c, f⟩ k later has
    have frames := later.frame valid
    apply bind (evaluateAll rules bodies frames args)
    intro vs k' later' all
    exact construct rules bodies (later'.frame frames) all (later'.has has) c f s
  | share names s => exact effect fun frame _ => share rules frame s names
  | imports file items s =>
    exact after (importFile rules bodies here rfl items s) fun _ _ _ => pure trivial
  | load file name s =>
    exact after (loadFile rules bodies here rfl name s) fun _ _ _ => pure trivial

theorem executeBlock {h : Heap} (rules : Rules kept allowed host.context.files)
    (bodies : HostUpholds kept allowed host) (b : List Stmt) (inner : ∀ y ∈ blockParts b, kept y) :
    ExecUpholds kept allowed h Heap.HasFlow (host.executeBlock b) := by
  cases b with
  | nil => exact pure trivial
  | cons x b =>
    simp only [blockParts, List.forall_mem_append] at inner
    apply bind (execute rules bodies x inner.1)
    intro flow k _ answer
    cases flow with
    | done => exact executeBlock rules bodies b inner.2
    | left => exact pure trivial
    | gave v => exact pure answer

theorem executeBranches {h : Heap} (rules : Rules kept allowed host.context.files)
    (bodies : HostUpholds kept allowed host) (bs : List (Expr × List Stmt))
    (inner : ∀ y ∈ branchParts bs, kept y) :
    ExecUpholds kept allowed h (fun k chosen => ∀ flow ∈ chosen, k.HasFlow flow)
      (host.executeBranches bs) := by
  match bs with
  | [] => exact pure nofun
  | (e, b) :: rest =>
    simp only [branchParts, List.forall_mem_append] at inner
    apply after (eval fun frame valid => truth (evaluate rules bodies valid e))
    intro c k _
    apply ite
    · apply bind (executeBlock rules bodies b inner.1)
      intro flow k' _ answer
      apply pure
      rintro _ ⟨⟩
      exact answer
    · exact executeBranches rules bodies rest inner.2

end

/-- Runs of kept statements, however deep they nest. -/
theorem run {fs : Files} (rules : Rules kept allowed fs) (limit : Nat) {c : Context}
    (same : c.files = fs) {b : Block} (inner : ∀ y ∈ blockParts b, kept y) :
    ExecUpholds kept allowed h (Flow.Ends b) (Script.run limit c b) := by
  -- the blocks change with each nested run, the statements that are kept do not
  induction limit generalizing h c b with
  | zero => exact throw trivial
  | succ n ih =>
    subst same
    have bodies : HostUpholds kept allowed ⟨c, n, Script.run n⟩ :=
      fun h c' b same inner => ih same inner
    exact (executeBlock rules bodies b inner).and (Flows.executeBlock b)

/-! Programs and entries. -/

section Programs

variable {c : Context} (rules : Rules kept allowed c.files) {b : Block}
  (inner : ∀ y ∈ blockParts b, kept y)
  (tolerated : ∀ x ∈ b, ∀ flow : Flow, flow.Within (blockLeaves [x]) (blockGives [x]) →
    Tolerated allowed flow)

include rules inner tolerated

theorem program (limit : Nat) :
    ExecUpholds kept allowed h anything (Script.runProgram (Script.run limit c) b) := by
  apply runProgram
  intro x member k
  have parts : ∀ y ∈ blockParts [x], kept y := by
    intro y part
    rw [blockParts, blockParts, List.append_nil] at part
    exact inner y (blockParts_of_mem member part)
  exact (run rules limit rfl parts).weaken (fun _ halts => halts)
    fun _ flow ends => tolerated x member flow ends.2

theorem entry : ExecUpholds kept allowed h anything (Repl.runEntry c b) := by
  have bodies : HostUpholds kept allowed (.of Session.unlimited c) :=
    fun h c' b same inner => run rules Session.unlimited same inner
  unfold Repl.runEntry
  split
  · rename_i e span
    apply eval
    intro frame valid
    apply bind (evaluate rules bodies valid e)
    intro v k _ _
    split
    · exact pure trivial
    · exact print rules _ e.span
  · exact program rules inner tolerated Session.unlimited

end Programs

end Upholds

end Script
