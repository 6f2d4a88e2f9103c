import Script.Proofs.Methods
import Script.Session

/-! What a run can do to the heap. All changes go through the operations of the heap, so a relation
that each of them respects holds between the heaps before and after any run, however it ends. -/

namespace Script

variable {σ α β : Type}

/-- The state that a computation leaves behind, whether it succeeds or not. -/
def endState : EStateM.Result Halt σ α → σ
  | .ok _ s => s
  | .error _ s => s

def Stays (R : σ → σ → Prop) (x : EStateM Halt σ α) : Prop :=
  ∀ s, R s (endState (x s))

/-- A relation between an earlier and a later state. -/
structure Progress (R : σ → σ → Prop) : Prop where
  refl : ∀ s, R s s
  trans : ∀ {s t u}, R s t → R t u → R s u

namespace Progress

variable {R : σ → σ → Prop} (law : Progress R)

include law

theorem pure (a : α) : Stays R (Pure.pure a) := law.refl

theorem throw (e : Halt) : Stays R (throw e : EStateM Halt σ α) := law.refl

theorem get : Stays R (get : EStateM Halt σ σ) := law.refl

theorem bind {x : EStateM Halt σ α} {f : α → EStateM Halt σ β} (first : Stays R x)
    (next : ∀ a, Stays R (f a)) : Stays R (x >>= f) := by
  intro s
  have before := first s
  change R s (endState (EStateM.bind x f s))
  unfold EStateM.bind
  cases run : x s with
  | ok a t =>
    rw [run] at before
    exact law.trans before (next a t)
  | error e t =>
    rw [run] at before
    exact before

end Progress

theorem Stays.ite {R : σ → σ → Prop} {c : Prop} [Decidable c] {x y : EStateM Halt σ α}
    (yes : Stays R x) (no : Stays R y) : Stays R (if c then x else y) := by
  split
  · exact yes
  · exact no

/-- A relation that evaluation respects where it is neither of functions nor of classes. -/
structure ValueLaw (R : Machine → Machine → Prop) : Prop extends Progress R where
  newList : ∀ m items, R m { m with heap := (m.heap.newList items).2 }
  updateList : ∀ m r f, R m { m with heap := m.heap.updateList r f }
  newObject : ∀ m o, R m { m with heap := (m.heap.newObject o).2 }
  setKey : ∀ m r key v, R m { m with heap := m.heap.setKey r key v }
  printed : ∀ m text, R m { m with output := m.output ++ text ++ "\n" }

namespace ValueLaw

variable {R : Machine → Machine → Prop} (law : ValueLaw R)

include law

theorem heap : Stays R Eval.heap := law.refl

theorem raise (f : Fault) (s : Span) : Stays R (Eval.raise f s : Eval α) := law.throw _

theorem fail (f : RunFault) (s : Span) : Stays R (Eval.fail f s : Eval α) := law.raise _ s

theorem orFail (x : Option α) (f : RunFault) (s : Span) : Stays R (Eval.orFail x f s) := by
  cases x with
  | none => exact law.fail f s
  | some a => exact law.pure a

theorem lift (x : Except RunFault α) (s : Span) : Stays R (Eval.lift x s) := by
  cases x with
  | error f => exact law.fail f s
  | ok a => exact law.pure a

theorem list (items : Array Value) : Stays R (Eval.newList items) := by
  have made : Stays R (Eval.onHeap (·.newList items)) := fun m => law.newList m items
  exact law.bind made fun _ => law.pure _

theorem object (o : Object Value) : Stays R (Eval.newObject o) := by
  have made : Stays R (Eval.onHeap (·.newObject o)) := fun m => law.newObject m o
  exact law.bind made fun _ => law.pure _

theorem truth {x : Eval Value} (h : Stays R x) : Stays R (Eval.truth x) :=
  law.bind h fun _ => law.bind law.heap fun _ => law.pure _

theorem checkArity (f : Function) (args : List Value) (s : Span) :
    Stays R (Host.checkArity f args s) :=
  Stays.ite (law.fail _ s) (law.pure _)

theorem print {host : Host} (v : Value) (s : Span) : Stays R (host.print v s) := by
  apply law.bind law.heap
  intro h
  cases host.context.sink with
  | broken reason => exact law.fail _ s
  | working =>
    cases h.text? v with
    | none => exact law.throw _
    | some text => exact fun m => law.printed m text

theorem parentConstructor (frame : Frame) (s : Span) : Stays R (frame.parentConstructor s) := by
  unfold Frame.parentConstructor
  split
  · apply law.bind (law.orFail _ _ s)
    intro p
    apply law.bind law.heap
    intro h
    exact law.bind (law.orFail _ _ s) fun _ => law.pure _
  · exact law.fail _ s

theorem keyArg (b : Builtin) (v : Value) (s : Span) : Stays R (b.keyArg v s) := by
  cases v with
  | string x => exact law.pure x
  | _ => exact law.fail _ s

theorem method {b : Builtin} {v : Value} {args : List Value} {x : Span → Eval Value}
    (does : b.Does v args x) (s : Span) : Stays R (x s) := by
  cases does with
  | answers _ => exact law.pure _
  | renders _ =>
    apply law.bind law.heap
    intro h
    cases h.text? v with
    | none => exact law.throw _
    | some text => exact law.pure _
  | readsInteger _ | readsDouble _ => exact law.bind (law.orFail _ _ s) fun _ => law.pure _
  | readsList _ | readsObject _ => exact law.bind law.heap fun _ => law.pure _
  | changesList _ => exact law.bind (fun m => law.updateList m _ _) fun _ => law.pure _
  | copiesList _ | listsObject _ => exact law.bind law.heap fun _ => law.list _
  | findsKey u => exact law.bind (law.keyArg b u s) fun _ => law.bind law.heap fun _ => law.pure _
  | getsKey u =>
    exact law.bind (law.keyArg b u s) fun _ => law.bind law.heap fun _ => law.orFail _ _ s
  | setsKey u _ =>
    apply law.bind (law.keyArg b u s)
    exact fun key => law.bind (fun m => law.setKey m _ key _) fun _ => law.pure _

theorem callBuiltin (v : Value) (name : String) (args : List Value) (f : RunFault) (s : Span) :
    Stays R ((Builtin.call? v name args s).getD (Eval.fail f s)) := by
  unfold Builtin.call?
  cases Builtin.find? v.kind name with
  | none => exact law.fail f s
  | some b => exact Stays.ite (law.method (b.does v args) s) (law.fail _ s)

theorem lookup (frame : Frame) (name : String) (s : Span) : Stays R (frame.lookup name s) :=
  law.bind law.heap fun _ => law.orFail _ _ s

theorem called (frame : Frame) (name : String) (s : Span) : Stays R (frame.called name s) :=
  law.bind law.heap fun _ => law.orFail _ _ s

theorem property (v : Value) (name : String) (s : Span) : Stays R (v.property name s) := by
  cases v with
  | object r => exact law.bind law.heap fun _ => law.orFail _ _ s
  | _ => exact law.callBuiltin _ name [] _ s

theorem callee (v : Value) (name : String) (s : Span) : Stays R (v.callee name s) := by
  apply law.bind law.heap
  intro h
  split
  · exact law.bind (law.orFail _ _ s) fun _ => law.pure _
  · split
    · exact law.pure _
    · exact law.pure _
    · exact law.pure _
  · exact law.pure _

theorem setIndexed {h : Heap} {v key value : Value} {f : Heap → Heap}
    (answer : h.setIndexed v key value = .ok f) (m : Machine) :
    R m { m with heap := f m.heap } := by
  unfold Heap.setIndexed at answer
  split at answer
  · split at answer
    · cases answer
      exact law.updateList m _ _
    · cases answer
  · cases answer
  · cases answer
    exact law.setKey m _ _ _
  · cases answer
  · cases answer
  · cases answer

theorem setProperty {v value : Value} {x : String} {f : Heap → Heap}
    (answer : v.setProperty x value = .ok f) (m : Machine) : R m { m with heap := f m.heap } := by
  unfold Value.setProperty at answer
  split at answer
  · cases answer
    exact law.setKey m _ _ _
  · cases answer

/-- A change that an operation answers with is carried out. -/
theorem changeBy {x : Except RunFault (Heap → Heap)}
    (h : ∀ f, x = .ok f → ∀ m : Machine, R m { m with heap := f m.heap }) (s : Span) :
    Stays R (Eval.lift x s >>= Eval.changeHeap) := by
  cases x with
  | error f => exact fun m => law.refl m
  | ok f => exact h f rfl

end ValueLaw

/-- A relation that every operation on the heap respects. -/
structure HeapLaw (R : Heap → Heap → Prop) : Prop extends Progress R where
  newList : ∀ h items, R h (h.newList items).2
  updateList : ∀ h r f, R h (h.updateList r f)
  newObject : ∀ h o, R h (h.newObject o).2
  setKey : ∀ h r key v, R h (h.setKey r key v)
  newClass : ∀ h c, R h (h.newClass c).2
  newFunction : ∀ h f, R h (h.newFunction f).2
  markShared : ∀ h r, R h (h.markShared r)
  newTable : ∀ h, R h h.newTable.2
  define : ∀ h t name f, R h (h.define t name f)

/-- An evaluation within the law. -/
abbrev EvalStays (R : Heap → Heap → Prop) (x : Eval α) : Prop :=
  Stays (fun m n => R m.heap n.heap) x

/-- An execution within the law, which also stays in its script. -/
abbrev ExecStays (R : Heap → Heap → Prop) (x : Exec α) : Prop :=
  Stays (fun s t => t.frame.table = s.frame.table ∧ R s.machine.heap t.machine.heap) x

abbrev HostStays (R : Heap → Heap → Prop) (host : Host) : Prop :=
  ∀ c b, ExecStays R (host.nested c b)

namespace HeapLaw

variable {R : Heap → Heap → Prop} (law : HeapLaw R)

include law

theorem machine : Progress fun m n : Machine => R m.heap n.heap :=
  ⟨fun m => law.refl m.heap, law.trans⟩

theorem values : ValueLaw fun m n : Machine => R m.heap n.heap where
  toProgress := law.machine
  newList m items := law.newList m.heap items
  updateList m r f := law.updateList m.heap r f
  newObject m o := law.newObject m.heap o
  setKey m r key v := law.setKey m.heap r key v
  printed m _ := law.refl m.heap

theorem state : Progress fun s t : State =>
    t.frame.table = s.frame.table ∧ R s.machine.heap t.machine.heap :=
  ⟨fun s => ⟨rfl, law.refl s.machine.heap⟩,
    fun first next => ⟨next.1.trans first.1, law.trans first.2 next.2⟩⟩

theorem pure (a : α) : EvalStays R (Pure.pure a) := law.machine.pure a

theorem bind {x : Eval α} {f : α → Eval β} (first : EvalStays R x)
    (next : ∀ a, EvalStays R (f a)) : EvalStays R (x >>= f) :=
  law.machine.bind first next

omit law in
theorem onHeap {f : Heap → α × Heap} (h : ∀ k, R k (f k).2) : EvalStays R (Eval.onHeap f) :=
  fun m => h m.heap

omit law in
theorem changeHeap {f : Heap → Heap} (h : ∀ k, R k (f k)) : EvalStays R (Eval.changeHeap f) :=
  fun m => h m.heap

omit law in
theorem inside {x : Exec α} (h : ExecStays R x) (frame : Frame) :
    EvalStays R (Exec.inside frame x) := by
  intro m
  have after := (h ⟨frame, m⟩).2
  unfold Exec.inside
  cases run : x ⟨frame, m⟩ with
  | ok a s =>
    rw [run] at after
    exact after
  | error e s =>
    rw [run] at after
    exact after

omit law in
theorem eval {f : Frame → Eval α} (h : ∀ frame, EvalStays R (f frame)) :
    ExecStays R (Exec.eval f) := by
  rintro ⟨frame, m⟩
  have after := h frame m
  unfold Exec.eval
  dsimp only
  cases run : f frame m with
  | ok a n =>
    rw [run] at after
    exact ⟨rfl, after⟩
  | error e n =>
    rw [run] at after
    exact ⟨rfl, after⟩

theorem assign (name : String) (v : Value) : ExecStays R (Exec.assign name v) :=
  fun s => ⟨rfl, law.refl s.machine.heap⟩

/-! Calls. -/

variable {host : Host}

theorem body (bodies : HostStays R host) (f : Function) (frame : Frame) :
    EvalStays R (host.body f frame) := by
  apply law.bind (inside (bodies host.context f.decl.body) frame)
  intro flow
  cases flow with
  | done => exact law.pure _
  | gave v => exact law.pure v
  | left => exact law.values.fail _ _

theorem call (bodies : HostStays R host) (caller : Frame) (r : FunctionRef) (args : List Value)
    (s : Span) : EvalStays R (host.call caller r args s) :=
  law.bind law.values.heap fun _ =>
    law.bind (law.values.checkArity _ args s) fun _ => law.body bodies _ _

theorem construct (bodies : HostStays R host) (caller : Frame) (c : Class) (r : FunctionRef)
    (self : Value) (args : List Value) (s : Span) :
    EvalStays R (host.construct caller c r self args s) := by
  apply law.bind law.values.heap
  intro h
  have run (frame : Frame) :
      EvalStays R (host.body (h.function r) frame >>= fun _ => Pure.pure PUnit.unit) :=
    law.bind (law.body bodies _ frame) fun _ => law.pure _
  exact Stays.ite (law.bind (law.values.fail _ s) fun _ => run _) (run _)

theorem create (bodies : HostStays R host) (caller : Frame) (r : ClassRef) (args : List Value)
    (s : Span) : EvalStays R (host.create caller r args s) := by
  apply law.bind law.values.heap
  intro h
  apply law.bind (law.values.object _)
  intro self
  dsimp only
  cases (h.cls r).constructor with
  | some f => exact law.bind (law.construct bodies caller _ f self args s) fun _ => law.pure self
  | none => exact Stays.ite (law.bind (law.values.fail _ s) fun _ => law.pure self) (law.pure self)

theorem callMethod (bodies : HostStays R host) (caller : Frame) (r : FunctionRef) (self : Value)
    (args : List Value) (s : Span) : EvalStays R (host.callMethod caller r self args s) :=
  law.bind law.values.heap fun _ =>
    law.bind (law.values.checkArity _ args s) fun _ => law.body bodies _ _

/-! Expressions. -/

theorem callOn (bodies : HostStays R host) (caller : Frame) (v : Value) (name : String)
    (callee : Callee) (args : List Value) (s : Span) :
    EvalStays R (host.callOn caller v name callee args s) := by
  cases callee with
  | method r => exact law.callMethod bodies caller r v args s
  | function r => exact law.call bodies caller r args s
  | cls r => exact law.create bodies caller r args s
  | builtin => exact law.values.callBuiltin v name args _ s

mutual

theorem evaluate (bodies : HostStays R host) (frame : Frame) (e : Expr) :
    EvalStays R (host.evaluate frame e) := by
  cases e with
  | literal v s => exact law.pure _
  | name x s => exact law.values.lookup frame x s
  | binary op l r s =>
    apply law.bind (evaluate bodies frame l)
    intro u
    apply law.bind (evaluate bodies frame r)
    intro v
    exact law.bind law.values.heap fun _ => law.values.lift _ s
  | negate e s => exact law.bind (evaluate bodies frame e) fun _ => law.values.lift _ s
  | logic op l r s =>
    apply law.bind (law.values.truth (evaluate bodies frame l))
    intro b
    apply Stays.ite (law.pure _)
    exact law.bind (law.values.truth (evaluate bodies frame r)) fun _ => law.pure _
  | call x args s =>
    apply law.bind (law.values.called frame x s)
    intro r
    exact law.bind (evaluateAll bodies frame args) fun _ => law.call bodies frame r _ s
  | method e x args s =>
    apply law.bind (evaluate bodies frame e)
    intro v
    apply law.bind (law.values.callee v x s)
    intro callee
    exact law.bind (evaluateAll bodies frame args) fun _ => law.callOn bodies frame v x callee _ s
  | property e x s => exact law.bind (evaluate bodies frame e) fun v => law.values.property v x s
  | index e i s =>
    apply law.bind (evaluate bodies frame e)
    intro v
    apply law.bind (evaluate bodies frame i)
    intro key
    exact law.bind law.values.heap fun _ => law.values.lift _ s
  | group e s => exact evaluate bodies frame e
  | list items s => exact law.bind (evaluateAll bodies frame items) fun _ => law.values.list _
  | object entries s =>
    exact law.bind (evaluateEntries bodies frame entries .empty) fun o => law.values.object o
  | create path args s =>
    apply law.bind law.values.heap
    intro h
    apply law.bind (law.values.lift _ s)
    intro c
    exact law.bind (evaluateAll bodies frame args) fun _ => law.create bodies frame c _ s

theorem evaluateAll (bodies : HostStays R host) (frame : Frame) (es : List Expr) :
    EvalStays R (host.evaluateAll frame es) := by
  cases es with
  | nil => exact law.pure _
  | cons e es =>
    apply law.bind (evaluate bodies frame e)
    intro v
    exact law.bind (evaluateAll bodies frame es) fun _ => law.pure _

theorem evaluateEntries (bodies : HostStays R host) (frame : Frame) (es : List (String × Expr))
    (o : Object Value) : EvalStays R (host.evaluateEntries frame es o) := by
  match es with
  | [] => exact law.pure o
  | (key, e) :: rest =>
    apply law.bind (evaluate bodies frame e)
    intro v
    exact evaluateEntries bodies frame rest _

end

/-! Loops. -/

theorem done : ExecStays R (Pure.pure Flow.done) := law.state.pure _

theorem next {rest : Exec Flow} (h : ExecStays R rest) (flow : Flow) :
    ExecStays R
      (match flow with
        | .done => rest
        | .left => return .done
        | .gave v => return .gave v) := by
  cases flow with
  | done => exact h
  | left => exact law.state.pure _
  | gave v => exact law.state.pure _

theorem repeatWhile {test : Exec Bool} {body : Exec Flow} (tests : ExecStays R test)
    (bodies : ExecStays R body) (n : Nat) : ExecStays R (Exec.repeatWhile test body n) := by
  induction n with
  | zero => exact law.state.throw _
  | succ n ih =>
    apply law.state.bind tests
    intro b
    exact Stays.ite (law.state.bind bodies fun flow => law.next ih flow) law.done

theorem visit {body : Exec Flow} (bodies : ExecStays R body)
    (rounds : List (List (String × Value))) : ExecStays R (Exec.visit body rounds) := by
  have assigned (bindings : List (String × Value)) :
      ExecStays R (bindings.forM fun b => Exec.assign b.1 b.2) := by
    induction bindings with
    | nil => exact law.state.pure _
    | cons b bindings ih => exact law.state.bind (law.assign b.1 b.2) fun _ => ih
  induction rounds with
  | nil => exact law.done
  | cons bindings rounds ih =>
    apply law.state.bind (assigned bindings)
    intro _
    exact law.state.bind bodies fun flow => law.next ih flow

theorem count (name : String) {body : Exec Flow} (bodies : ExecStays R body) (n : Nat) (i : Int) :
    ExecStays R (Exec.count name body n i) := by
  induction n generalizing i with
  | zero => exact law.done
  | succ n ih =>
    apply law.state.bind (law.assign name _)
    intro _
    exact law.state.bind bodies fun flow => law.next (ih (i + 1)) flow

/-! Modules. -/

theorem topLevel {run : Block → Exec Flow} (h : ∀ b, ExecStays R (run b)) (b : Block) :
    ExecStays R (topLevel run b) := by
  induction b with
  | nil => exact law.state.pure _
  | cons s b ih =>
    apply law.state.bind (h [s])
    intro flow
    cases flow with
    | done => exact ih
    | left => exact law.state.throw _
    | gave v => exact law.state.throw _

theorem runSource {run : Block → Exec Flow} (h : ∀ b, ExecStays R (run b)) (text : String) :
    ExecStays R (runSource run text) := by
  unfold Script.runSource
  cases parse text with
  | ok b => exact law.topLevel h _
  | error e => exact law.state.throw _

theorem module (access : Access) (file : String) (s : Span) {x : Exec Unit} (h : ExecStays R x) :
    EvalStays R (Module.run access file s x) := by
  intro m
  have start : R m.heap (Frame.new m.heap).2 := law.newTable m.heap
  have after := (h ⟨(Frame.new m.heap).1, (Frame.new m.heap).2, m.output, .empty⟩).2
  unfold Module.run
  dsimp only
  cases run : x ⟨(Frame.new m.heap).1, (Frame.new m.heap).2, m.output, .empty⟩ with
  | ok a t =>
    rw [run] at after
    exact law.trans start after
  | error e t =>
    rw [run] at after
    cases e with
    | fault e => exact law.trans start after
    | exhausted => exact law.trans start after

theorem ofFile (bodies : HostStays R host) (access : Access) (file : String) (s : Span) :
    EvalStays R (Module.ofFile host access file s) := by
  unfold Module.ofFile
  dsimp only
  split
  · exact law.values.raise _ s
  · apply Stays.ite (law.values.raise _ s)
    split
    · exact law.values.raise _ s
    · exact law.module access file s (law.runSource (bodies _) _)

theorem exported (m : Module) (r : FunctionRef) : EvalStays R (m.exported r) :=
  onHeap fun k => law.newFunction k _

theorem defineAll (m : Module) (t : TableRef) (fs : List (String × FunctionRef)) :
    EvalStays R (m.define t fs) := by
  induction fs with
  | nil => exact law.pure _
  | cons f fs ih =>
    apply law.bind (law.exported m f.2)
    intro copy
    exact law.bind (changeHeap fun k => law.define k t f.1 copy) fun _ => ih

theorem collect (m : Module) (fs : List (String × FunctionRef)) (o : Object Value) :
    EvalStays R (m.collect fs o) := by
  induction fs generalizing o with
  | nil => exact law.pure o
  | cons f fs ih => exact law.bind (law.exported m f.2) fun _ => ih _

theorem bindAll (m : Module) (file : String) (s : Span) (names : List String) :
    ExecStays R (m.bind file s names) := by
  induction names with
  | nil => exact law.state.pure _
  | cons name names ih =>
    apply law.state.bind law.state.get
    intro t
    split
    · exact law.state.bind (eval fun frame => law.defineAll m frame.table _) fun _ => ih
    · exact law.state.bind (law.assign name _) fun _ => ih
    · exact law.state.bind (law.state.throw _) fun _ => ih

theorem importFile (bodies : HostStays R host) (file : String) (items : Selection) (s : Span) :
    ExecStays R (host.importFile file items s) := by
  apply law.state.bind (eval fun _ => law.ofFile bodies .importing file s)
  intro m
  cases items with
  | names names => exact law.bindAll m file s names
  | all =>
    have bound : ExecStays R (modify fun s =>
        { s with frame := { s.frame with vars := s.frame.vars.overlay m.frame.vars } }) :=
      fun s => ⟨rfl, law.refl s.machine.heap⟩
    apply law.state.bind bound
    intro _
    exact eval fun frame => law.bind law.values.heap fun _ => law.defineAll m frame.table _

theorem loadFile (bodies : HostStays R host) (file name : String) (s : Span) :
    ExecStays R (host.loadFile file name s) := by
  have loaded (frame : Frame) : EvalStays R (do
      let m ← Module.ofFile host .loading file s
      let o := Object.empty.setAll m.sharedVars
      let o ← m.collect (m.functions (← Eval.heap)) o
      Eval.newObject o) := by
    apply law.bind (law.ofFile bodies .loading file s)
    intro m
    apply law.bind law.values.heap
    intro h
    exact law.bind (law.collect m _ _) fun o => law.values.object o
  exact law.state.bind (eval loaded) fun v => law.assign name v

theorem share (frame : Frame) (s : Span) (names : List String) :
    EvalStays R (frame.share s names) := by
  induction names with
  | nil => exact law.pure _
  | cons name names ih =>
    apply law.bind law.values.heap
    intro h
    split
    · exact law.bind (changeHeap fun k => law.markShared k _) fun _ => ih
    · have noted : EvalStays R (modify fun m : Machine =>
          { m with shared := m.shared.insert name () }) := fun m => law.refl m.heap
      exact Stays.ite (law.bind noted fun _ => ih) (law.bind (law.values.raise _ s) fun _ => ih)

/-! Statements. -/

theorem bound (bodies : HostStays R host) (e : Expr) : ExecStays R (host.bound e) := by
  refine eval fun frame => law.bind (law.evaluate bodies frame e) fun v => ?_
  cases v with
  | int n => exact law.pure n
  | _ => exact law.values.fail _ _

theorem iterate (bodies : HostStays R host) (header : Header) (s : Span) {body : Exec Flow}
    (h : ExecStays R body) : ExecStays R (host.iterate header s body) := by
  have source {α : Type} (e : Expr) (read : Heap → Value → Except RunFault α) (frame : Frame) :
      EvalStays R (do
        let v ← host.evaluate frame e
        Eval.lift (read (← Eval.heap) v) s) := by
    apply law.bind (law.evaluate bodies frame e)
    intro v
    exact law.bind law.values.heap fun _ => law.values.lift _ s
  cases header with
  | range x a b =>
    apply law.state.bind (law.bound bodies a)
    intro m
    apply law.state.bind (law.bound bodies b)
    intro n
    exact law.count x h _ _
  | each x e => exact law.state.bind (eval (source e Heap.items)) fun vs => law.visit h _
  | pairs x y e => exact law.state.bind (eval (source e Heap.pairs)) fun ps => law.visit h _

theorem assignTo (bodies : HostStays R host) (target : Target) (v : Value) (s : Span) :
    ExecStays R (host.assign target v s) := by
  unfold Host.assign
  cases target with
  | name x => exact law.assign x v
  | index e i =>
    refine eval fun frame => law.bind (law.evaluate bodies frame e) fun o => ?_
    apply law.bind (law.evaluate bodies frame i)
    intro key
    exact law.bind law.values.heap fun h =>
      law.values.changeBy (fun f answer => law.values.setIndexed answer) s
  | property e x =>
    refine eval fun frame => law.bind (law.evaluate bodies frame e) fun o => ?_
    exact law.values.changeBy (fun f answer => law.values.setProperty answer) s

theorem addMembers (bodies : HostStays R host) (detached : Frame) (ms : List Member) (c : Class) :
    EvalStays R (host.addMembers detached ms c) := by
  induction ms generalizing c with
  | nil => exact law.pure c
  | cons m ms ih =>
    cases m with
    | property x e s => exact law.bind (law.evaluate bodies detached e) fun v => ih _
    | method d => exact law.bind (onHeap fun k => law.newFunction k _) fun r => ih _
    | constructor d => exact law.bind (onHeap fun k => law.newFunction k _) fun r => ih _

theorem declaredClass (bodies : HostStays R host) (frame : Frame) (name : String)
    (parent : Option ClassPath) (ms : List Member) (s : Span) :
    EvalStays R (host.declaredClass frame name parent ms s) := by
  have built (p : Option ClassRef) : EvalStays R (do
      let c := Class.under (← Eval.heap) name p
      let detached ← Eval.onHeap Frame.new
      let c ← host.addMembers detached ms c
      return Value.cls (← Eval.onHeap (·.newClass c))) := by
    apply law.bind law.values.heap
    intro h
    have new : EvalStays R (Eval.onHeap Frame.new) := onHeap law.newTable
    apply law.bind new
    intro detached
    apply law.bind (law.addMembers bodies detached ms _)
    intro c
    exact law.bind (onHeap fun k => law.newClass k c) fun _ => law.pure _
  cases parent with
  | none => exact built none
  | some path =>
    have resolved : EvalStays R (do
        return some (← Eval.lift ((← Eval.heap).resolveClass frame path) s)) :=
      law.bind law.values.heap fun _ => law.bind (law.values.lift _ s) fun _ => law.pure _
    have whole := law.bind resolved built
    exact whole

theorem effect {f : Frame → Eval α} (h : ∀ frame, EvalStays R (f frame)) :
    ExecStays R (Exec.eval f >>= fun _ => Pure.pure Flow.done) :=
  law.state.bind (eval h) fun _ => law.done

mutual

theorem execute (bodies : HostStays R host) (x : Stmt) : ExecStays R (host.execute x) := by
  cases x with
  | expression e s => exact law.effect fun frame => law.evaluate bodies frame e
  | print e s =>
    exact law.effect fun frame =>
      law.bind (law.evaluate bodies frame e) fun v => law.values.print v s
  | assign target e s =>
    apply law.state.bind (eval fun frame => law.evaluate bodies frame e)
    intro v
    exact law.state.bind (law.assignTo bodies target v s) fun _ => law.done
  | branch bs o s =>
    have chosen := executeBranches bodies bs
    cases o with
    | none =>
      apply law.state.bind chosen
      intro flow
      cases flow with
      | some flow => exact law.state.pure flow
      | none => exact law.done
    | some b =>
      apply law.state.bind chosen
      intro flow
      cases flow with
      | some flow => exact law.state.pure flow
      | none => exact executeBlock bodies b
  | loop e b s =>
    exact law.repeatWhile (eval fun frame => law.values.truth (law.evaluate bodies frame e))
      (executeBlock bodies b) _
  | iterate header b s => exact law.iterate bodies header s (executeBlock bodies b)
  | leave s => exact law.state.pure _
  | give value s =>
    cases value with
    | none => exact law.state.pure _
    | some e =>
      exact law.state.bind (eval fun frame => law.evaluate bodies frame e) fun _ => law.state.pure _
  | function d s =>
    refine law.effect fun frame => law.bind (onHeap fun k => law.newFunction k _) fun r => ?_
    exact changeHeap fun k => law.define k frame.table d.name r
  | init d s => exact eval fun _ => law.values.fail _ s
  | cls x parent ms s =>
    apply law.state.bind (eval fun frame => law.declaredClass bodies frame x parent ms s)
    intro v
    exact law.state.bind (law.assign x v) fun _ => law.done
  | super args s =>
    refine law.effect fun frame => law.bind (law.values.parentConstructor frame s) ?_
    rintro ⟨self, c, f⟩
    apply law.bind (law.evaluateAll bodies frame args)
    intro vs
    exact law.construct bodies frame c f self vs s
  | share names s => exact law.effect fun frame => law.share frame s names
  | imports file items s =>
    exact law.state.bind (law.importFile bodies file items s) fun _ => law.done
  | load file x s => exact law.state.bind (law.loadFile bodies file x s) fun _ => law.done

theorem executeBlock (bodies : HostStays R host) (b : List Stmt) :
    ExecStays R (host.executeBlock b) := by
  cases b with
  | nil => exact law.done
  | cons x b =>
    apply law.state.bind (execute bodies x)
    intro flow
    cases flow with
    | done => exact executeBlock bodies b
    | left => exact law.state.pure _
    | gave v => exact law.state.pure _

theorem executeBranches (bodies : HostStays R host) (bs : List (Expr × List Stmt)) :
    ExecStays R (host.executeBranches bs) := by
  match bs with
  | [] => exact law.state.pure _
  | (e, b) :: rest =>
    apply law.state.bind (eval fun frame => law.values.truth (law.evaluate bodies frame e))
    intro c
    apply Stays.ite
    · exact law.state.bind (executeBlock bodies b) fun _ => law.state.pure _
    · exact executeBranches bodies rest

end

/-- A run, however deep it nests, stays within the law. -/
theorem run (limit : Nat) (c : Context) (b : Block) : ExecStays R (run limit c b) := by
  induction limit generalizing c b with
  | zero => exact law.state.throw _
  | succ n ih =>
    have bodies : HostStays R ⟨c, n, Script.run n⟩ := ih
    exact law.executeBlock bodies b

end HeapLaw

end Script
