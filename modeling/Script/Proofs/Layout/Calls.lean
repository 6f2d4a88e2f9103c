import Script.Proofs.Layout.Values
import Script.Proofs.Methods

/-! Two evaluations side by side: reading and changing the heap, calls, instances and methods without
a class. -/

namespace Script.World

variable {w : World} {α β : Type} {good : α → β → Prop} {s t : Span}

theorem evals_heap {f : Heap → Eval α} {g : Heap → Eval β}
    (next : ∀ h k, w.Heaps h k → w.Evals good (f h) (g k)) :
    w.Evals good (Eval.heap >>= f) (Eval.heap >>= g) := by
  have read : w.Evals w.Heaps Eval.heap Eval.heap := Alike.look fun m n machines => machines.heap
  exact read.bind next

theorem evals_onHeap {f : Heap → α × Heap} {g : Heap → β × Heap}
    (h : ∀ h k, w.Heaps h k → good (f h).1 (g k).1 ∧ w.Heaps (f h).2 (g k).2) :
    w.Evals good (Eval.onHeap f) (Eval.onHeap g) := by
  intro m n machines
  obtain ⟨answers, heaps⟩ := h m.heap n.heap machines.heap
  exact ⟨answers, { machines with heap := heaps }⟩

theorem evals_changeHeap {f : Heap → Heap} (change : w.Change f) :
    w.Evals (Same fun _ => True) (Eval.changeHeap f) (Eval.changeHeap f) := by
  apply Alike.modify
  intro m n machines
  exact { machines with heap := change _ _ machines.heap }

theorem evals_raise {f : Fault} (places : w.view s = w.view t)
    (plain : f.message s = f.message t) : w.Evals good (Eval.raise f s) (Eval.raise f t) :=
  Alike.throw ⟨rfl, places, plain⟩

theorem evals_fail (f : RunFault) (places : w.view s = w.view t) :
    w.Evals good (Eval.fail f s) (Eval.fail f t) :=
  evals_raise places rfl

theorem evals_orFail {good : α → Prop} {x : Option α} (f : RunFault)
    (all : ∀ a, x = some a → good a) (places : w.view s = w.view t) :
    w.Evals (Same good) (Eval.orFail x f s) (Eval.orFail x f t) := by
  cases x with
  | none => exact evals_fail f places
  | some a => exact Alike.pure ⟨rfl, all a rfl⟩

theorem evals_given (x : Option α) (f : RunFault) (places : w.view s = w.view t) :
    w.Evals (Same fun _ => True) (Eval.orFail x f s) (Eval.orFail x f t) :=
  evals_orFail f (fun _ _ => trivial) places

theorem evals_lift {good : α → Prop} {x y : Except RunFault α} (answers : Answers good x y)
    (places : w.view s = w.view t) : w.Evals (Same good) (Eval.lift x s) (Eval.lift y t) := by
  obtain ⟨rfl, all⟩ := answers
  cases x with
  | error f => exact evals_fail f places
  | ok a => exact Alike.pure ⟨rfl, all a rfl⟩

theorem evals_newList {items : Array Value} (owned : ∀ v ∈ items, w.Owns v) :
    w.Evals (Same w.Owns) (Eval.newList items) (Eval.newList items) := by
  have made : w.Evals (Same fun r => w.Owns (.list r)) (Eval.onHeap (·.newList items))
      (Eval.onHeap (·.newList items)) := evals_onHeap fun h k heaps => heaps.newList owned
  exact made.bind_same fun r own => Alike.pure ⟨rfl, own⟩

theorem evals_newObject {o : Object Value} (owned : w.OwnsEntries o.entries) :
    w.Evals (Same w.Owns) (Eval.newObject o) (Eval.newObject o) := by
  have made : w.Evals (Same fun r => w.Owns (.object r)) (Eval.onHeap (·.newObject o))
      (Eval.onHeap (·.newObject o)) := evals_onHeap fun h k heaps => heaps.newObject owned
  exact made.bind_same fun r own => Alike.pure ⟨rfl, own⟩

theorem evals_newFunction {f g : Function} (like : w.Functions f g) :
    w.Evals (Same fun r => w.Owns (.function r)) (Eval.onHeap (·.newFunction f))
      (Eval.onHeap (·.newFunction g)) :=
  evals_onHeap fun _ _ heaps => heaps.newFunction like

theorem evals_truth {x y : Eval Value} (h : w.Evals (Same w.Owns) x y) :
    w.Evals (Same fun _ => True) (Eval.truth x) (Eval.truth y) := by
  refine h.bind_same fun v owned => evals_heap fun _ _ heaps => ?_
  exact Alike.pure ⟨heaps.truthy owned, trivial⟩

/-! Calls. -/

def OwnsFlow (w : World) : Flow → Prop
  | .gave v => w.Owns v
  | _ => True

/-- Blocks that differ only in their places are run alike. -/
def RunsAlike (w : World) (run : Block → Exec Flow) : Prop :=
  ∀ b b' : Block, b.map (Stmt.relocate w.view) = b'.map (Stmt.relocate w.view) →
    w.Execs (Same w.OwnsFlow) (run b) (run b')

def Uniform (h : Host) : Prop :=
  ∀ (w : World) (c : Context), w.RunsAlike (h.nested c)

theorem evals_inside {frame : Frame} (own : w.OwnsFrame frame) {x : Exec α} {y : Exec β}
    (h : w.Execs good x y) : w.Evals good (Exec.inside frame x) (Exec.inside frame y) := by
  intro m n machines
  unfold Exec.inside
  rcases (h ⟨frame, m⟩ ⟨frame, n⟩ ⟨rfl, own, machines⟩).cases with
    ⟨a, b, s, t, run, run', hab, after⟩ | ⟨e, e', s, t, run, run', halts, after⟩
  · rw [run, run']
    exact ⟨hab, after.machine⟩
  · rw [run, run']
    exact ⟨halts, after.machine⟩

variable {host : Host}

theorem body_evals (uniform : Uniform host) {f g : Function} (like : w.Functions f g)
    {frame : Frame} (own : w.OwnsFrame frame) :
    w.Evals (Same w.Owns) (host.body f frame) (host.body g frame) := by
  have run := evals_inside own (uniform w host.context f.decl.body g.decl.body like.body)
  apply run.bind_same
  intro flow owned
  cases flow with
  | done => exact Alike.pure ⟨rfl, trivial⟩
  | gave v => exact Alike.pure ⟨rfl, owned⟩
  | left =>
    rw [like.name]
    exact evals_fail _ like.span

theorem checkArity_evals {f g : Function} (like : w.Functions f g) (args : List Value)
    (places : w.view s = w.view t) :
    w.Evals (Same fun _ => True) (Host.checkArity f args s) (Host.checkArity g args t) := by
  unfold Host.checkArity
  rw [like.params, like.name]
  exact Alike.ite (evals_fail _ places) (Alike.pure ⟨rfl, trivial⟩)

theorem call_evals (uniform : Uniform host) {caller : Frame} (own : w.OwnsFrame caller)
    {r : FunctionRef} (owned : w.Owns (.function r)) {args : List Value} (all : w.OwnsAll args)
    (places : w.view s = w.view t) :
    w.Evals (Same w.Owns) (host.call caller r args s) (host.call caller r args t) := by
  apply evals_heap
  intro h k heaps
  have like := heaps.function owned
  apply (checkArity_evals like args places).bind_same
  intro _ _
  rw [like.params, ← like.scope]
  apply body_evals uniform like
  apply OwnsFrame.assignAll _ _ all
  cases found : (h.function r).scope with
  | none => exact own.callee
  | some scope => exact own.callee.enter (like.owned scope found)

theorem print_evals {v : Value} (owned : w.Owns v)
    (places : w.view s = w.view t) :
    w.Evals (Same fun _ => True) (host.print v s) (host.print v t) := by
  apply evals_heap
  intro h k heaps
  rw [heaps.text? owned]
  cases host.context.sink with
  | broken reason => exact evals_fail _ places
  | working =>
    cases k.text? v with
    | none => exact Alike.throw trivial
    | some text =>
      apply Alike.modify
      intro m n machines
      exact { machines with output := by simp [machines.output] }

/-! Classes and their instances. -/

theorem construct_evals (uniform : Uniform host) {caller : Frame} (own : w.OwnsFrame caller)
    {c : Class} (cls : w.OwnsClass c) {r : FunctionRef} (owned : w.Owns (.function r))
    {self : Value} (instance' : w.Owns self) {args : List Value} (all : w.OwnsAll args)
    (places : w.view s = w.view t) :
    w.Evals (Same fun _ => True) (host.construct caller c r self args s)
      (host.construct caller c r self args t) := by
  apply evals_heap
  intro h k heaps
  have like := heaps.function owned
  have inner : w.OwnsFrame { caller.callee with parent := c.parent } :=
    { own.callee with parent := cls.parent }
  have named : w.OwnsFrame (({ caller.callee with parent := c.parent } : Frame).assign selfName self) :=
    inner.assign instance'
  have run := body_evals uniform like (named.assignAll (k.function r).decl.params all)
  dsimp only
  rw [like.params]
  refine Alike.ite ?_ (run.bind_same fun v _ => Alike.pure ⟨rfl, trivial⟩)
  have failed : w.Evals (Same fun _ : PUnit => True)
      (Eval.fail (.constructorArity c.name (k.function r).decl.params.length args.length) s)
      (Eval.fail (.constructorArity c.name (k.function r).decl.params.length args.length) t) :=
    evals_fail _ places
  exact failed.bind_same fun _ _ => run.bind_same fun v _ => Alike.pure ⟨rfl, trivial⟩

theorem create_evals (uniform : Uniform host) {caller : Frame} (own : w.OwnsFrame caller)
    {r : ClassRef} (owned : w.Owns (.cls r)) {args : List Value} (all : w.OwnsAll args)
    (places : w.view s = w.view t) :
    w.Evals (Same w.Owns) (host.create caller r args s) (host.create caller r args t) := by
  apply evals_heap
  intro h k heaps
  obtain ⟨same, cls⟩ := heaps.cls owned
  obtain ⟨blank, entries⟩ := heaps.blankInstance owned
  dsimp only
  rw [← same, ← blank]
  apply (evals_newObject entries).bind_same
  intro self instance'
  cases found : (h.cls r).constructor with
  | some f =>
    have run := construct_evals uniform own cls (cls.constructor f found) instance' all places
    exact run.bind_same fun _ _ => Alike.pure ⟨rfl, instance'⟩
  | none =>
    refine Alike.ite ?_ (Alike.pure ⟨rfl, instance'⟩)
    have failed : w.Evals (Same fun _ : PUnit => True)
        (Eval.fail (.noConstructor (h.cls r).name args.length) s)
        (Eval.fail (.noConstructor (h.cls r).name args.length) t) := evals_fail _ places
    exact failed.bind_same fun _ _ => Alike.pure ⟨rfl, instance'⟩

theorem callMethod_evals (uniform : Uniform host) {caller : Frame} (own : w.OwnsFrame caller)
    {r : FunctionRef} (owned : w.Owns (.function r)) {self : Value} (instance' : w.Owns self)
    {args : List Value} (all : w.OwnsAll args) (places : w.view s = w.view t) :
    w.Evals (Same w.Owns) (host.callMethod caller r self args s)
      (host.callMethod caller r self args t) := by
  apply evals_heap
  intro h k heaps
  have like := heaps.function owned
  apply (checkArity_evals like args places).bind_same
  intro _ _
  rw [like.params]
  exact body_evals uniform like ((own.callee.assign instance').assignAll _ all)

theorem parentConstructor_evals {frame : Frame} (own : w.OwnsFrame frame)
    (places : w.view s = w.view t) :
    w.Evals (Same fun r => w.Owns r.1 ∧ w.OwnsClass r.2.1 ∧ w.Owns (.function r.2.2))
      (frame.parentConstructor s) (frame.parentConstructor t) := by
  unfold Frame.parentConstructor
  split
  · rename_i self found
    have instance' := own.get? found
    apply (evals_orFail .noParent own.parent places).bind_same
    intro p parent
    apply evals_heap
    intro h k heaps
    obtain ⟨same, cls⟩ := heaps.cls parent
    dsimp only
    rw [← same]
    apply (evals_orFail .noParentConstructor cls.constructor places).bind_same
    intro f owned
    exact Alike.pure ⟨rfl, instance', cls, owned⟩
  · exact evals_fail _ places

/-! Methods without a class. -/

theorem keyArg_evals (b : Builtin) (v : Value) (places : w.view s = w.view t) :
    w.Evals (Same fun _ => True) (b.keyArg v s) (b.keyArg v t) := by
  cases v with
  | string x => exact Alike.pure ⟨rfl, trivial⟩
  | _ => exact evals_fail _ places

theorem method_evals {b : Builtin} {v : Value} {args : List Value} {x : Span → Eval Value}
    (does : b.Does v args x) (owned : w.Owns v) (all : w.OwnsAll args)
    (places : w.view s = w.view t) : w.Evals (Same w.Owns) (x s) (x t) := by
  have done : w.Evals (Same w.Owns) (pure Value.null) (pure Value.null) :=
    Alike.pure ⟨rfl, trivial⟩
  cases does with
  | answers scalar => exact Alike.pure ⟨rfl, owns_of_scalar scalar⟩
  | renders _ =>
    apply evals_heap
    intro h k heaps
    rw [heaps.text? owned]
    cases k.text? v with
    | none => exact Alike.throw trivial
    | some text => exact Alike.pure ⟨rfl, trivial⟩
  | readsInteger _ | readsDouble _ =>
    apply (evals_given _ _ places).bind_same
    intro _ _
    exact Alike.pure ⟨rfl, trivial⟩
  | readsList scalar =>
    apply evals_heap
    intro h k heaps
    rw [(heaps.list owned).1]
    exact Alike.pure ⟨rfl, owns_of_scalar (scalar _)⟩
  | readsObject scalar =>
    apply evals_heap
    intro h k heaps
    rw [(heaps.object owned).1]
    exact Alike.pure ⟨rfl, owns_of_scalar (scalar _)⟩
  | @changesList r _ f members =>
    have change : w.Change fun h => h.updateList r f := by
      intro h k heaps
      apply heaps.updateList owned
      intro items old u member
      rcases members items u member with inside | given
      · exact old u inside
      · exact all u given
    exact (evals_changeHeap change).bind_same fun _ _ => done
  | copiesList members =>
    apply evals_heap
    intro h k heaps
    obtain ⟨same, old⟩ := heaps.list owned
    rw [← same]
    exact evals_newList fun u member => old u (members _ u member)
  | listsObject scalar =>
    apply evals_heap
    intro h k heaps
    rw [(heaps.object owned).1]
    exact evals_newList fun u member => owns_of_scalar (scalar _ u member)
  | findsKey u =>
    apply (keyArg_evals b u places).bind_same
    intro key _
    apply evals_heap
    intro h k heaps
    rw [(heaps.object owned).1]
    exact Alike.pure ⟨rfl, trivial⟩
  | getsKey u =>
    apply (keyArg_evals b u places).bind_same
    intro key _
    apply evals_heap
    intro h k heaps
    obtain ⟨same, entries⟩ := heaps.object owned
    rw [← same]
    exact evals_orFail _ (fun v found => Object.holds_get? entries found) places
  | @setsKey r _ v u given =>
    apply (keyArg_evals b u places).bind_same
    intro key _
    have change : w.Change fun h => h.setKey r key v := fun h k heaps =>
      heaps.setKey owned (all v given)
    exact (evals_changeHeap change).bind_same fun _ _ => done

theorem call?_evals {v : Value} (owned : w.Owns v) (name : String) {args : List Value}
    (all : w.OwnsAll args) (f : RunFault) (places : w.view s = w.view t) :
    w.Evals (Same w.Owns) ((Builtin.call? v name args s).getD (Eval.fail f s))
      ((Builtin.call? v name args t).getD (Eval.fail f t)) := by
  unfold Builtin.call?
  cases Builtin.find? v.kind name with
  | none => exact evals_fail f places
  | some b => exact Alike.ite (method_evals (b.does v args) owned all places) (evals_fail _ places)

end Script.World
