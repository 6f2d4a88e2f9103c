import Script.Proofs.Methods
import Script.Proofs.Termination.Settling

/-! Expressions come to an end where there is no code. A name then stands for no function and an
object is no instance, so that all methods are builtin ones. -/

namespace Script

namespace Settles

variable {h : Host} {m : Machine} {span : Span}

/-! Builtin methods. -/

section Methods

variable (start : m.heap.Codeless)

include start

theorem keyArg (b : Builtin) (v : Value) : EvalSettles anything m (b.keyArg v span) := by
  cases v with
  | string s => exact answer start trivial
  | _ => exact fail _

theorem method {b : Builtin} {v : Value} {args : List Value} {x : Span → Eval Value}
    (does : b.Does v args x) (all : m.heap.AllPlain args)
    (text : b = .asString → (m.heap.text? v).isSome) : EvalSettles Heap.Plain m (x span) := by
  have changes {n : Machine} {f : Heap → Heap} (spans : n.heap.Spans (f n.heap))
      (keeps : (f n.heap).Codeless) :
      EvalSettles Heap.Plain n (Eval.changeHeap f >>= fun _ => Pure.pure Value.null) :=
    bind (changeHeap spans keeps) fun _ _ _ _ start _ => answer start trivial
  have converts {α : Type} {x : Option α} (f : RunFault) :
      EvalSettles anything m (Eval.orFail x f span) := orFail start (fun _ _ => trivial) f
  cases does with
  | answers scalar => exact answer start (Heap.plain_of_scalar scalar)
  | renders is =>
    obtain ⟨s, found⟩ := Option.isSome_iff_exists.1 (text is)
    apply read
    rw [found]
    exact answer start trivial
  | readsInteger _ | readsDouble _ =>
    exact bind (converts _) fun _ _ _ _ start _ => answer start trivial
  | readsList scalar | readsObject scalar =>
    exact read (answer start (Heap.plain_of_scalar (scalar _)))
  | @changesList r _ _ members =>
    refine changes (.updateList _ r _) (start.updateList r fun items plain u member => ?_)
    rcases members items u member with old | given
    · exact plain u old
    · exact all u given
  | copiesList members =>
    exact read (newList start fun u member => start.list _ u (members _ u member))
  | listsObject scalar =>
    exact read (newList start fun u member => Heap.plain_of_scalar (scalar _ u member))
  | findsKey u =>
    exact bind (keyArg start b u) fun _ _ _ _ start _ => read (answer start trivial)
  | getsKey u =>
    apply bind (keyArg start b u)
    exact fun _ _ _ _ start _ => read (orFail start (fun _ => start.get?) _)
  | @setsKey r _ w u given =>
    apply bind (keyArg start b u)
    exact fun key n _ spans start _ =>
      changes (.setKey _ r key w) (start.setKey r key (spans.plain (all w given)))

theorem callBuiltin {v : Value} (plain : m.heap.Plain v) (name : String) {args : List Value}
    (all : m.heap.AllPlain args) (acyclic : AllAcyclic (Builtin.renderings v name args m))
    (f : RunFault) :
    EvalSettles Heap.Plain m ((Builtin.call? v name args span).getD (Eval.fail f span)) := by
  unfold Builtin.renderings at acyclic
  unfold Builtin.call?
  cases found : Builtin.find? v.kind name with
  | none => exact fail f
  | some b =>
    refine ite (fun many => method start (b.does v args) all ?_) fun _ => fail _
    rintro rfl
    cases List.eq_nil_of_length_eq_zero many
    rw [found] at acyclic
    exact (start.isSome_text?_iff plain).2 (acyclic _ List.mem_cons_self)

theorem property {v : Value} (plain : m.heap.Plain v) (name : String)
    (acyclic : AllAcyclic (v.propertyRenderings name m)) :
    EvalSettles Heap.Plain m (v.property name span) := by
  cases v with
  | object r => exact read (orFail start (fun _ => start.get?) _)
  | _ => exact callBuiltin start plain name (List.forall_mem_nil _) acyclic _

theorem callee (v : Value) (name : String) :
    EvalSettles (fun _ c => c = .builtin) m (v.callee name span) := by
  apply read
  rw [start.classOf?_eq_none]
  cases v with
  | object r =>
    dsimp only
    split
    · rename_i found
      exact (start.get? found).elim
    · rename_i found
      exact (start.get? found).elim
    · exact answer start rfl
  | _ => exact answer start rfl

end Methods

/-! Names. -/

section Names

variable {frame : Frame} (start : m.heap.Codeless) (frames : m.heap.PlainFrame frame)

include start frames

theorem lookup (name : String) : EvalSettles Heap.Plain m (frame.lookup name span) := by
  refine read (orFail start (fun v found => ?_) _)
  rw [start.function?_eq_none, Option.map_none, Option.or_none] at found
  exact frames.vars _ (Bindings.mem_of_lookup found)

/-- Nothing can be called by its name. -/
theorem called (name : String) : EvalSettles (fun _ _ => False) m (frame.called name span) := by
  refine read (orFail start (fun r found => ?_) _)
  rw [start.function?_eq_none, Option.none_or] at found
  split at found
  · rename_i bound
    exact frames.vars _ (Bindings.mem_of_lookup bound)
  · cases found

/-- Nothing can be made an instance of. -/
theorem resolveClass (path : ClassPath) :
    EvalSettles (fun _ _ => False) m (Eval.lift (m.heap.resolveClass frame path) span) :=
  lift start fun r found => start.resolveClass_ne frame frames.vars path r found

end Names

theorem truth {x : Eval Value} (value : EvalSettles Heap.Plain m x) :
    EvalSettles anything m (Eval.truth x) :=
  bind value fun _ _ _ _ start _ => read (answer start trivial)

/-! Expressions. -/

mutual

/-- What an expression comes to is plain again. -/
theorem evaluate {frame : Frame} {m : Machine} (start : m.heap.Codeless)
    (frames : m.heap.PlainFrame frame) (e : Expr)
    (acyclic : AllAcyclic (h.renderings frame e m)) :
    EvalSettles Heap.Plain m (h.evaluate frame e) := by
  cases e with
  | literal v s =>
    cases v with
    | _ => exact answer start trivial
  | name x s => exact lookup start frames x
  | binary op l r s =>
    obtain ⟨first, rest⟩ := acyclic.onward
    refine bind (evaluate start frames l first) fun v n ran spans start plain => ?_
    refine bind (evaluate start (spans.frame frames) r (rest v n ran)) fun w k _ spans start _ => ?_
    exact read (lift start fun u applied => Heap.plain_of_scalar (BinOp.scalar_apply applied))
  | negate e s =>
    refine bind (evaluate start frames e acyclic) fun v n _ _ start _ => ?_
    exact lift start fun u negated => Heap.plain_of_scalar (Value.scalar_negate negated)
  | logic op l r s =>
    obtain ⟨first, rest⟩ := acyclic.onward
    refine bind (truth (evaluate start frames l first)) fun b n ran spans start _ => ?_
    have rest := rest b n ran
    refine ite (fun _ => answer start trivial) fun decided => ?_
    rw [if_neg decided] at rest
    exact bind (truth (evaluate start (spans.frame frames) r rest))
      fun _ _ _ _ start _ => answer start trivial
  | call x args s =>
    exact bind (called start frames x) fun _ _ _ _ _ impossible => impossible.elim
  | method e x args s =>
    obtain ⟨first, rest⟩ := acyclic.onward
    refine bind (evaluate start frames e first) fun v n ran spans start plain => ?_
    have rest := rest v n ran
    refine bind (callee start v x) fun c k found spans' start builtin => ?_
    cases builtin
    obtain ⟨arguments, call⟩ := (rest.following found).onward
    refine bind (evaluateAll start ((spans.trans spans').frame frames) args arguments)
      fun vs o given spans'' start all => ?_
    exact callBuiltin start ((spans'.trans spans'').plain plain) x all (call vs o given) _
  | property e x s =>
    obtain ⟨first, rest⟩ := acyclic.onward
    refine bind (evaluate start frames e first) fun v n ran spans start plain => ?_
    exact property start plain x (rest v n ran)
  | index e i s =>
    obtain ⟨first, rest⟩ := acyclic.onward
    refine bind (evaluate start frames e first) fun v n ran spans start plain => ?_
    refine bind (evaluate start (spans.frame frames) i (rest v n ran)) fun w k _ _ start _ => ?_
    exact read (lift start fun u found => start.indexed found)
  | group e s => exact evaluate start frames e acyclic
  | list items s =>
    refine bind (evaluateAll start frames items acyclic) fun vs n _ _ start all => ?_
    exact newList start fun v member => all v (List.mem_toArray.1 member)
  | object entries s =>
    refine bind (evaluateEntries start frames entries acyclic (List.forall_mem_nil _))
      fun o n _ _ start all => ?_
    exact newObject start all
  | create path args s =>
    exact read (bind (resolveClass start frames path) fun _ _ _ _ _ impossible => impossible.elim)

theorem evaluateAll {frame : Frame} {m : Machine} (start : m.heap.Codeless)
    (frames : m.heap.PlainFrame frame) (es : List Expr)
    (acyclic : AllAcyclic (h.allRenderings frame es m)) :
    EvalSettles Heap.AllPlain m (h.evaluateAll frame es) := by
  cases es with
  | nil => exact answer start (List.forall_mem_nil _)
  | cons e es =>
    obtain ⟨first, rest⟩ := acyclic.onward
    refine bind (evaluate start frames e first) fun v n ran spans start plain => ?_
    refine bind (evaluateAll start (spans.frame frames) es (rest v n ran))
      fun vs k _ spans start all => ?_
    exact answer start (List.forall_mem_cons.2 ⟨spans.plain plain, all⟩)

theorem evaluateEntries {frame : Frame} {m : Machine} (start : m.heap.Codeless)
    (frames : m.heap.PlainFrame frame) (es : List (String × Expr))
    (acyclic : AllAcyclic (h.entryRenderings frame es m)) {o : Object Value}
    (all : m.heap.PlainEntries o.entries) :
    EvalSettles (fun k o => k.PlainEntries o.entries) m (h.evaluateEntries frame es o) := by
  match es with
  | [] => exact answer start all
  | (key, e) :: rest =>
    obtain ⟨first, later⟩ := acyclic.onward
    refine bind (evaluate start frames e first) fun v n ran spans start plain => ?_
    exact evaluateEntries start (spans.frame frames) rest (later v n ran)
      (Object.holds_set (spans.entries all) plain)

end

end Settles

end Script
