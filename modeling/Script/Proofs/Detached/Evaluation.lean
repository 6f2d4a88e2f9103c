import Script.Proofs.Detached.Mirrors

/-! Expressions in frames that bind nothing. Whatever the heap and the host, a name stands for
nothing and a call by name or a `new` finds nothing to run, so what is left is built from new lists
and objects. -/

namespace Script

variable {α β : Type}

theorem Literal.scalar_value (l : Literal) : l.value.Scalar := by
  cases l <;> trivial

namespace Mirrors

variable {base m : Machine} {h : Heap} {frame frame' : Frame}

theorem lookup (bare : frame.Bare m.heap) (bare' : frame'.Bare base.heap) (ext : h.Beneath m.heap)
    (name : String) (s : Span) :
    Mirrors base h m (Value.shift base.heap.extent) h.Born (frame.lookup name s)
      (frame'.lookup name s) := by
  refine read (orFail ext ?_ (fun v found => ?_) _ s)
  · rw [bare.get?, bare.function?, bare'.get?, (bare'.topped m.heap).function?]
    rfl
  · rw [bare.get?, bare.function?] at found
    cases found

theorem called (bare : frame.Bare m.heap) (bare' : frame'.Bare base.heap) (ext : h.Beneath m.heap)
    (name : String) (s : Span) :
    Mirrors base h m id (fun _ _ => False) (frame.called name s) (frame'.called name s) := by
  unfold Frame.called
  rw [bare.get?, bare'.get?]
  refine read (orFail ext ?_ (fun r found => ?_) _ s)
  · rw [bare.function?, (bare'.topped m.heap).function?]
    rfl
  · rw [bare.function?] at found
    cases found

theorem truth {x y : Eval Value}
    (first : Mirrors base h m (Value.shift base.heap.extent) h.Born x y) :
    Mirrors base h m id (fun _ _ => True) (Eval.truth x) (Eval.truth y) := by
  refine first.bind fun v n ext born => read (pure ext trivial ?_)
  exact Heap.truthy_topped base.heap n.heap v

/-- What is there already stays while more is evaluated. -/
theorem next {move : α → β} {good : Heap → α → Prop} {n : Machine} {x : Eval α} {y : Eval β}
    (ext : h.Beneath n.heap) (mirrors : Mirrors base n.heap n move good x y) :
    Mirrors base h n move (fun k a => n.heap.Beneath k ∧ good k a) x y :=
  mirrors.since ext fun _ _ keeps ga => ⟨keeps, ga⟩

theorem scalars {x : Except RunFault Value} (ext : h.Beneath m.heap)
    (plain : ∀ v, x = .ok v → v.Scalar) (s : Span) :
    Mirrors base h m (Value.shift base.heap.extent) h.Born (Eval.lift x s) (Eval.lift x s) := by
  refine lift ext ?_ (fun v ran => .scalar (plain v ran)) s
  cases x with
  | error f => rfl
  | ok v => exact congrArg Except.ok (Value.shift_scalar (plain v rfl) _).symm

end Mirrors

section Evaluation

variable {base : Machine} {host host' : Host} {frame frame' : Frame}

mutual

theorem mirrors_evaluate (bare' : frame'.Bare base.heap) (e : Expr) {m : Machine}
    (bare : frame.Bare m.heap) :
    Mirrors base m.heap m (Value.shift base.heap.extent) m.heap.Born (host.evaluate frame e)
      (host'.evaluate frame' e) := by
  have start := Heap.Beneath.refl m.heap
  cases e with
  | literal l s =>
    unfold Host.evaluate
    exact .pure start (.scalar l.scalar_value) (Literal.value_shift _ l).symm
  | name x s =>
    unfold Host.evaluate
    exact .lookup bare bare' start x s
  | group e s =>
    unfold Host.evaluate
    exact mirrors_evaluate bare' e bare
  | negate e s =>
    unfold Host.evaluate
    refine (mirrors_evaluate bare' e bare).bind fun v n ext born => ?_
    rw [Value.negate_shift]
    exact .scalars ext (fun w ran => Value.scalar_negate ran) s
  | binary op left right s =>
    unfold Host.evaluate
    refine (mirrors_evaluate bare' left bare).bind fun l n ext born => ?_
    refine (Mirrors.next ext (mirrors_evaluate bare' right (bare.later ext))).bind
      fun r k ext' ⟨keeps, born'⟩ => .read ?_
    rw [Heap.apply_topped]
    exact .scalars ext' (fun w ran => BinOp.scalar_apply ran) s
  | logic op left right s =>
    unfold Host.evaluate
    refine (Mirrors.truth (mirrors_evaluate bare' left bare)).bind fun l n ext _ => ?_
    dsimp only [id]
    split
    · exact .pure ext (.scalar trivial) rfl
    · refine ((mirrors_evaluate bare' right (bare.later ext)).truth.since ext
        fun _ _ _ _ => trivial).bind fun r k ext' _ => ?_
      exact .pure ext' (.scalar trivial) rfl
  | call name args s =>
    unfold Host.evaluate
    exact (Mirrors.called bare bare' start name s).bind fun _ _ _ none => none.elim
  | create path args s =>
    unfold Host.evaluate Heap.resolveClass
    rw [bare.get?, bare'.get?]
    exact .read (.fail start _ s)
  | property object name s =>
    unfold Host.evaluate
    refine (mirrors_evaluate bare' object bare).bind fun v n ext born => ?_
    exact .property ext born name s
  | index object key s =>
    unfold Host.evaluate
    refine (mirrors_evaluate bare' object bare).bind fun v n ext born => ?_
    refine (Mirrors.next ext (mirrors_evaluate bare' key (bare.later ext))).bind
      fun k l ext' ⟨keeps, born'⟩ => ?_
    refine .read (.lift ext' (Heap.indexed_topped _ _ _ _) (fun w ran => ?_) s)
    exact (born.later keeps).indexed ran
  | method object name args s =>
    unfold Host.evaluate
    refine (mirrors_evaluate bare' object bare).bind fun v n ext born => ?_
    refine (Mirrors.callee ext born name s).bind fun c k ext' ⟨builtin, same⟩ => ?_
    subst builtin
    refine (Mirrors.next ext' (mirrors_evaluateAll bare' args (bare.later ext'))).bind
      fun vs l ext'' ⟨keeps, born'⟩ => ?_
    unfold Host.callOn
    dsimp only [id]
    rw [Value.kind_shift]
    exact .callBuiltin ext'' (born.later (same.trans keeps)) name
      (fun u member => (born' u member).since ext') _ s
  | list items s =>
    unfold Host.evaluate
    refine (mirrors_evaluateAll bare' items bare).bind fun vs n ext born => ?_
    refine .newList ext ?_ fun v member => born v (List.mem_toArray.1 member)
    exact List.map_toArray.symm
  | object entries s =>
    unfold Host.evaluate
    refine (mirrors_evaluateEntries bare' entries start (o := .empty) ?_ bare).bind
      fun o n ext born => ?_
    · exact List.forall_mem_nil _
    · exact .newObject ext rfl born

theorem mirrors_evaluateAll (bare' : frame'.Bare base.heap) (es : List Expr) {m : Machine}
    (bare : frame.Bare m.heap) :
    Mirrors base m.heap m (List.map (Value.shift base.heap.extent))
      (fun k vs => ∀ v ∈ vs, m.heap.Born k v) (host.evaluateAll frame es)
      (host'.evaluateAll frame' es) := by
  cases es with
  | nil =>
    unfold Host.evaluateAll
    exact .pure (.refl _) (List.forall_mem_nil _) rfl
  | cons e es =>
    unfold Host.evaluateAll
    refine (mirrors_evaluate bare' e bare).bind fun v n ext born => ?_
    refine (Mirrors.next ext (mirrors_evaluateAll bare' es (bare.later ext))).bind
      fun vs k ext' ⟨keeps, born'⟩ => ?_
    refine .pure ext' (List.forall_mem_cons.2 ⟨born.later keeps, fun u member => ?_⟩) rfl
    exact (born' u member).since ext

theorem mirrors_evaluateEntries (bare' : frame'.Bare base.heap) (entries : List (String × Expr))
    {h : Heap} {m : Machine} (ext : h.Beneath m.heap) {o : Object Value}
    (held : ∀ x ∈ o.entries, h.Born m.heap x.2) (bare : frame.Bare m.heap) :
    Mirrors base h m (Object.map (Value.shift base.heap.extent))
      (fun k o => ∀ x ∈ o.entries, h.Born k x.2) (host.evaluateEntries frame entries o)
      (host'.evaluateEntries frame' entries (o.map (Value.shift base.heap.extent))) := by
  match entries with
  | [] =>
    unfold Host.evaluateEntries
    exact .pure ext held rfl
  | (key, e) :: rest =>
    unfold Host.evaluateEntries
    refine (Mirrors.next ext (mirrors_evaluate bare' e bare)).bind fun v n ext' ⟨keeps, born⟩ => ?_
    rw [Object.set_map]
    refine mirrors_evaluateEntries bare' rest ext' ?_ (bare.later keeps)
    exact Object.holds_set (fun x member => (held x member).later keeps) (born.since ext)

end

end Evaluation

end Script
