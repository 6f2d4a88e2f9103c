import Script.Proofs.Detached.Born

/-! Evaluation in frames that bind nothing. It reaches no class, no function and nothing that was on
the heap before, so that it goes the same way over any heap, whatever else there is. -/

namespace Script

variable {α β γ δ : Type}

/-- No variables, and no functions in the table. -/
structure Frame.Bare (f : Frame) (h : Heap) : Prop where
  vars : f.vars = .empty
  table : h.table f.table = .empty

namespace Frame.Bare

variable {f : Frame} {h k : Heap} (bare : f.Bare h)

include bare

theorem get? (name : String) : f.get? name = none := by
  unfold Frame.get?
  rw [bare.vars]
  rfl

theorem function? (name : String) : f.function? h name = none := by
  unfold Frame.function?
  rw [bare.table]
  rfl

theorem later (ext : h.Beneath k) : f.Bare k := by
  refine ⟨bare.vars, ?_⟩
  unfold Heap.table
  rw [ext.tables]
  exact bare.table

theorem topped (k : Heap) : f.Bare (h.topped k) := ⟨bare.vars, bare.table⟩

end Frame.Bare

/-- The machine with another heap laid over its own. -/
def Machine.topped (base : Machine) (h : Heap) : Machine := { base with heap := base.heap.topped h }

/-- What a second run ends with, over a base, when a first one ends by itself. The first leaves a
heap as it was. -/
def Mirrored (base : Machine) (h : Heap) (move : α → β) (good : Heap → α → Prop) :
    EStateM.Result Halt Machine α → EStateM.Result Halt Machine β → Prop
  | .ok a n, r => r = .ok (move a) (base.topped n.heap) ∧ h.Beneath n.heap ∧ good n.heap a
  | .error e n, r =>
    (∃ f, e = .fault f) ∧ r = .error e (base.topped n.heap) ∧ h.Beneath n.heap

/-- Over a base, the second does what the first does by itself. -/
def Mirrors (base : Machine) (h : Heap) (m : Machine) (move : α → β) (good : Heap → α → Prop)
    (x : Eval α) (y : Eval β) : Prop :=
  Mirrored base h move good (x m) (y (base.topped m.heap))

theorem Value.Inert.shift {v : Value} (inert : v.Inert) (e : Extent) : (v.shift e).Inert := by
  cases v with
  | cls r | function r => exact inert.elim
  | _ => trivial

theorem heap_bind (f : Heap → Eval α) (m : Machine) : (Eval.heap >>= f) m = f m.heap m := rfl

/-- A value that is no instance and holds neither functions nor classes. -/
theorem callee_inert {v : Value} {m : Machine} {name : String} {s : Span} (inert : v.Inert)
    (entries : ∀ r, v = .object r → ∀ x ∈ (m.heap.object r).entries, x.2.Inert) :
    v.callee name s m = .ok .builtin m := by
  cases v with
  | object r =>
    have held (key : String) (u : Value) (found : (m.heap.object r).get? key = some u) : u.Inert :=
      Object.holds_get? (entries r rfl) found
    have plain : m.heap.classOf? (.object r) = none := by
      unfold Heap.classOf?
      dsimp only
      cases found : (m.heap.object r).get? classKey with
      | none => rfl
      | some u =>
        have inert := held classKey u found
        cases u with
        | cls c => exact inert.elim
        | _ => rfl
    unfold Value.callee
    rw [heap_bind, plain]
    dsimp only
    cases found : (m.heap.object r).get? name with
    | none => rfl
    | some u =>
      have inert := held name u found
      cases u with
      | cls c | function f => exact inert.elim
      | _ => rfl
  | cls c | function r => exact inert.elim
  | _ => rfl

namespace Mirrors

variable {base m : Machine} {h : Heap} {move : α → β} {good : Heap → α → Prop} {x : Eval α}
  {y : Eval β}

theorem bind {move' : γ → δ} {good' : Heap → γ → Prop} {f : α → Eval γ} {g : β → Eval δ}
    (first : Mirrors base h m move good x y)
    (next : ∀ a n, h.Beneath n.heap → good n.heap a →
      Mirrors base h n move' good' (f a) (g (move a))) :
    Mirrors base h m move' good' (x >>= f) (y >>= g) := by
  unfold Mirrors at first
  change Mirrored base h move' good' (EStateM.bind x f m) (EStateM.bind y g (base.topped m.heap))
  unfold EStateM.bind
  cases ran : x m with
  | ok a n =>
    rw [ran] at first
    obtain ⟨ran', ext, ga⟩ := first
    rw [ran']
    exact next a n ext ga
  | error e n =>
    rw [ran] at first
    obtain ⟨fault, ran', ext⟩ := first
    rw [ran']
    exact ⟨fault, rfl, ext⟩

/-- What is left since a later heap is left since an earlier one. -/
theorem since {good' : Heap → α → Prop} (mirrors : Mirrors base m.heap m move good x y)
    (ext : h.Beneath m.heap) (weaken : ∀ k a, m.heap.Beneath k → good k a → good' k a) :
    Mirrors base h m move good' x y := by
  unfold Mirrors at mirrors ⊢
  cases ran : x m with
  | ok a n =>
    rw [ran] at mirrors
    obtain ⟨ran', ext', ga⟩ := mirrors
    exact ⟨ran', ext.trans ext', weaken n.heap a ext' ga⟩
  | error e n =>
    rw [ran] at mirrors
    obtain ⟨fault, ran', ext'⟩ := mirrors
    exact ⟨fault, ran', ext.trans ext'⟩

/-- Reading the heap. -/
theorem read {f : Heap → Eval α} {g : Heap → Eval β}
    (next : Mirrors base h m move good (f m.heap) (g (base.heap.topped m.heap))) :
    Mirrors base h m move good (Eval.heap >>= f) (Eval.heap >>= g) := next

variable (ext : h.Beneath m.heap)

include ext

theorem pure {a : α} (ga : good m.heap a) {b : β} (like : b = move a) :
    Mirrors base h m move good (Pure.pure a) (Pure.pure b) := by
  subst like
  exact ⟨rfl, ext, ga⟩

theorem fail (f : RunFault) (s : Span) :
    Mirrors base h m move good (Eval.fail f s) (Eval.fail f s) :=
  ⟨⟨_, rfl⟩, rfl, ext⟩

theorem orFail {v : Option α} {w : Option β} (like : w = v.map move)
    (all : ∀ a, v = some a → good m.heap a) (f : RunFault) (s : Span) :
    Mirrors base h m move good (Eval.orFail v f s) (Eval.orFail w f s) := by
  subst like
  cases v with
  | none => exact fail ext f s
  | some a => exact pure ext (all a rfl) rfl

theorem lift {v : Except RunFault α} {w : Except RunFault β} (like : w = v.map move)
    (all : ∀ a, v = .ok a → good m.heap a) (s : Span) :
    Mirrors base h m move good (Eval.lift v s) (Eval.lift w s) := by
  subst like
  cases v with
  | error f => exact fail ext f s
  | ok a => exact pure ext (all a rfl) rfl

theorem newList {items items' : Array Value}
    (like : items' = items.map (Value.shift base.heap.extent))
    (born : ∀ v ∈ items, h.Born m.heap v) :
    Mirrors base h m (Value.shift base.heap.extent) h.Born (Eval.newList items)
      (Eval.newList items') := by
  subst like
  refine ⟨?_, ext.newList items, .newList ext born⟩
  have ran (items : Array Value) : Eval.newList items (base.topped m.heap) =
      .ok (.list ((base.heap.topped m.heap).newList items).1)
        ⟨((base.heap.topped m.heap).newList items).2, base.output, base.shared⟩ := rfl
  rw [ran, Heap.newList_topped]
  rfl

theorem newObject {o o' : Object Value} (like : o' = o.map (Value.shift base.heap.extent))
    (born : ∀ x ∈ o.entries, h.Born m.heap x.2) :
    Mirrors base h m (Value.shift base.heap.extent) h.Born (Eval.newObject o)
      (Eval.newObject o') := by
  subst like
  refine ⟨?_, ext.newObject o, .newObject ext born⟩
  have ran (o : Object Value) : Eval.newObject o (base.topped m.heap) =
      .ok (.object ((base.heap.topped m.heap).newObject o).1)
        ⟨((base.heap.topped m.heap).newObject o).2, base.output, base.shared⟩ := rfl
  rw [ran, Heap.newObject_topped]
  rfl

omit ext in
/-- A change that answers with nothing. -/
theorem changed {f g : Heap → Heap}
    (like : g (base.heap.topped m.heap) = base.heap.topped (f m.heap))
    (ext : h.Beneath (f m.heap)) :
    Mirrors base h m (Value.shift base.heap.extent) h.Born
      (Eval.changeHeap f >>= fun _ => Pure.pure .null)
      (Eval.changeHeap g >>= fun _ => Pure.pure .null) := by
  refine ⟨?_, ext, .scalar trivial⟩
  change EStateM.Result.ok Value.null
    { base.topped m.heap with heap := g (base.heap.topped m.heap) } = _
  rw [like]
  rfl

/-! Methods without a class. -/

/-- What is read off a text is the same beside another heap. -/
theorem readText {v : Option α} {f : α → Value} (plain : ∀ a, (f a).Scalar) (fault : RunFault)
    (s : Span) :
    Mirrors base h m (Value.shift base.heap.extent) h.Born
      (Eval.orFail v fault s >>= fun a => Pure.pure (f a))
      (Eval.orFail v fault s >>= fun a => Pure.pure (f a)) := by
  have given : Mirrors base h m id (fun _ _ => True) (Eval.orFail v fault s)
      (Eval.orFail v fault s) := orFail ext Option.map_id'.symm (fun _ _ => trivial) fault s
  refine given.bind fun a k ext _ => pure ext (.scalar (plain a)) ?_
  exact (Value.shift_scalar (plain a) _).symm

theorem keyArg {f : String → Eval α} {g : String → Eval β}
    (next : ∀ key, Mirrors base h m move good (f key) (g key)) (b : Builtin) (u : Value)
    (s : Span) :
    Mirrors base h m move good (b.keyArg u s >>= f)
      (b.keyArg (u.shift base.heap.extent) s >>= g) := by
  cases u with
  | string key => exact next key
  | _ => exact ⟨⟨_, rfl⟩, rfl, ext⟩

theorem builtin (b : Builtin) {v : Value} (born : h.Born m.heap v) {args : List Value}
    (all : ∀ u ∈ args, h.Born m.heap u) (s : Span) :
    Mirrors base h m (Value.shift base.heap.extent) h.Born (b.run v args s)
      (b.run (v.shift base.heap.extent) (args.map (Value.shift base.heap.extent)) s) := by
  have null : Mirrors base h m (Value.shift base.heap.extent) h.Born
      (Pure.pure Value.null) (Pure.pure Value.null) := pure ext (.scalar trivial) rfl
  cases b with
  | getType =>
    refine pure ext (.scalar trivial) ?_
    rw [Value.kind_shift]
    rfl
  | asString =>
    obtain ⟨text, here, here'⟩ := born.text? base.heap
    change Mirrors base h m _ h.Born (Eval.heap >>= _) (Eval.heap >>= _)
    refine read ?_
    rw [here, here']
    exact pure ext (.scalar trivial) rfl
  | stringLength | stringReversed | uppercase | lowercase =>
    cases v with
    | string t => exact pure ext (.scalar trivial) rfl
    | _ => exact null
  | asInt | asDouble =>
    cases v with
    | string t =>
      apply readText ext
      exact fun _ => trivial
    | _ => exact null
  | listLength =>
    cases v with
    | list r =>
      refine read (pure ext (.scalar trivial) ?_)
      rw [Heap.list_topped, Array.size_map]
      rfl
    | _ => exact null
  | add =>
    cases v with
    | list r =>
      cases args with
      | nil => exact null
      | cons u us =>
        exact changed (Heap.updateList_topped _ _ _ fun items => Array.map_push.symm)
          (ext.updateList born.list_new _)
    | _ => exact null
  | reverse =>
    cases v with
    | list r =>
      exact changed (Heap.updateList_topped _ _ _ fun items => Array.map_reverse.symm)
        (ext.updateList born.list_new _)
    | _ => exact null
  | listReversed =>
    cases v with
    | list r =>
      refine read (newList ext ?_ fun u member => born.item u (Array.mem_reverse.1 member))
      rw [Heap.list_topped, Array.map_reverse]
    | _ => exact null
  | clear =>
    cases v with
    | list r =>
      exact changed (Heap.updateList_topped _ _ _ fun items => Array.map_empty.symm)
        (ext.updateList born.list_new _)
    | _ => exact null
  | count =>
    cases v with
    | object r =>
      refine read (pure ext (.scalar trivial) ?_)
      rw [Heap.object_topped, Object.size_map]
      rfl
    | _ => exact null
  | containsKey =>
    cases v with
    | object r =>
      cases args with
      | nil => exact null
      | cons u us =>
        have held (key : String) : Mirrors base h m (Value.shift base.heap.extent) h.Born
            (Eval.heap >>= fun k => Pure.pure (.bool ((k.object r).contains key)))
            (Eval.heap >>= fun k => Pure.pure
              (.bool ((k.object ⟨base.heap.extent.objects + r.index⟩).contains key))) := by
          refine read (pure ext (.scalar trivial) ?_)
          rw [Heap.object_topped, Object.contains_map]
          rfl
        exact keyArg ext held .containsKey u s
    | _ => exact null
  | get =>
    cases v with
    | object r =>
      cases args with
      | nil => exact null
      | cons u us =>
        refine keyArg ext (fun key => read (orFail ext ?_ (fun w found => ?_) _ s)) .get u s
        · rw [Heap.object_topped, Object.get?_map]
        · exact Object.holds_get? born.entry found
    | _ => exact null
  | set =>
    cases v with
    | object r =>
      match args with
      | [] | [u] => exact null
      | u :: w :: us =>
        refine keyArg ext (fun key => changed (Heap.setKey_topped _ _ r key w) ?_) .set u s
        exact ext.setKey born.object_new key w
    | _ => exact null
  | keys =>
    cases v with
    | object r =>
      refine read (newList ext ?_ ?_)
      · rw [Heap.object_topped, Object.keys_map, ← List.map_toArray, Array.map_map]
        rfl
      · intro u member
        obtain ⟨key, -, rfl⟩ := List.mem_map.1 (List.mem_toArray.1 member)
        exact .scalar trivial
    | _ => exact null

theorem callBuiltin {v : Value} (born : h.Born m.heap v) (name : String) {args : List Value}
    (all : ∀ u ∈ args, h.Born m.heap u) (f : RunFault) (s : Span) :
    Mirrors base h m (Value.shift base.heap.extent) h.Born
      ((Builtin.call? v name args s).getD (Eval.fail f s))
      ((Builtin.call? (v.shift base.heap.extent) name
        (args.map (Value.shift base.heap.extent)) s).getD (Eval.fail f s)) := by
  unfold Builtin.call?
  rw [Value.kind_shift, List.length_map]
  cases Builtin.find? v.kind name with
  | none => exact fail ext f s
  | some b =>
    dsimp only [Option.map_some, Option.getD_some]
    by_cases fits : args.length = b.arity
    · rw [if_pos fits, if_pos fits]
      exact builtin ext b born all s
    · rw [if_neg fits, if_neg fits]
      exact fail ext _ s

theorem property {v : Value} (born : h.Born m.heap v) (name : String) (s : Span) :
    Mirrors base h m (Value.shift base.heap.extent) h.Born (v.property name s)
      ((v.shift base.heap.extent).property name s) := by
  cases v with
  | object r =>
    refine read (orFail ext ?_ (fun w found => ?_) _ s)
    · rw [Heap.object_topped, Object.get?_map]
    · exact Object.holds_get? born.entry found
  | _ => exact callBuiltin ext born name (List.forall_mem_nil _) _ s

theorem callee {v : Value} (born : h.Born m.heap v) (name : String) (s : Span) :
    Mirrors base h m id (fun k c => c = .builtin ∧ m.heap.Beneath k) (v.callee name s)
      ((v.shift base.heap.extent).callee name s) := by
  have here : v.callee name s m = .ok .builtin m := by
    refine callee_inert born.inert fun r is x member => ?_
    subst is
    exact (born.entry x member).inert
  have there : (v.shift base.heap.extent).callee name s (base.topped m.heap) =
      .ok .builtin (base.topped m.heap) := by
    refine callee_inert (born.inert.shift _) fun r is x member => ?_
    cases v with
    | object r =>
      cases is
      have member : x ∈ ((base.heap.topped m.heap).object
        ⟨base.heap.extent.objects + r.index⟩).entries := member
      rw [Heap.object_topped] at member
      obtain ⟨x', member', rfl⟩ := List.mem_map.1 member
      exact (born.entry x' member').inert.shift _
    | _ => cases is
  unfold Mirrors
  rw [here, there]
  exact ⟨rfl, ext, rfl, .refl _⟩

end Mirrors

end Script
