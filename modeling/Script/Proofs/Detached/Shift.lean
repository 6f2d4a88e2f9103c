import Script.Eval.Statement
import Script.Proofs.Keys

/-! A heap laid over another. Its lists and objects come after those of the other, so references to
them are shifted; nothing that can be asked of values tells the difference. -/

namespace Script

/-- How many lists and objects there are. -/
structure Extent where
  lists : Nat
  objects : Nat

def Heap.extent (h : Heap) : Extent := ⟨h.lists.size, h.objects.size⟩

/-- The value with its reference shifted, if it is a list or an object. -/
def Value.shift (e : Extent) : Value → Value
  | .list r => .list ⟨e.lists + r.index⟩
  | .object r => .object ⟨e.objects + r.index⟩
  | v => v

namespace Object

variable {α β : Type}

def map (f : α → β) (o : Object α) : Object β :=
  ⟨o.entries.map fun e => (e.1, f e.2)⟩

variable (f : α → β) (o : Object α) (key : String)

theorem keys_map : (o.map f).keys = o.keys := by
  unfold keys map
  rw [List.map_map]
  rfl

theorem size_map : (o.map f).size = o.size := List.length_map _

theorem get?_map : (o.map f).get? key = (o.get? key).map f := by
  unfold get? map
  rw [List.find?_map, Option.map_map, Option.map_map]
  rfl

theorem contains_map : (o.map f).contains key = o.contains key := by
  unfold contains map
  rw [List.any_map]
  rfl

theorem set_map (a : α) : (o.map f).set key (f a) = (o.set key a).map f := by
  have put (key : String) (entries : List (String × α)) :
      put key (f a) (entries.map fun e => (e.1, f e.2)) =
        (put key a entries).map fun e => (e.1, f e.2) := by
    induction entries with
    | nil => rfl
    | cons e entries ih =>
      simp only [List.map_cons, Object.put]
      split
      · rfl
      · rw [ih, List.map_cons]
  exact congrArg Object.mk (put (bareKey key) o.entries)

end Object

/-- The second heap's lists and objects after those of the first, which keeps its classes, functions
and tables. -/
def Heap.topped (base h : Heap) : Heap :=
  { base with
    lists := base.lists ++ h.lists.map fun items => items.map (Value.shift base.extent)
    objects := base.objects ++ h.objects.map (Object.map (Value.shift base.extent)) }

/-! Values. -/

section Values

variable (e : Extent)

theorem Value.kind_shift (v : Value) : (v.shift e).kind = v.kind := by
  cases v <;> rfl

theorem Value.number?_shift (v : Value) : (v.shift e).number? = v.number? := by
  cases v <;> rfl

theorem Value.negate_shift (v : Value) : (v.shift e).negate = v.negate := by
  cases v <;> rfl

theorem Value.same_shift (l r : Value) : (l.shift e).same (r.shift e) = l.same r := by
  cases l with
  | list x =>
    cases r with
    | list y =>
      cases x
      cases y
      simp [shift, same]
    | _ => rfl
  | object x =>
    cases r with
    | object y =>
      cases x
      cases y
      simp [shift, same]
    | _ => rfl
  | _ => cases r <;> rfl

theorem Literal.value_shift (l : Literal) : l.value.shift e = l.value := by
  cases l <;> rfl

theorem BinOp.ordered_shift (op : BinOp) (test : Float → Float → Bool) (l r : Value) :
    op.ordered test (l.shift e) (r.shift e) = op.ordered test l r := by
  unfold BinOp.ordered
  rw [Value.number?_shift, Value.number?_shift, Value.kind_shift, Value.kind_shift]

theorem BinOp.arithmetic_shift (op : BinOp) (l r : Value) :
    op.arithmetic (l.shift e) (r.shift e) = op.arithmetic l r := by
  cases l <;> cases r <;> rfl

end Values

/-! Heaps. -/

namespace Heap

variable (base h : Heap)

theorem list_topped (r : ListRef) :
    (base.topped h).list ⟨base.extent.lists + r.index⟩ =
      (h.list r).map (Value.shift base.extent) := by
  unfold list topped
  dsimp only [extent]
  rw [Array.getElem?_append_right (Nat.le_add_right _ _), Nat.add_sub_cancel_left,
    Array.getElem?_map]
  cases h.lists[r.index]? <;> simp

theorem object_topped (r : ObjectRef) :
    (base.topped h).object ⟨base.extent.objects + r.index⟩ =
      (h.object r).map (Value.shift base.extent) := by
  unfold object topped
  dsimp only [extent]
  rw [Array.getElem?_append_right (Nat.le_add_right _ _), Nat.add_sub_cancel_left,
    Array.getElem?_map]
  cases h.objects[r.index]? <;> rfl

theorem topped_of_blank (lists : h.lists = #[]) (objects : h.objects = #[]) :
    base.topped h = base := by
  unfold topped
  rw [lists, objects, Array.map_empty, Array.map_empty, Array.append_empty, Array.append_empty]

theorem truthy_topped (v : Value) : (base.topped h).truthy (v.shift base.extent) = h.truthy v := by
  cases v with
  | list r =>
    simp only [truthy, Value.shift, list_topped, Array.isEmpty, Array.size_map]
  | object r =>
    simp only [truthy, Value.shift, object_topped, Object.map, List.isEmpty_map]
  | _ => rfl

theorem member_topped (l r : Value) :
    (base.topped h).member (l.shift base.extent) (r.shift base.extent) = h.member l r := by
  cases r with
  | list xs =>
    have same : (fun item : Value => item.same (l.shift base.extent)) ∘ Value.shift base.extent =
        fun item => item.same l := funext fun item => Value.same_shift _ item l
    have any : ((h.list xs).map (Value.shift base.extent)).any
        (fun item => item.same (l.shift base.extent)) =
          (h.list xs).any fun item => item.same l := by
      rw [Array.any_map, same]
    change Except.ok (Value.bool (((base.topped h).list ⟨base.extent.lists + xs.index⟩).any _)) = _
    rw [list_topped, any]
    rfl
  | object o =>
    cases l with
    | string key => simp only [member, Value.shift, object_topped, Object.contains_map]
    | _ => rfl
  | _ => cases l <;> rfl

/-- Operators answer with no reference, and do not tell shifted operands. -/
theorem apply_topped (op : BinOp) (l r : Value) :
    op.apply (base.topped h) (l.shift base.extent) (r.shift base.extent) = op.apply h l r := by
  have ordered (test : Float → Float → Bool) := BinOp.ordered_shift base.extent op test l r
  have arithmetic := BinOp.arithmetic_shift base.extent op l r
  cases op with
  | eq | ne => simp only [BinOp.apply, Value.same_shift]
  | mem => exact member_topped base h l r
  | lt | le | gt | ge => exact ordered _
  | add => cases l <;> cases r <;> rfl
  | _ => exact arithmetic

theorem indexed_topped (v key : Value) :
    (base.topped h).indexed (v.shift base.extent) (key.shift base.extent) =
      (h.indexed v key).map (Value.shift base.extent) := by
  cases v with
  | list xs =>
    cases key with
    | int i =>
      simp only [indexed, Value.shift, list_topped, Array.size_map]
      cases position i (h.list xs).size with
      | none => rfl
      | some n =>
        simp only [Option.bind_some, Array.getElem?_map]
        cases (h.list xs)[n]? <;> rfl
    | _ => rfl
  | string s =>
    cases key with
    | int i =>
      simp only [indexed, Value.shift]
      cases (position i s.length).bind (s.toList[·]?) <;> rfl
    | _ => rfl
  | object o =>
    cases key with
    | string k =>
      simp only [indexed, Value.shift, object_topped, Object.get?_map]
      cases (h.object o).get? k <;> rfl
    | _ => rfl
  | _ => cases key <;> rfl

/-! Changes. -/

theorem newList_topped (items : Array Value) :
    (base.topped h).newList (items.map (Value.shift base.extent)) =
      (⟨base.extent.lists + h.lists.size⟩, base.topped (h.newList items).2) := by
  unfold newList topped
  simp only [extent, Array.size_append, Array.size_map, Array.map_push, Array.append_push]

theorem newObject_topped (o : Object Value) :
    (base.topped h).newObject (o.map (Value.shift base.extent)) =
      (⟨base.extent.objects + h.objects.size⟩, base.topped (h.newObject o).2) := by
  unfold newObject topped
  simp only [extent, Array.size_append, Array.size_map, Array.map_push, Array.append_push]

theorem modify_append_right {α : Type} (a b : Array α) (i : Nat) (f : α → α) :
    (a ++ b).modify (a.size + i) f = a ++ b.modify i f := by
  apply Array.ext_getElem?
  intro j
  rw [Array.getElem?_modify]
  by_cases left : j < a.size
  · rw [if_neg (by omega), Array.getElem?_append_left left, Array.getElem?_append_left left]
  · have right : a.size ≤ j := Nat.le_of_not_lt left
    rw [Array.getElem?_append_right right, Array.getElem?_append_right right,
      Array.getElem?_modify]
    by_cases here : a.size + i = j
    · rw [if_pos here, if_pos (by omega)]
    · rw [if_neg here, if_neg (by omega)]

theorem map_modify {α β : Type} (a : Array α) (i : Nat) (move : α → β) {f : α → α} {g : β → β}
    (like : ∀ x, g (move x) = move (f x)) : (a.map move).modify i g = (a.modify i f).map move := by
  apply Array.ext_getElem?
  intro j
  rw [Array.getElem?_modify, Array.getElem?_map, Array.getElem?_map, Array.getElem?_modify]
  split
  · cases a[j]? with
    | none => rfl
    | some x => exact congrArg some (like x)
  · rfl

theorem updateList_topped (r : ListRef) {f g : Array Value → Array Value}
    (like : ∀ items : Array Value,
      g (items.map (Value.shift base.extent)) = (f items).map (Value.shift base.extent)) :
    (base.topped h).updateList ⟨base.extent.lists + r.index⟩ g =
      base.topped (h.updateList r f) := by
  unfold updateList topped
  dsimp only [extent] at like ⊢
  rw [modify_append_right, map_modify _ _ _ like]

theorem setKey_topped (r : ObjectRef) (key : String) (v : Value) :
    (base.topped h).setKey ⟨base.extent.objects + r.index⟩ key (v.shift base.extent) =
      base.topped (h.setKey r key v) := by
  have like (o : Object Value) := Object.set_map (Value.shift base.extent) o key v
  unfold setKey topped
  dsimp only [extent] at like ⊢
  rw [modify_append_right, map_modify _ _ _ like]

end Heap

end Script
