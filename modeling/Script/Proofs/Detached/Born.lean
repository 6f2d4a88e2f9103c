import Script.Proofs.Detached.Shift
import Script.Proofs.Scalars

/-! Values made of new lists and objects alone. Such a value leads to no class and to no function,
and nests no deeper than there are new lists and objects. -/

namespace Script

theorem Value.shift_scalar {v : Value} (plain : v.Scalar) (e : Extent) : v.shift e = v := by
  cases v with
  | list r | object r => exact plain.elim
  | _ => rfl

/-- Neither a class nor a function. -/
def Value.Inert : Value → Prop
  | .cls _ | .function _ => False
  | _ => True

namespace Heap

/-- How many lists and objects there are in all. -/
def cells (h : Heap) : Nat := h.lists.size + h.objects.size

/-- All lists and objects of the first heap stand unchanged in the second, and its tables. -/
structure Beneath (h k : Heap) : Prop where
  tables : k.tables = h.tables
  lists : h.lists.size ≤ k.lists.size ∧ ∀ i < h.lists.size, k.lists[i]? = h.lists[i]?
  objects : h.objects.size ≤ k.objects.size ∧ ∀ i < h.objects.size, k.objects[i]? = h.objects[i]?

/-- Nested no deeper than `n`, and made of lists and objects beyond an extent. -/
inductive Grown (h : Heap) (e : Extent) : Nat → Value → Prop
  | scalar {n : Nat} {v : Value} (plain : v.Scalar) : h.Grown e n v
  | list {n : Nat} {r : ListRef} (new : e.lists ≤ r.index) (there : r.index < h.lists.size)
    (items : ∀ v ∈ h.list r, h.Grown e n v) : h.Grown e (n + 1) (.list r)
  | object {n : Nat} {r : ObjectRef} (new : e.objects ≤ r.index) (there : r.index < h.objects.size)
    (entries : ∀ x ∈ (h.object r).entries, h.Grown e n x.2) : h.Grown e (n + 1) (.object r)

/-- Made of lists and objects that the first heap lacks. -/
def Born (h k : Heap) (v : Value) : Prop :=
  k.Grown h.extent (k.cells - h.cells) v

variable {h k l : Heap} {v : Value}

namespace Beneath

theorem refl (h : Heap) : h.Beneath h :=
  ⟨rfl, ⟨Nat.le_refl _, fun _ _ => rfl⟩, ⟨Nat.le_refl _, fun _ _ => rfl⟩⟩

theorem trans (first : h.Beneath k) (next : k.Beneath l) : h.Beneath l where
  tables := next.tables.trans first.tables
  lists := ⟨Nat.le_trans first.lists.1 next.lists.1, fun i below =>
    (next.lists.2 i (Nat.lt_of_lt_of_le below first.lists.1)).trans (first.lists.2 i below)⟩
  objects := ⟨Nat.le_trans first.objects.1 next.objects.1, fun i below =>
    (next.objects.2 i (Nat.lt_of_lt_of_le below first.objects.1)).trans (first.objects.2 i below)⟩

theorem cells_le (ext : h.Beneath k) : h.cells ≤ k.cells :=
  Nat.add_le_add ext.lists.1 ext.objects.1

theorem list_eq (ext : h.Beneath k) {r : ListRef} (there : r.index < h.lists.size) :
    k.list r = h.list r := by
  unfold list
  rw [ext.lists.2 r.index there]

theorem object_eq (ext : h.Beneath k) {r : ObjectRef} (there : r.index < h.objects.size) :
    k.object r = h.object r := by
  unfold object
  rw [ext.objects.2 r.index there]

theorem newList (ext : h.Beneath k) (items : Array Value) : h.Beneath (k.newList items).2 := by
  refine ⟨ext.tables, ⟨?_, fun i below => ?_⟩, ext.objects⟩
  · exact Nat.le_trans ext.lists.1 (by simp [Heap.newList])
  · have old : i < k.lists.size := Nat.lt_of_lt_of_le below ext.lists.1
    unfold Heap.newList
    dsimp only
    rw [Array.getElem?_push, if_neg (Nat.ne_of_lt old), ext.lists.2 i below]

theorem newObject (ext : h.Beneath k) (o : Object Value) : h.Beneath (k.newObject o).2 := by
  refine ⟨ext.tables, ext.lists, ⟨?_, fun i below => ?_⟩⟩
  · exact Nat.le_trans ext.objects.1 (by simp [Heap.newObject])
  · have old : i < k.objects.size := Nat.lt_of_lt_of_le below ext.objects.1
    unfold Heap.newObject
    dsimp only
    rw [Array.getElem?_push, if_neg (Nat.ne_of_lt old), ext.objects.2 i below]

/-! Changes of what is new. -/

theorem updateList (ext : h.Beneath k) {r : ListRef} (new : h.extent.lists ≤ r.index)
    (f : Array Value → Array Value) : h.Beneath (k.updateList r f) := by
  have new : h.lists.size ≤ r.index := new
  refine ⟨ext.tables, ⟨?_, fun i below => ?_⟩, ext.objects⟩
  · exact Nat.le_trans ext.lists.1 (by simp [Heap.updateList])
  · unfold Heap.updateList
    dsimp only
    rw [Array.getElem?_modify, if_neg (by omega), ext.lists.2 i below]

theorem setKey (ext : h.Beneath k) {r : ObjectRef} (new : h.extent.objects ≤ r.index) (key : String)
    (v : Value) : h.Beneath (k.setKey r key v) := by
  have new : h.objects.size ≤ r.index := new
  refine ⟨ext.tables, ext.lists, ⟨?_, fun i below => ?_⟩⟩
  · exact Nat.le_trans ext.objects.1 (by simp [Heap.setKey])
  · unfold Heap.setKey
    dsimp only
    rw [Array.getElem?_modify, if_neg (by omega), ext.objects.2 i below]

end Beneath

namespace Grown

variable {e e' : Extent} {n n' : Nat}

theorem mono (grown : h.Grown e n v) (le : n ≤ n') : h.Grown e n' v := by
  induction grown generalizing n' with
  | scalar plain => exact .scalar plain
  | list new there items ih =>
    cases n' with
    | zero => cases le
    | succ n' => exact .list new there fun v member => ih v member (Nat.le_of_succ_le_succ le)
  | object new there entries ih =>
    cases n' with
    | zero => cases le
    | succ n' => exact .object new there fun x member => ih x member (Nat.le_of_succ_le_succ le)

theorem lower (grown : h.Grown e n v) (lists : e'.lists ≤ e.lists)
    (objects : e'.objects ≤ e.objects) : h.Grown e' n v := by
  induction grown with
  | scalar plain => exact .scalar plain
  | list new there items ih => exact .list (Nat.le_trans lists new) there ih
  | object new there entries ih => exact .object (Nat.le_trans objects new) there ih

theorem of_list {r : ListRef} (grown : h.Grown e n (.list r)) :
    e.lists ≤ r.index ∧ ∀ v ∈ h.list r, h.Grown e n v := by
  cases grown with
  | scalar plain => exact plain.elim
  | list new there items => exact ⟨new, fun v member => (items v member).mono (Nat.le_succ _)⟩

theorem of_object {r : ObjectRef} (grown : h.Grown e n (.object r)) :
    e.objects ≤ r.index ∧ ∀ x ∈ (h.object r).entries, h.Grown e n x.2 := by
  cases grown with
  | scalar plain => exact plain.elim
  | object new there entries =>
    exact ⟨new, fun x member => (entries x member).mono (Nat.le_succ _)⟩

theorem inert (grown : h.Grown e n v) : v.Inert := by
  cases grown with
  | scalar plain =>
    cases v with
    | cls r | function r => exact plain.elim
    | _ => trivial
  | list new there items => trivial
  | object new there entries => trivial

/-- What stands unchanged is as deep as before. -/
theorem later (grown : h.Grown e n v) (ext : h.Beneath k) : k.Grown e n v := by
  induction grown with
  | scalar plain => exact .scalar plain
  | list new there items ih =>
    refine .list new (Nat.lt_of_lt_of_le there ext.lists.1) ?_
    rw [ext.list_eq there]
    exact ih
  | object new there entries ih =>
    refine .object new (Nat.lt_of_lt_of_le there ext.objects.1) ?_
    rw [ext.object_eq there]
    exact ih

/-- What is there by itself is new in a heap that it is laid over. -/
theorem topped (grown : h.Grown e n v) (base : Heap) :
    (base.topped h).Grown base.extent n (v.shift base.extent) := by
  induction grown with
  | @scalar n v plain =>
    rw [Value.shift_scalar plain]
    exact .scalar plain
  | @list n r new there items ih =>
    refine .list (r := ⟨base.extent.lists + r.index⟩) (Nat.le_add_right _ _) ?_ ?_
    · simpa [Heap.topped, Heap.extent] using there
    · rw [list_topped]
      intro v member
      obtain ⟨u, old, rfl⟩ := Array.mem_map.1 member
      exact ih u old
  | @object n r new there entries ih =>
    refine .object (r := ⟨base.extent.objects + r.index⟩) (Nat.le_add_right _ _) ?_ ?_
    · simpa [Heap.topped, Heap.extent] using there
    · rw [object_topped]
      intro x member
      obtain ⟨y, old, rfl⟩ := List.mem_map.1 member
      exact ih y old

/-! Texts. -/

theorem mapM_both {α β : Type} {xs : List α} {f : α → Option String} (move : α → β)
    (g : β → Option String) (all : ∀ x ∈ xs, ∃ text, f x = some text ∧ g (move x) = some text) :
    ∃ texts, xs.mapM f = some texts ∧ (xs.map move).mapM g = some texts := by
  induction xs with
  | nil => exact ⟨[], rfl, rfl⟩
  | cons x xs ih =>
    obtain ⟨⟨text, here, here'⟩, others⟩ := List.forall_mem_cons.1 all
    obtain ⟨texts, rest, rest'⟩ := ih others
    refine ⟨text :: texts, ?_, ?_⟩
    · rw [List.mapM_cons, here, rest]
      rfl
    · rw [List.map_cons, List.mapM_cons, here', rest']
      rfl

theorem nested_both {f g : Value → Option String}
    (both : ∃ text, f v = some text ∧ g (v.shift e) = some text) :
    ∃ text, Heap.nested f v = some text ∧ Heap.nested g (v.shift e) = some text := by
  cases v with
  | string s => exact ⟨_, rfl, rfl⟩
  | _ => exact both

/-- The text of what is not nested deeply is the same for all larger bounds, and in a heap laid over
another. -/
theorem textUpTo (grown : h.Grown e n v) (base : Heap) {a b : Nat} (above : n ≤ a)
    (above' : n ≤ b) :
    ∃ text, h.textUpTo a v = some text ∧
      (base.topped h).textUpTo b (v.shift base.extent) = some text := by
  induction grown generalizing a b with
  | @scalar n v plain =>
    cases v with
    | list r | object r | cls r | function r => exact plain.elim
    | _ => cases a <;> cases b <;> exact ⟨_, rfl, rfl⟩
  | @list n r new there items ih =>
    obtain ⟨a, rfl⟩ := Nat.exists_eq_add_of_le' (Nat.le_trans (Nat.le_add_left 1 n) above)
    obtain ⟨b, rfl⟩ := Nat.exists_eq_add_of_le' (Nat.le_trans (Nat.le_add_left 1 n) above')
    have inner : ∀ v ∈ (h.list r).toList, ∃ text, Heap.nested (h.textUpTo a) v = some text ∧
        Heap.nested ((base.topped h).textUpTo b) (v.shift base.extent) = some text :=
      fun v member => nested_both (ih v (Array.mem_toList_iff.1 member)
        (Nat.le_of_succ_le_succ above) (Nat.le_of_succ_le_succ above'))
    obtain ⟨texts, here, here'⟩ := mapM_both (Value.shift base.extent) _ inner
    refine ⟨"[" ++ ", ".intercalate texts ++ "]", ?_, ?_⟩
    · simp only [Heap.textUpTo, here]
      rfl
    · change (base.topped h).textUpTo (b + 1) (.list ⟨base.extent.lists + r.index⟩) = _
      simp only [Heap.textUpTo, list_topped, Array.toList_map, here']
      rfl
  | @object n r new there entries ih =>
    obtain ⟨a, rfl⟩ := Nat.exists_eq_add_of_le' (Nat.le_trans (Nat.le_add_left 1 n) above)
    obtain ⟨b, rfl⟩ := Nat.exists_eq_add_of_le' (Nat.le_trans (Nat.le_add_left 1 n) above')
    have inner : ∀ x ∈ (h.object r).entries, ∃ text,
        (do return "\"" ++ x.1 ++ "\": " ++ (← Heap.nested (h.textUpTo a) x.2)) = some text ∧
        (do return "\"" ++ x.1 ++ "\": " ++
          (← Heap.nested ((base.topped h).textUpTo b) (x.2.shift base.extent))) = some text := by
      intro x member
      obtain ⟨text, here, here'⟩ := nested_both (ih x member (Nat.le_of_succ_le_succ above)
        (Nat.le_of_succ_le_succ above'))
      rw [here, here']
      exact ⟨_, rfl, rfl⟩
    obtain ⟨texts, here, here'⟩ := mapM_both
      (fun x : String × Value => (x.1, x.2.shift base.extent)) (fun x => do
        return "\"" ++ x.1 ++ "\": " ++ (← Heap.nested ((base.topped h).textUpTo b) x.2)) inner
    refine ⟨"\x7b" ++ ", ".intercalate texts ++ "\x7d", ?_, ?_⟩
    · simp only [Heap.textUpTo, here]
      rfl
    · change (base.topped h).textUpTo (b + 1) (.object ⟨base.extent.objects + r.index⟩) = _
      simp only [Heap.textUpTo, object_topped, Object.map, here']
      rfl

end Grown

namespace Born

theorem scalar (plain : v.Scalar) : h.Born k v := Grown.scalar plain

theorem later (born : h.Born k v) (ext : k.Beneath l) : h.Born l v :=
  (Grown.later born ext).mono (Nat.sub_le_sub_right ext.cells_le _)

/-- What is new since a later heap is new since an earlier one. -/
theorem since (born : k.Born l v) (ext : h.Beneath k) : h.Born l v :=
  (Grown.lower born ext.lists.1 ext.objects.1).mono (Nat.sub_le_sub_left ext.cells_le _)

theorem item {r : ListRef} (born : h.Born k (.list r)) : ∀ v ∈ k.list r, h.Born k v :=
  (Grown.of_list born).2

theorem entry {r : ObjectRef} (born : h.Born k (.object r)) :
    ∀ x ∈ (k.object r).entries, h.Born k x.2 :=
  (Grown.of_object born).2

theorem list_new {r : ListRef} (born : h.Born k (.list r)) : h.extent.lists ≤ r.index :=
  (Grown.of_list born).1

theorem object_new {r : ObjectRef} (born : h.Born k (.object r)) : h.extent.objects ≤ r.index :=
  (Grown.of_object born).1

theorem inert (born : h.Born k v) : v.Inert := Grown.inert born

theorem indexed {key u : Value} (born : h.Born k v) (found : k.indexed v key = .ok u) :
    h.Born k u := by
  unfold Heap.indexed at found
  split at found
  · dsimp only at found
    split at found
    · rename_i w item
      obtain ⟨n, -, item⟩ := Option.bind_eq_some_iff.1 item
      cases found
      exact born.item _ (Array.mem_of_getElem? item)
    · cases found
  · split at found
    · cases found
      exact .scalar trivial
    · cases found
  · cases found
  · cases found
  · split at found
    · rename_i w entry
      cases found
      exact Object.holds_get? born.entry entry
    · cases found
  · cases found
  · cases found

theorem newList (ext : h.Beneath k) {items : Array Value} (born : ∀ v ∈ items, h.Born k v) :
    h.Born (k.newList items).2 (.list (k.newList items).1) := by
  have grown : k.Beneath (k.newList items).2 := (Beneath.refl k).newList items
  have size : (k.newList items).2.cells = k.cells + 1 := by
    simp [Heap.newList, cells]
    omega
  have held : (k.newList items).2.list (k.newList items).1 = items := by
    simp [Heap.newList, list]
  have deeper : (k.newList items).2.cells - h.cells = k.cells - h.cells + 1 := by
    have le := ext.cells_le
    omega
  unfold Born
  rw [deeper]
  refine .list ext.lists.1 (by simp [Heap.newList]) ?_
  rw [held]
  exact fun v member => Grown.later (born v member) grown

theorem newObject (ext : h.Beneath k) {o : Object Value} (born : ∀ x ∈ o.entries, h.Born k x.2) :
    h.Born (k.newObject o).2 (.object (k.newObject o).1) := by
  have grown : k.Beneath (k.newObject o).2 := (Beneath.refl k).newObject o
  have size : (k.newObject o).2.cells = k.cells + 1 := by
    simp [Heap.newObject, cells]
    omega
  have held : (k.newObject o).2.object (k.newObject o).1 = o := by
    simp [Heap.newObject, object]
  have deeper : (k.newObject o).2.cells - h.cells = k.cells - h.cells + 1 := by
    have le := ext.cells_le
    omega
  unfold Born
  rw [deeper]
  refine .object ext.objects.1 (by simp [Heap.newObject]) ?_
  rw [held]
  exact fun x member => Grown.later (born x member) grown

theorem topped (born : h.Born k v) (none : h.cells = 0) (base : Heap) :
    base.Born (base.topped k) (v.shift base.extent) := by
  have deep : k.cells - h.cells = (base.topped k).cells - base.cells := by
    simp only [cells, Heap.topped, Array.size_append, Array.size_map] at none ⊢
    omega
  unfold Born at born ⊢
  rw [← deep]
  exact Grown.topped born base

theorem text? (born : h.Born k v) (base : Heap) :
    ∃ text, k.text? v = some text ∧ (base.topped k).text? (v.shift base.extent) = some text := by
  have deep : k.cells - h.cells ≤ (base.topped k).cells := by
    simp only [cells, Heap.topped, Array.size_append, Array.size_map]
    omega
  exact Grown.textUpTo born base (Nat.sub_le _ _) deep

end Born

end Heap

end Script
