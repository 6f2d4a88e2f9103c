import Script.Frame

/-! Looking up what was bound, after the ways in which bindings, tables and frames change. -/

namespace Script

namespace Bindings

variable {α : Type}

theorem mem_of_lookup {entries : List (String × α)} {name : String} {a : α}
    (found : entries.lookup name = some a) : (name, a) ∈ entries := by
  induction entries with
  | nil => cases found
  | cons e entries ih =>
    rw [List.lookup_cons] at found
    split at found
    · rename_i same
      cases found
      rw [eq_of_beq same]
      exact List.mem_cons_self
    · exact List.mem_cons_of_mem e (ih found)

theorem get?_insert_self (b : Bindings α) (name : String) (a : α) :
    (b.insert name a).get? name = some a := by
  have h (entries : List (String × α)) : (put name a entries).lookup name = some a := by
    induction entries with
    | nil => simp [put]
    | cons e entries ih =>
      unfold put
      split
      · simp
      · split
        · simp
        · rename_i other
          rw [List.lookup_cons, beq_false_of_ne other]
          exact ih
  exact h b.entries

theorem get?_insert_of_ne (b : Bindings α) {name other : String} (ne : other ≠ name) (a : α) :
    (b.insert name a).get? other = b.get? other := by
  have skip (rest : List (String × α)) : ((name, a) :: rest).lookup other = rest.lookup other := by
    rw [List.lookup_cons, beq_false_of_ne ne]
  have h (entries : List (String × α)) :
      (put name a entries).lookup other = entries.lookup other := by
    induction entries with
    | nil => exact skip []
    | cons e entries ih =>
      unfold put
      split
      · exact skip _
      · split
        · rename_i same
          rw [skip, List.lookup_cons, ← same, beq_false_of_ne ne]
        · rw [List.lookup_cons, List.lookup_cons, ih]
  exact h b.entries

theorem get?_of_mem {b : Bindings α} {name : String} {a : α} (member : (name, a) ∈ b.entries) :
    b.get? name = some a := by
  have h (entries : List (String × α)) (sorted : entries.Pairwise fun a b => a.1 < b.1)
      (member : (name, a) ∈ entries) : entries.lookup name = some a := by
    induction entries with
    | nil => cases member
    | cons e entries ih =>
      obtain ⟨first, rest⟩ := List.pairwise_cons.1 sorted
      rcases List.mem_cons.1 member with rfl | later
      · simp
      · have above : e.1 < name := first _ later
        have ne : name ≠ e.1 := fun same => absurd above (same ▸ String.lt_irrefl _)
        rw [List.lookup_cons, beq_false_of_ne ne]
        exact ih rest later
  exact h b.entries b.sorted member

theorem holds_insert {good : α → Prop} {b : Bindings α}
    (all : ∀ e ∈ b.entries, good e.2) {name : String} {a : α} (new : good a) :
    ∀ e ∈ (b.insert name a).entries, good e.2 := by
  intro e member
  rcases mem_put member with rfl | old
  · exact new
  · exact all e old

theorem holds_overlay {good : α → Prop} {b top : Bindings α}
    (all : ∀ e ∈ b.entries, good e.2) (lifted : ∀ e ∈ top.entries, good e.2) :
    ∀ e ∈ (b.overlay top).entries, good e.2 := by
  unfold Bindings.overlay
  generalize top.entries = entries at lifted
  induction entries generalizing b with
  | nil => exact all
  | cons e entries ih =>
    obtain ⟨first, others⟩ := List.forall_mem_cons.1 lifted
    exact ih (holds_insert all first) others

theorem get?_overlay_of_none {b top : Bindings α} {name : String}
    (absent : top.get? name = none) : (b.overlay top).get? name = b.get? name := by
  unfold Bindings.get? at absent
  unfold Bindings.overlay
  generalize top.entries = entries at absent
  induction entries generalizing b with
  | nil => rfl
  | cons e entries ih =>
    rw [List.lookup_cons] at absent
    split at absent
    · cases absent
    · rename_i other
      have ne : name ≠ e.1 := fun same => by simp [same] at other
      exact (ih absent).trans (get?_insert_of_ne b ne e.2)

end Bindings

namespace Heap

theorem object_newObject (h : Heap) (o : Object Value) :
    (h.newObject o).2.object (h.newObject o).1 = o := by
  unfold newObject object
  dsimp only
  rw [Array.getElem?_push, if_pos rfl]
  rfl

theorem function_newFunction {h : Heap} {r : FunctionRef} (below : r.index < h.functions.size)
    (f : Function) : (h.newFunction f).2.function r = h.function r := by
  unfold newFunction function
  dsimp only
  rw [Array.getElem?_push, if_neg (Nat.ne_of_lt below)]

theorem table_define_self {h : Heap} {t : TableRef} (there : t.index < h.tables.size)
    (name : String) (f : FunctionRef) :
    (h.define t name f).table t = (h.table t).insert name f := by
  unfold Heap.define Heap.table
  dsimp only
  rw [Array.getElem?_modify, if_pos rfl, Array.getElem?_eq_getElem there]
  rfl

theorem table_define_of_ne {h : Heap} {t t' : TableRef} (ne : t' ≠ t) (name : String)
    (f : FunctionRef) : (h.define t name f).table t' = h.table t' := by
  have other : t.index ≠ t'.index := by
    intro same
    apply ne
    cases t
    cases t'
    exact congrArg TableRef.mk same.symm
  unfold Heap.define Heap.table
  dsimp only
  rw [Array.getElem?_modify, if_neg other]

end Heap

namespace Frame

theorem get?_assignAll_of_notMem {frame : Frame} {names : List String} {name : String}
    (other : name ∉ names) (vs : List Value) :
    (frame.assignAll names vs).get? name = frame.get? name := by
  have zipped : ∀ e ∈ names.zip vs, name ≠ e.1 := by
    rintro e member rfl
    exact other (List.of_mem_zip member).1
  unfold Frame.assignAll
  generalize names.zip vs = entries at zipped
  induction entries generalizing frame with
  | nil => rfl
  | cons e entries ih =>
    obtain ⟨first, others⟩ := List.forall_mem_cons.1 zipped
    exact (ih others).trans (Bindings.get?_insert_of_ne frame.vars first e.2)

theorem table_assignAll (frame : Frame) (names : List String) (vs : List Value) :
    (frame.assignAll names vs).table = frame.table := by
  unfold Frame.assignAll
  generalize names.zip vs = entries
  induction entries generalizing frame with
  | nil => rfl
  | cons e entries ih => exact ih (frame.assign e.1 e.2)

end Frame

end Script
