import Script.Proofs.HeapLaw

/-! Function tables and functions stay where they are. A function keeps its declaration and its scope
for good; all that can happen to it is that its script shares it. -/

namespace Script

/-- What a function can turn into. -/
structure Function.Becomes (f g : Function) : Prop where
  decl : g.decl = f.decl
  scope : g.scope = f.scope
  shared : f.shared = true → g.shared = true

theorem Function.Becomes.refl (f : Function) : f.Becomes f := ⟨rfl, rfl, id⟩

theorem Function.Becomes.trans {f g h : Function} (first : f.Becomes g) (next : g.Becomes h) :
    f.Becomes h :=
  ⟨next.decl.trans first.decl, next.scope.trans first.scope, fun s => next.shared (first.shared s)⟩

/-- Once shared, a function does not change at all. -/
theorem Function.Becomes.eq {f g : Function} (h : f.Becomes g) (shared : f.shared = true) :
    g = f := by
  obtain ⟨decl, scope, keeps⟩ := h
  cases f
  cases g
  simp_all

structure Heap.Grows (h k : Heap) : Prop where
  tables : h.tables.size ≤ k.tables.size
  functions : ∀ (i : Nat) (f : Function), h.functions[i]? = some f →
    ∃ g, k.functions[i]? = some g ∧ f.Becomes g

theorem Heap.Grows.of_same {h k : Heap} (tables : k.tables.size = h.tables.size)
    (functions : k.functions = h.functions) : h.Grows k := by
  refine ⟨Nat.le_of_eq tables.symm, fun i f found => ⟨f, ?_, .refl f⟩⟩
  rw [functions]
  exact found

/-- The heap only grows. -/
theorem grows_law : HeapLaw Heap.Grows where
  refl h := .of_same rfl rfl
  trans first next := by
    refine ⟨Nat.le_trans first.tables next.tables, ?_⟩
    intro i f found
    obtain ⟨g, found', becomes⟩ := first.functions i f found
    obtain ⟨g', found'', becomes'⟩ := next.functions i g found'
    exact ⟨g', found'', becomes.trans becomes'⟩
  newList h items := .of_same rfl rfl
  updateList h r f := .of_same rfl rfl
  newObject h o := .of_same rfl rfl
  setKey h r key v := .of_same rfl rfl
  newClass h c := .of_same rfl rfl
  newFunction h f := by
    refine ⟨Nat.le_refl _, fun i g found => ⟨g, ?_, .refl g⟩⟩
    obtain ⟨below, -⟩ := Array.getElem?_eq_some_iff.1 found
    unfold Heap.newFunction
    dsimp only
    rw [Array.getElem?_push, if_neg (by omega), found]
  markShared h r := by
    refine ⟨Nat.le_refl _, fun i f found => ?_⟩
    unfold Heap.markShared
    dsimp only
    rw [Array.getElem?_modify, found]
    split
    · exact ⟨_, rfl, rfl, rfl, fun _ => rfl⟩
    · exact ⟨f, rfl, .refl f⟩
  newTable h := by
    refine ⟨?_, fun i f found => ⟨f, found, .refl f⟩⟩
    simp [Heap.newTable]
  define h t name f := .of_same (by simp [Heap.define]) rfl

theorem Heap.function_of_getElem? {h : Heap} {r : FunctionRef} {f : Function}
    (found : h.functions[r.index]? = some f) : h.function r = f := by
  unfold Heap.function
  rw [found]
  rfl

end Script
