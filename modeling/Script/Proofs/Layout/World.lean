import Script.Proofs.Alike
import Script.Proofs.Keys
import Script.Proofs.Lookup
import Script.Proofs.Relocation

/-! What two runs of one program have in common when its places differ. Places are compared through a
view. Below the heaps that the two runs started from, theirs may differ and stay as they were; a run
owns what was made since, and there the two agree but for the places in declarations. -/

namespace Script

structure World where
  view : Span → Span
  left : Heap
  right : Heap

/-- Two arrays that agree with two older ones as far as those go, and are alike beyond. -/
structure Rows {α : Type} (like : α → α → Prop) (left right a b : Array α) : Prop where
  size : a.size = b.size
  grown : left.size ≤ a.size
  older : ∀ i, i < left.size → a[i]? = left[i]? ∧ b[i]? = right[i]?
  newer : ∀ i, left.size ≤ i → ∀ x y, a[i]? = some x → b[i]? = some y → like x y

namespace Rows

variable {α : Type} {like : α → α → Prop} {left right a b : Array α} {i : Nat}

theorem push (h : Rows like left right a b) {x y : α} (new : like x y) :
    Rows like left right (a.push x) (b.push y) where
  size := by simp [h.size]
  grown := by
    have := h.grown
    simp
    omega
  older i below := by
    have grown := h.grown
    have size := h.size
    rw [Array.getElem?_push, Array.getElem?_push, if_neg (by omega), if_neg (by omega)]
    exact h.older i below
  newer i above x' y' hx hy := by
    have size := h.size
    rw [Array.getElem?_push] at hx hy
    split at hx
    · rename_i last
      rw [if_pos (by omega)] at hy
      cases hx
      cases hy
      exact new
    · rename_i other
      rw [if_neg (by omega)] at hy
      exact h.newer i above x' y' hx hy

theorem modify (h : Rows like left right a b) (above : left.size ≤ i) {f g : α → α}
    (keeps : ∀ x y, like x y → like (f x) (g y)) :
    Rows like left right (a.modify i f) (b.modify i g) where
  size := by simp [h.size]
  grown := by simpa using h.grown
  older j below := by
    rw [Array.getElem?_modify, Array.getElem?_modify, if_neg (by omega), if_neg (by omega)]
    exact h.older j below
  newer j above' x y hx hy := by
    rw [Array.getElem?_modify] at hx hy
    split at hx
    · rename_i same
      rw [if_pos same] at hy
      obtain ⟨x', hx', rfl⟩ := Option.map_eq_some_iff.1 hx
      obtain ⟨y', hy', rfl⟩ := Option.map_eq_some_iff.1 hy
      exact keeps x' y' (h.newer j above' x' y' hx' hy')
    · rename_i other
      rw [if_neg other] at hy
      exact h.newer j above' x y hx hy

theorem update {good : α → Prop} (h : Rows (Same good) left right a b) (above : left.size ≤ i)
    {f : α → α} (keeps : ∀ x, good x → good (f x)) :
    Rows (Same good) left right (a.modify i f) (b.modify i f) := by
  apply h.modify above
  rintro x _ ⟨rfl, gx⟩
  exact ⟨rfl, keeps x gx⟩

/-- What stands at an index that is new, or a default where nothing does. -/
theorem getD (h : Rows like left right a b) (above : left.size ≤ i) {x y : α} (default : like x y) :
    like (a[i]?.getD x) (b[i]?.getD y) := by
  cases found : a[i]? with
  | none =>
    have beyond : b[i]? = none := by
      rw [Array.getElem?_eq_none_iff] at found ⊢
      rw [← h.size]
      exact found
    rw [beyond]
    exact default
  | some x' =>
    obtain ⟨inside, -⟩ := Array.getElem?_eq_some_iff.1 found
    have inside' : i < b.size := h.size ▸ inside
    have here : b[i]? = some b[i] := Array.getElem?_eq_getElem inside'
    rw [here]
    exact h.newer i above x' _ found here

theorem start (size : a.size = b.size) : Rows like a b a b where
  size := size
  grown := Nat.le_refl _
  older _ _ := ⟨rfl, rfl⟩
  newer i above x y hx _ := by
    obtain ⟨inside, -⟩ := Array.getElem?_eq_some_iff.1 hx
    omega

theorem trans {like' : α → α → Prop} {a' b' : Array α} (h : Rows like left right a b)
    (next : Rows like' a b a' b') (implies : ∀ x y, like' x y → like x y) :
    Rows like left right a' b' where
  size := next.size
  grown := Nat.le_trans h.grown next.grown
  older i below := by
    obtain ⟨keptLeft, keptRight⟩ := next.older i (Nat.lt_of_lt_of_le below h.grown)
    obtain ⟨wasLeft, wasRight⟩ := h.older i below
    exact ⟨keptLeft.trans wasLeft, keptRight.trans wasRight⟩
  newer i above x y hx hy := by
    by_cases before : i < a.size
    · obtain ⟨keptLeft, keptRight⟩ := next.older i before
      exact h.newer i above x y (keptLeft ▸ hx) (keptRight ▸ hy)
    · exact implies x y (next.newer i (Nat.le_of_not_lt before) x y hx hy)

end Rows

namespace World

def Owns (w : World) : Value → Prop
  | .list r => w.left.lists.size ≤ r.index
  | .object r => w.left.objects.size ≤ r.index
  | .cls r => w.left.classes.size ≤ r.index
  | .function r => w.left.functions.size ≤ r.index
  | _ => True

structure OwnsFrame (w : World) (f : Frame) : Prop where
  vars : ∀ e ∈ f.vars.entries, w.Owns e.2
  table : w.left.tables.size ≤ f.table.index
  parent : ∀ p ∈ f.parent, w.Owns (.cls p)

structure OwnsClass (w : World) (c : Class) : Prop where
  parent : ∀ p ∈ c.parent, w.Owns (.cls p)
  properties : ∀ e ∈ c.properties.entries, w.Owns e.2
  methods : ∀ m ∈ c.methods, w.Owns (.function m.2)
  constructor : ∀ r ∈ c.constructor, w.Owns (.function r)

structure Functions (w : World) (f g : Function) : Prop where
  decl : f.decl.relocate w.view = g.decl.relocate w.view
  scope : f.scope = g.scope
  owned : ∀ s ∈ f.scope, w.OwnsFrame s
  shared : f.shared = g.shared

theorem Functions.name {w : World} {f g : Function} (like : w.Functions f g) :
    f.decl.name = g.decl.name := by
  have h := congrArg Decl.name like.decl
  simpa only [Decl.name_relocate] using h

theorem Functions.params {w : World} {f g : Function} (like : w.Functions f g) :
    f.decl.params = g.decl.params := by
  have h := congrArg Decl.params like.decl
  simpa only [Decl.params_relocate] using h

theorem Functions.body {w : World} {f g : Function} (like : w.Functions f g) :
    f.decl.body.map (Stmt.relocate w.view) = g.decl.body.map (Stmt.relocate w.view) := by
  have h := congrArg Decl.body like.decl
  simpa only [Decl.body_relocate] using h

theorem Functions.span {w : World} {f g : Function} (like : w.Functions f g) :
    w.view f.decl.span = w.view g.decl.span := by
  have h := congrArg Decl.span like.decl
  simpa only [Decl.span_relocate] using h

def OwnsAll (w : World) (vs : List Value) : Prop :=
  ∀ v ∈ vs, w.Owns v

def OwnsEntries (w : World) (entries : List (String × Value)) : Prop :=
  ∀ e ∈ entries, w.Owns e.2

structure Heaps (w : World) (h k : Heap) : Prop where
  lists : Rows (Same fun vs => ∀ v ∈ vs, w.Owns v) w.left.lists w.right.lists h.lists k.lists
  objects : Rows (Same fun o => w.OwnsEntries o.entries) w.left.objects w.right.objects h.objects
    k.objects
  classes : Rows (Same w.OwnsClass) w.left.classes w.right.classes h.classes k.classes
  functions : Rows w.Functions w.left.functions w.right.functions h.functions k.functions
  tables : Rows (Same fun b => ∀ e ∈ b.entries, w.Owns (.function e.2)) w.left.tables
    w.right.tables h.tables k.tables

structure Machines (w : World) (m n : Machine) : Prop where
  heap : w.Heaps m.heap n.heap
  output : m.output = n.output
  shared : m.shared = n.shared

structure States (w : World) (s t : State) : Prop where
  frame : s.frame = t.frame
  owned : w.OwnsFrame s.frame
  machine : w.Machines s.machine t.machine

def Halts (w : World) : Halt → Halt → Prop
  | .fault e, .fault e' =>
    e.fault = e'.fault ∧ w.view e.span = w.view e'.span ∧ e.message = e'.message
  | .exhausted, .exhausted => True
  | _, _ => False

abbrev Evals (w : World) {α β : Type} (good : α → β → Prop) (x : Eval α) (y : Eval β) : Prop :=
  Alike w.Machines w.Halts good x y

abbrev Execs (w : World) {α β : Type} (good : α → β → Prop) (x : Exec α) (y : Exec β) : Prop :=
  Alike w.States w.Halts good x y

/-! Reading and changing what a run owns. -/

variable {w : World} {h k : Heap}

theorem Heaps.list (heaps : w.Heaps h k) {r : ListRef} (owned : w.Owns (.list r)) :
    h.list r = k.list r ∧ ∀ v ∈ h.list r, w.Owns v :=
  heaps.lists.getD owned ⟨rfl, by simp⟩

theorem Heaps.object (heaps : w.Heaps h k) {r : ObjectRef} (owned : w.Owns (.object r)) :
    h.object r = k.object r ∧ w.OwnsEntries (h.object r).entries :=
  heaps.objects.getD owned ⟨rfl, by simp [OwnsEntries, Object.empty]⟩

theorem Heaps.cls (heaps : w.Heaps h k) {r : ClassRef} (owned : w.Owns (.cls r)) :
    h.cls r = k.cls r ∧ w.OwnsClass (h.cls r) :=
  heaps.classes.getD owned ⟨rfl, by simp, by simp [Object.empty], by simp, by simp⟩

theorem Heaps.function (heaps : w.Heaps h k) {r : FunctionRef} (owned : w.Owns (.function r)) :
    w.Functions (h.function r) (k.function r) :=
  heaps.functions.getD owned ⟨rfl, rfl, by simp, rfl⟩

theorem Heaps.table (heaps : w.Heaps h k) {r : TableRef}
    (owned : w.left.tables.size ≤ r.index) :
    h.table r = k.table r ∧ ∀ e ∈ (h.table r).entries, w.Owns (.function e.2) :=
  heaps.tables.getD owned ⟨rfl, by simp [Bindings.empty]⟩

theorem Heaps.newList (heaps : w.Heaps h k) {items : Array Value}
    (owned : ∀ v ∈ items, w.Owns v) :
    Same (fun r => w.Owns (.list r)) (h.newList items).1 (k.newList items).1 ∧
      w.Heaps (h.newList items).2 (k.newList items).2 := by
  have size := heaps.lists.size
  refine ⟨⟨by simp [Heap.newList, size], heaps.lists.grown⟩, ?_⟩
  exact { heaps with lists := heaps.lists.push ⟨rfl, owned⟩ }

theorem Heaps.newObject (heaps : w.Heaps h k) {o : Object Value} (owned : w.OwnsEntries o.entries) :
    Same (fun r => w.Owns (.object r)) (h.newObject o).1 (k.newObject o).1 ∧
      w.Heaps (h.newObject o).2 (k.newObject o).2 := by
  have size := heaps.objects.size
  refine ⟨⟨by simp [Heap.newObject, size], heaps.objects.grown⟩, ?_⟩
  exact { heaps with objects := heaps.objects.push ⟨rfl, owned⟩ }

theorem Heaps.newClass (heaps : w.Heaps h k) {c : Class} (owned : w.OwnsClass c) :
    Same (fun r => w.Owns (.cls r)) (h.newClass c).1 (k.newClass c).1 ∧
      w.Heaps (h.newClass c).2 (k.newClass c).2 := by
  have size := heaps.classes.size
  refine ⟨⟨by simp [Heap.newClass, size], heaps.classes.grown⟩, ?_⟩
  exact { heaps with classes := heaps.classes.push ⟨rfl, owned⟩ }

theorem Heaps.newFunction (heaps : w.Heaps h k) {f g : Function} (new : w.Functions f g) :
    Same (fun r => w.Owns (.function r)) (h.newFunction f).1 (k.newFunction g).1 ∧
      w.Heaps (h.newFunction f).2 (k.newFunction g).2 := by
  have size := heaps.functions.size
  refine ⟨⟨by simp [Heap.newFunction, size], heaps.functions.grown⟩, ?_⟩
  exact { heaps with functions := heaps.functions.push new }

theorem Heaps.newFrame (heaps : w.Heaps h k) :
    Same w.OwnsFrame (Frame.new h).1 (Frame.new k).1 ∧ w.Heaps (Frame.new h).2 (Frame.new k).2 := by
  have size := heaps.tables.size
  refine ⟨⟨by simp [Frame.new, Heap.newTable, size], ?_, heaps.tables.grown, by simp [Frame.new]⟩, ?_⟩
  · simp [Frame.new, Bindings.empty]
  · exact { heaps with tables := heaps.tables.push ⟨rfl, by simp [Bindings.empty]⟩ }

theorem Heaps.updateList (heaps : w.Heaps h k) {r : ListRef} (owned : w.Owns (.list r))
    {f : Array Value → Array Value}
    (keeps : ∀ vs : Array Value, (∀ v ∈ vs, w.Owns v) → ∀ v ∈ f vs, w.Owns v) :
    w.Heaps (h.updateList r f) (k.updateList r f) := by
  exact { heaps with lists := heaps.lists.update owned keeps }

theorem Heaps.markShared (heaps : w.Heaps h k) {r : FunctionRef} (owned : w.Owns (.function r)) :
    w.Heaps (h.markShared r) (k.markShared r) := by
  have keeps (f g : Function) (like : w.Functions f g) :
      w.Functions { f with shared := true } { g with shared := true } :=
    ⟨like.decl, like.scope, like.owned, rfl⟩
  exact { heaps with functions := heaps.functions.modify owned keeps }

theorem Heaps.setKey (heaps : w.Heaps h k) {r : ObjectRef} (owned : w.Owns (.object r))
    {key : String} {v : Value} (value : w.Owns v) :
    w.Heaps (h.setKey r key v) (k.setKey r key v) := by
  have keeps (o : Object Value) (all : w.OwnsEntries o.entries) :
      w.OwnsEntries (o.set key v).entries := Object.holds_set all value
  exact { heaps with objects := heaps.objects.update owned keeps }

/-! Bindings. -/

theorem Heaps.define (heaps : w.Heaps h k) {t : TableRef} (owned : w.left.tables.size ≤ t.index)
    {name : String} {f : FunctionRef} (function : w.Owns (.function f)) :
    w.Heaps (h.define t name f) (k.define t name f) := by
  have keeps (b : Bindings FunctionRef) (all : ∀ e ∈ b.entries, w.Owns (.function e.2)) :
      ∀ e ∈ (b.insert name f).entries, w.Owns (.function e.2) := by
    intro e member
    rcases Bindings.mem_put member with rfl | old
    · exact function
    · exact all e old
  exact { heaps with tables := heaps.tables.update owned keeps }

/-! Frames. -/

theorem OwnsFrame.get? {f : Frame} (frame : w.OwnsFrame f) {name : String} {v : Value}
    (found : f.get? name = some v) : w.Owns v :=
  frame.vars _ (Bindings.mem_of_lookup found)

theorem OwnsFrame.assign {f : Frame} (frame : w.OwnsFrame f) {name : String} {v : Value}
    (owned : w.Owns v) : w.OwnsFrame (f.assign name v) :=
  { frame with vars := Bindings.holds_insert frame.vars owned }

theorem OwnsFrame.assignAll {f : Frame} (frame : w.OwnsFrame f) (names : List String)
    {vs : List Value} (owned : w.OwnsAll vs) : w.OwnsFrame (f.assignAll names vs) := by
  unfold Frame.assignAll
  have zipped : ∀ e ∈ names.zip vs, w.Owns e.2 := fun e member => owned _ (List.of_mem_zip member).2
  generalize names.zip vs = entries at zipped
  induction entries generalizing f with
  | nil => exact frame
  | cons e entries ih =>
    obtain ⟨first, others⟩ := List.forall_mem_cons.1 zipped
    exact ih (frame.assign first) others

theorem OwnsFrame.callee {f : Frame} (frame : w.OwnsFrame f) : w.OwnsFrame f.callee :=
  { frame with parent := by simp [Frame.callee] }

theorem OwnsFrame.enter {f scope : Frame} (frame : w.OwnsFrame f) (inner : w.OwnsFrame scope) :
    w.OwnsFrame (f.enter scope) :=
  ⟨Bindings.holds_overlay frame.vars inner.vars, inner.table, frame.parent⟩

theorem OwnsFrame.function? {f : Frame} (frame : w.OwnsFrame f) (heaps : w.Heaps h k)
    (name : String) :
    f.function? h name = f.function? k name ∧
      ∀ r, f.function? h name = some r → w.Owns (.function r) := by
  obtain ⟨same, owned⟩ := heaps.table frame.table
  constructor
  · unfold Frame.function?
    rw [same]
  · intro r found
    exact owned _ (Bindings.mem_of_lookup found)

end World

end Script
