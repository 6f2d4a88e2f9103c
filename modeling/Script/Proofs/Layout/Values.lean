import Script.Proofs.Layout.World
import Script.Proofs.Scalars
import Script.Eval.Statement

/-! What is read off the heap agrees between two runs, and leads only to what they own. -/

namespace Script.World

variable {w : World} {h k : Heap}

theorem Heaps.truthy (heaps : w.Heaps h k) {v : Value} (owned : w.Owns v) :
    h.truthy v = k.truthy v := by
  cases v with
  | list r => simp only [Heap.truthy, (heaps.list owned).1]
  | object r => simp only [Heap.truthy, (heaps.object owned).1]
  | _ => rfl

theorem mapM_congr {α : Type} {xs : List α} {f g : α → Option String} (same : ∀ x ∈ xs, f x = g x) :
    xs.mapM f = xs.mapM g := by
  induction xs with
  | nil => rfl
  | cons x xs ih =>
    obtain ⟨first, others⟩ := List.forall_mem_cons.1 same
    simp only [List.mapM_cons, first, ih others]

theorem nested_congr {f g : Value → Option String} {v : Value} (same : f v = g v) :
    Heap.nested f v = Heap.nested g v := by
  cases v with
  | string s => rfl
  | _ => exact same

theorem Heaps.textUpTo (heaps : w.Heaps h k) (n : Nat) {v : Value} (owned : w.Owns v) :
    h.textUpTo n v = k.textUpTo n v := by
  induction n generalizing v with
  | zero =>
    cases v with
    | cls r => simp only [Heap.textUpTo, (heaps.cls owned).1]
    | function r => simp only [Heap.textUpTo, (heaps.function owned).name]
    | _ => simp only [Heap.textUpTo]
  | succ n ih =>
    cases v with
    | list r =>
      obtain ⟨same, all⟩ := heaps.list owned
      simp only [Heap.textUpTo, ← same]
      rw [mapM_congr]
      intro item member
      exact nested_congr (ih (all item (Array.mem_toList_iff.1 member)))
    | object r =>
      obtain ⟨same, all⟩ := heaps.object owned
      simp only [Heap.textUpTo, ← same]
      rw [mapM_congr]
      intro e member
      rw [nested_congr (ih (all e member))]
    | cls r => simp only [Heap.textUpTo, (heaps.cls owned).1]
    | function r => simp only [Heap.textUpTo, (heaps.function owned).name]
    | _ => simp only [Heap.textUpTo]

theorem Heaps.text? (heaps : w.Heaps h k) {v : Value} (owned : w.Owns v) :
    h.text? v = k.text? v := by
  unfold Heap.text?
  rw [heaps.lists.size, heaps.objects.size]
  exact heaps.textUpTo _ owned

/-! Classes. -/

theorem Heaps.chainUpTo (heaps : w.Heaps h k) (n : Nat) {r : ClassRef} (owned : w.Owns (.cls r)) :
    h.chainUpTo n r = k.chainUpTo n r ∧ ∀ c ∈ h.chainUpTo n r, w.OwnsClass c := by
  induction n generalizing r with
  | zero => exact ⟨rfl, by simp [Heap.chainUpTo]⟩
  | succ n ih =>
    obtain ⟨same, own⟩ := heaps.cls owned
    simp only [Heap.chainUpTo, ← same]
    cases parent : (h.cls r).parent with
    | none => exact ⟨rfl, by simpa using own⟩
    | some p =>
      obtain ⟨rest, all⟩ := ih (own.parent p parent)
      exact ⟨congrArg (h.cls r :: ·) rest, List.forall_mem_cons.2 ⟨own, all⟩⟩

theorem Heaps.chain (heaps : w.Heaps h k) {r : ClassRef} (owned : w.Owns (.cls r)) :
    h.chain r = k.chain r ∧ ∀ c ∈ h.chain r, w.OwnsClass c := by
  unfold Heap.chain
  rw [← heaps.classes.size]
  exact heaps.chainUpTo _ owned

theorem OwnsClass.method? {c : Class} (own : w.OwnsClass c) {name : String} {r : FunctionRef}
    (found : c.method? name = some r) : w.Owns (.function r) :=
  own.methods _ (Bindings.mem_of_lookup found)

theorem Heaps.method? (heaps : w.Heaps h k) {r : ClassRef} (owned : w.Owns (.cls r))
    (name : String) :
    h.method? r name = k.method? r name ∧
      ∀ f, h.method? r name = some f → w.Owns (.function f) := by
  obtain ⟨same, all⟩ := heaps.chain owned
  constructor
  · unfold Heap.method?
    rw [same]
  · intro f found
    obtain ⟨c, member, here⟩ := List.exists_of_findSome?_eq_some found
    exact (all c member).method? here

theorem Heaps.classOf? (heaps : w.Heaps h k) {v : Value} (owned : w.Owns v) :
    h.classOf? v = k.classOf? v ∧ ∀ c, h.classOf? v = some c → w.Owns (.cls c) := by
  cases v with
  | object r =>
    obtain ⟨same, all⟩ := heaps.object owned
    simp only [Heap.classOf?, ← same]
    refine ⟨trivial, fun c found => ?_⟩
    split at found
    · rename_i c' here
      cases found
      exact Object.holds_get? all here
    · cases found
  | _ => exact ⟨rfl, fun c found => by cases found⟩

theorem OwnsClass.under (heaps : w.Heaps h k) {parent : Option ClassRef}
    (owned : ∀ p ∈ parent, w.Owns (.cls p)) (name : String) :
    Class.under h name parent = Class.under k name parent ∧
      w.OwnsClass (Class.under h name parent) := by
  cases parent with
  | none => exact ⟨rfl, by simp [Class.under], by simp [Class.under, Object.empty],
      by simp [Class.under], by simp [Class.under]⟩
  | some p =>
    obtain ⟨same, own⟩ := heaps.cls (owned p rfl)
    simp only [Class.under, ← same]
    exact ⟨trivial, owned, own.properties, own.methods, by simp⟩

theorem OwnsClass.setMethod {c : Class} (own : w.OwnsClass c) {name : String} {f : FunctionRef}
    (owned : w.Owns (.function f)) : w.OwnsClass (c.setMethod name f) := by
  have methods (ms : List (String × FunctionRef)) (all : ∀ m ∈ ms, w.Owns (.function m.2)) :
      ∀ m ∈ Class.putMethod name f ms, w.Owns (.function m.2) := by
    induction ms with
    | nil => exact List.forall_mem_singleton.2 owned
    | cons m ms ih =>
      obtain ⟨first, others⟩ := List.forall_mem_cons.1 all
      unfold Class.putMethod
      split
      · exact List.forall_mem_cons.2 ⟨owned, others⟩
      · exact List.forall_mem_cons.2 ⟨first, ih others⟩
  exact { own with methods := methods c.methods own.methods }

theorem OwnsClass.methodEntries {c : Class} (own : w.OwnsClass c) :
    w.OwnsEntries c.methodEntries := by
  intro e member
  obtain ⟨m, here, rfl⟩ := List.mem_map.1 member
  exact own.methods m here

theorem Heaps.blankInstance (heaps : w.Heaps h k) {r : ClassRef} (owned : w.Owns (.cls r)) :
    h.blankInstance r = k.blankInstance r ∧ w.OwnsEntries (h.blankInstance r).entries := by
  obtain ⟨same, own⟩ := heaps.cls owned
  obtain ⟨chain, all⟩ := heaps.chain owned
  constructor
  · unfold Heap.blankInstance
    rw [same, chain]
  · have ancestors : ∀ c ∈ (h.chain r).tail, w.OwnsClass c := fun c member =>
      all c (List.mem_of_mem_tail member)
    have filled (entries : Class → List (String × Value))
        (owns : ∀ c, w.OwnsClass c → w.OwnsEntries (entries c)) (cs : List Class)
        (classes : ∀ c ∈ cs, w.OwnsClass c) (o : Object Value) (start : w.OwnsEntries o.entries) :
        w.OwnsEntries (cs.foldl (fun o a => o.fill (entries a)) o).entries := by
      induction cs generalizing o with
      | nil => exact start
      | cons c cs ih =>
        obtain ⟨first, others⟩ := List.forall_mem_cons.1 classes
        exact ih others _ (Object.holds_fill start (owns c first))
    have parent : w.Owns ((h.cls r).parent.elim .null .cls) := by
      cases found : (h.cls r).parent with
      | none => trivial
      | some p => exact own.parent p found
    have empty : w.OwnsEntries (Object.empty : Object Value).entries := by
      simp [OwnsEntries, Object.empty]
    have start : w.OwnsEntries ((Object.empty.set classKey (.cls r)).set parentKey
        ((h.cls r).parent.elim .null .cls)).entries :=
      Object.holds_set (Object.holds_set empty owned) parent
    have properties := filled (fun a => a.properties.entries) (fun c own => own.properties)
      _ ancestors _ start
    have own' := Object.holds_setAll properties own.properties
    have methods := filled Class.methodEntries (fun c own => own.methodEntries) _ ancestors _ own'
    exact Object.holds_setAll methods own.methodEntries

/-! Operations that answer with a value or fail. -/

/-- The same answer, and a good one if there is one. -/
def Answers {α : Type} (good : α → Prop) (x y : Except RunFault α) : Prop :=
  x = y ∧ ∀ a, x = .ok a → good a

theorem Answers.ok {α : Type} {good : α → Prop} {a : α} (ga : good a) :
    Answers good (.ok a) (.ok a) :=
  ⟨rfl, fun _ same => by cases same; exact ga⟩

theorem Answers.error {α : Type} {good : α → Prop} (f : RunFault) :
    Answers good (.error f) (.error f) :=
  ⟨rfl, fun _ same => by cases same⟩

theorem Heaps.follow (heaps : w.Heaps h k) (path : ClassPath) (parts : List String) {v : Value}
    (owned : w.Owns v) : Answers w.Owns (h.follow path parts v) (k.follow path parts v) := by
  induction parts generalizing v with
  | nil => exact Answers.ok owned
  | cons part parts ih =>
    cases v with
    | object r =>
      obtain ⟨same, all⟩ := heaps.object owned
      simp only [Heap.follow, ← same]
      cases found : (h.object r).get? part with
      | none => exact Answers.error _
      | some v => exact ih (Object.holds_get? all found)
    | _ => exact Answers.error _

theorem Heaps.resolveClass (heaps : w.Heaps h k) {frame : Frame} (own : w.OwnsFrame frame)
    (path : ClassPath) :
    Answers (fun c => w.Owns (.cls c)) (h.resolveClass frame path) (k.resolveClass frame path) := by
  unfold Heap.resolveClass
  cases found : frame.get? path.first with
  | none => exact Answers.error _
  | some v =>
    obtain ⟨same, good⟩ := heaps.follow path path.rest (own.get? found)
    dsimp only
    rw [← same]
    cases followed : h.follow path path.rest v with
    | error f => exact Answers.error f
    | ok v =>
      have owned := good v followed
      cases v with
      | cls c => exact Answers.ok owned
      | _ => exact Answers.error _

theorem owns_of_scalar {v : Value} (plain : v.Scalar) : w.Owns v := by
  cases v with
  | list r | object r | cls r | function r => exact plain.elim
  | _ => trivial

theorem Heaps.member (heaps : w.Heaps h k) {l r : Value} (owned : w.Owns r) :
    Answers w.Owns (h.member l r) (k.member l r) := by
  cases r with
  | list xs =>
    simp only [Heap.member, (heaps.list owned).1]
    exact Answers.ok trivial
  | object o =>
    simp only [Heap.member, (heaps.object owned).1]
    cases l with
    | string key => exact Answers.ok trivial
    | _ => exact Answers.error _
  | string s =>
    cases l with
    | string part => exact Answers.ok trivial
    | _ => exact Answers.error _
  | _ => exact Answers.error _

theorem Heaps.apply (heaps : w.Heaps h k) (op : BinOp) {l r : Value} (owned : w.Owns r) :
    Answers w.Owns (op.apply h l r) (op.apply k l r) := by
  unfold BinOp.apply
  split
  · exact Answers.ok trivial
  · exact Answers.ok trivial
  · exact heaps.member owned
  · exact ⟨rfl, fun v ran => owns_of_scalar (BinOp.scalar_ordered ran)⟩
  · exact ⟨rfl, fun v ran => owns_of_scalar (BinOp.scalar_ordered ran)⟩
  · exact ⟨rfl, fun v ran => owns_of_scalar (BinOp.scalar_ordered ran)⟩
  · exact ⟨rfl, fun v ran => owns_of_scalar (BinOp.scalar_ordered ran)⟩
  · split
    · exact Answers.ok trivial
    · exact Answers.error _
    · exact Answers.error _
    · exact ⟨rfl, fun v ran => owns_of_scalar (BinOp.scalar_arithmetic ran)⟩
  · exact ⟨rfl, fun v ran => owns_of_scalar (BinOp.scalar_arithmetic ran)⟩

theorem Heaps.indexed (heaps : w.Heaps h k) {v key : Value} (owned : w.Owns v) :
    Answers w.Owns (h.indexed v key) (k.indexed v key) := by
  cases v with
  | list xs =>
    obtain ⟨same, all⟩ := heaps.list owned
    cases key with
    | int i =>
      simp only [Heap.indexed, ← same]
      cases found : (Heap.position i (h.list xs).size).bind ((h.list xs)[·]?) with
      | none => exact Answers.error _
      | some v =>
        obtain ⟨n, -, here⟩ := Option.bind_eq_some_iff.1 found
        exact Answers.ok (all v (Array.mem_of_getElem? here))
    | _ => exact Answers.error _
  | object o =>
    obtain ⟨same, all⟩ := heaps.object owned
    cases key with
    | string x =>
      simp only [Heap.indexed, ← same]
      cases found : (h.object o).get? x with
      | none => exact Answers.error _
      | some v => exact Answers.ok (Object.holds_get? all found)
    | _ => exact Answers.error _
  | string s =>
    cases key with
    | int i =>
      simp only [Heap.indexed]
      cases (Heap.position i s.length).bind (s.toList[·]?) with
      | none => exact Answers.error _
      | some c => exact Answers.ok trivial
    | _ => exact Answers.error _
  | _ => cases key <;> exact Answers.error _

/-- A change of the heap that two runs can both make. -/
def Change (w : World) (f : Heap → Heap) : Prop :=
  ∀ h k, w.Heaps h k → w.Heaps (f h) (f k)

theorem Heaps.setIndexed (heaps : w.Heaps h k) {v key value : Value} (owned : w.Owns v)
    (new : w.Owns value) :
    Answers w.Change (h.setIndexed v key value) (k.setIndexed v key value) := by
  cases v with
  | list xs =>
    cases key with
    | int i =>
      simp only [Heap.setIndexed, (heaps.list owned).1]
      cases Heap.position i (k.list xs).size with
      | none => exact Answers.error _
      | some n =>
        apply Answers.ok
        intro h k heaps
        apply heaps.updateList owned
        intro vs all u member
        rcases Array.mem_or_eq_of_mem_setIfInBounds member with old | rfl
        · exact all u old
        · exact new
    | _ => exact Answers.error _
  | object o =>
    cases key with
    | string x => exact Answers.ok fun h k heaps => heaps.setKey owned new
    | _ => exact Answers.error _
  | _ => cases key <;> exact Answers.error _

theorem setProperty_answers {v value : Value} (x : String) (owned : w.Owns v)
    (new : w.Owns value) : Answers w.Change (v.setProperty x value) (v.setProperty x value) := by
  cases v with
  | object o => exact Answers.ok fun h k heaps => heaps.setKey owned new
  | _ => exact Answers.error _

theorem Heaps.items (heaps : w.Heaps h k) {v : Value} (owned : w.Owns v) :
    Answers w.OwnsAll (h.items v) (k.items v) := by
  cases v with
  | list xs =>
    obtain ⟨same, all⟩ := heaps.list owned
    simp only [Heap.items, ← same]
    exact Answers.ok fun u member => all u (Array.mem_toList_iff.1 member)
  | string s =>
    apply Answers.ok
    intro u member
    obtain ⟨c, -, rfl⟩ := List.mem_map.1 member
    trivial
  | object o =>
    simp only [Heap.items, (heaps.object owned).1]
    apply Answers.ok
    intro u member
    obtain ⟨key, -, rfl⟩ := List.mem_map.1 member
    trivial
  | _ => exact Answers.error _

theorem Heaps.pairs (heaps : w.Heaps h k) {v : Value} (owned : w.Owns v) :
    Answers (fun ps => ∀ p ∈ ps, w.Owns p.1 ∧ w.Owns p.2) (h.pairs v) (k.pairs v) := by
  obtain ⟨same, good⟩ := heaps.items owned
  cases v with
  | object o =>
    obtain ⟨same, all⟩ := heaps.object owned
    simp only [Heap.pairs, ← same]
    apply Answers.ok
    intro p member
    obtain ⟨e, here, rfl⟩ := List.mem_map.1 member
    exact ⟨trivial, all e here⟩
  | _ =>
    simp only [Heap.pairs, ← same]
    cases found : h.items _ with
    | error f => exact Answers.error f
    | ok vs =>
      apply Answers.ok
      intro p member
      obtain ⟨e, here, rfl⟩ := List.mem_map.1 member
      exact ⟨trivial, good vs found _ (List.fst_mem_of_mem_zipIdx here)⟩

end Script.World
