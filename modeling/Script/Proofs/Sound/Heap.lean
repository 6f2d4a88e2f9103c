import Script.Proofs.Growth
import Script.Proofs.Keys
import Script.Proofs.Lookup
import Script.Proofs.Parts
import Script.Proofs.Scalars

/-! Sound heaps. All classes that a value can lead to are there, each older than those that extend it
and made as a class statement says; objects keep their keys in order; and functions come from
declarations in kept statements. -/

namespace Script

variable {α : Type}

/-- All objects are still there, with their keys where they were and as they were spelt. -/
def Heap.KeepsKeys (h k : Heap) : Prop :=
  ∀ (i : Nat) (o : Object Value), h.objects[i]? = some o →
    ∃ o', k.objects[i]? = some o' ∧ o.keys <+: o'.keys

/-- The later heap has all that the earlier one has. Objects may have gained keys and changed
their values, classes have not changed at all. -/
structure Heap.Later (h k : Heap) : Prop extends h.Grows k where
  objects : h.KeepsKeys k
  classes : ∀ (i : Nat) (c : Class), h.classes[i]? = some c → k.classes[i]? = some c

namespace Heap.Later

variable {h k l : Heap}

theorem of_same (grows : h.Grows k) (objects : k.objects = h.objects)
    (classes : k.classes = h.classes) : h.Later k := by
  refine ⟨grows, fun i o found => ⟨o, ?_, List.prefix_refl _⟩, fun i c found => ?_⟩
  · rw [objects]
    exact found
  · rw [classes]
    exact found

theorem refl (h : Heap) : h.Later h :=
  of_same (grows_law.refl h) rfl rfl

theorem trans (first : h.Later k) (next : k.Later l) : h.Later l := by
  refine ⟨grows_law.trans first.toGrows next.toGrows, ?_, ?_⟩
  · intro i o found
    obtain ⟨o', found', keys⟩ := first.objects i o found
    obtain ⟨o'', found'', keys'⟩ := next.objects i o' found'
    exact ⟨o'', found'', keys.trans keys'⟩
  · intro i c found
    exact next.classes i c (first.classes i c found)

end Heap.Later

theorem getElem?_push_of_some {a : Array α} {i : Nat} {x : α} (found : a[i]? = some x) (y : α) :
    (a.push y)[i]? = some x := by
  obtain ⟨below, -⟩ := Array.getElem?_eq_some_iff.1 found
  rw [Array.getElem?_push, if_neg (Nat.ne_of_lt below)]
  exact found

/-- No run undoes what was done. -/
theorem later_law : HeapLaw Heap.Later where
  refl := .refl
  trans := .trans
  newList h items := .of_same (grows_law.newList h items) rfl rfl
  updateList h r f := .of_same (grows_law.updateList h r f) rfl rfl
  newObject h o := by
    refine ⟨grows_law.newObject h o, fun i o' found => ?_, fun i c found => found⟩
    exact ⟨o', getElem?_push_of_some found o, List.prefix_refl _⟩
  setKey h r key v := by
    refine ⟨grows_law.setKey h r key v, fun i o found => ?_, fun i c found => found⟩
    unfold Heap.setKey
    dsimp only
    rw [Array.getElem?_modify, found]
    split
    · exact ⟨_, rfl, o.keys_prefix_set key v⟩
    · exact ⟨o, rfl, List.prefix_refl _⟩
  newClass h c := by
    refine ⟨grows_law.newClass h c, fun i o found => ⟨o, found, List.prefix_refl _⟩, ?_⟩
    intro i c' found
    exact getElem?_push_of_some found c
  newFunction h f := .of_same (grows_law.newFunction h f) rfl rfl
  markShared h r := .of_same (grows_law.markShared h r) rfl rfl
  newTable h := .of_same (grows_law.newTable h) rfl rfl
  define h t name f := .of_same (grows_law.define h t name f) rfl rfl

/-- What stands at each index. -/
def Each (good : Nat → α → Prop) (a : Array α) : Prop :=
  ∀ (i : Nat) (x : α), a[i]? = some x → good i x

namespace Each

variable {good good' : Nat → α → Prop} {a : Array α}

theorem push (all : Each good a) {x : α} (new : good a.size x) : Each good (a.push x) := by
  intro i y found
  rw [Array.getElem?_push] at found
  split at found
  · rename_i last
    cases found
    rw [last]
    exact new
  · exact all i y found

theorem modify (all : Each good a) {i : Nat} {f : α → α} (keeps : ∀ x, good i x → good i (f x)) :
    Each good (a.modify i f) := by
  intro j y found
  rw [Array.getElem?_modify] at found
  split at found
  · rename_i here
    obtain ⟨x, before, rfl⟩ := Option.map_eq_some_iff.1 found
    subst here
    exact keeps x (all i x before)
  · exact all j y found

theorem mono (all : Each good a) (implies : ∀ i x, good i x → good' i x) : Each good' a :=
  fun i x found => implies i x (all i x found)

theorem getD (all : Each good a) {i : Nat} {x : α} (default : good i x) :
    good i (a[i]?.getD x) := by
  cases found : a[i]? with
  | none => exact default
  | some y => exact all i y found

end Each

namespace Heap

/-- The class that the value is, if it is one, is there. -/
def Has (h : Heap) : Value → Prop
  | .cls r => r.index < h.classes.size
  | _ => True

theorem has_of_scalar {h : Heap} {v : Value} (scalar : v.Scalar) : h.Has v := by
  cases v with
  | cls r => exact scalar.elim
  | _ => trivial

def HasEntries (h : Heap) (entries : List (String × Value)) : Prop :=
  ∀ e ∈ entries, h.Has e.2

def HasAll (h : Heap) (vs : List Value) : Prop :=
  ∀ v ∈ vs, h.Has v

/-- An object with its keys in order, and with what the heap has. -/
structure HasObject (h : Heap) (o : Object Value) : Prop where
  ordered : o.Ordered
  entries : h.HasEntries o.entries

def HasFrame (h : Heap) (f : Frame) : Prop :=
  h.HasEntries f.vars.entries

variable {h : Heap}

namespace HasObject

variable {o : Object Value}

theorem empty : h.HasObject .empty :=
  ⟨.empty, List.forall_mem_nil _⟩

theorem set (all : h.HasObject o) (key : String) {v : Value} (valid : h.Has v) :
    h.HasObject (o.set key v) :=
  ⟨all.ordered.set key v, Object.holds_set all.entries valid⟩

theorem setAll (all : h.HasObject o) {entries : List (String × Value)}
    (valid : h.HasEntries entries) : h.HasObject (o.setAll entries) :=
  ⟨all.ordered.setAll entries, Object.holds_setAll all.entries valid⟩

theorem fill (all : h.HasObject o) {entries : List (String × Value)}
    (valid : h.HasEntries entries) : h.HasObject (o.fill entries) :=
  ⟨all.ordered.fill entries, Object.holds_fill all.entries valid⟩

theorem fillAll (all : h.HasObject o) {entries : Class → List (String × Value)} {cs : List Class}
    (valid : ∀ c ∈ cs, h.HasEntries (entries c)) :
    h.HasObject (cs.foldl (fun o c => o.fill (entries c)) o) := by
  induction cs generalizing o with
  | nil => exact all
  | cons c cs ih =>
    obtain ⟨first, others⟩ := List.forall_mem_cons.1 valid
    exact ih (all.fill first) others

theorem get? (all : h.HasObject o) {key : String} {v : Value} (found : o.get? key = some v) :
    h.Has v :=
  Object.holds_get? all.entries found

end HasObject

namespace HasFrame

variable {f scope : Frame}

theorem get? (valid : h.HasFrame f) {name : String} {v : Value} (found : f.get? name = some v) :
    h.Has v :=
  valid _ (Bindings.mem_of_lookup found)

theorem assign (valid : h.HasFrame f) (name : String) {v : Value} (new : h.Has v) :
    h.HasFrame (f.assign name v) :=
  Bindings.holds_insert valid new

theorem assignAll (valid : h.HasFrame f) (names : List String) {vs : List Value}
    (new : h.HasAll vs) : h.HasFrame (f.assignAll names vs) := by
  unfold Frame.assignAll
  have zipped : h.HasEntries (names.zip vs) := fun e member => new _ (List.of_mem_zip member).2
  generalize names.zip vs = entries at zipped
  induction entries generalizing f with
  | nil => exact valid
  | cons e entries ih =>
    obtain ⟨first, others⟩ := List.forall_mem_cons.1 zipped
    exact ih (valid.assign e.1 first) others

theorem callee (valid : h.HasFrame f) : h.HasFrame f.callee :=
  valid

theorem enter (valid : h.HasFrame f) (inner : h.HasFrame scope) : h.HasFrame (f.enter scope) :=
  Bindings.holds_overlay valid inner

end HasFrame

end Heap

/-- A declaration that a kept statement makes, with kept statements in its body. -/
structure Decl.Kept (kept : Stmt → Prop) (d : Decl) : Prop where
  made : d.body ≠ [] → ∃ x, kept x ∧ d ∈ x.decls
  body : ∀ y ∈ blockParts d.body, kept y

theorem Decl.Kept.of_parts {kept : Stmt → Prop} {x : Stmt} {d : Decl} (inner : ∀ y ∈ x.parts, kept y)
    (member : d ∈ x.decls) : d.Kept kept :=
  ⟨fun _ => ⟨x, inner x x.mem_parts, member⟩,
    fun y part => inner y (x.parts_of_decl member part)⟩

/-- The methods that a class body declares. -/
def methodDecls (ms : List Member) : List Decl :=
  ms.filterMap fun
    | .method d => some d
    | _ => none

/-- The functions that were made of the methods of a class body. -/
structure Heap.Makes (h : Heap) (ms : List Member) (own : List (Decl × FunctionRef)) : Prop where
  decls : own.map Prod.fst = methodDecls ms
  functions : ∀ e ∈ own, ∃ f, h.functions[e.2.index]? = some f ∧ f.decl = e.1

/-- A table of methods with those of a class body put into it, one after another. -/
def putMethods (own : List (Decl × FunctionRef)) (methods : List (String × FunctionRef)) :
    List (String × FunctionRef) :=
  own.foldl (fun ms e => Class.putMethod e.1.name e.2 ms) methods

theorem Class.under_name (h : Heap) (name : String) (parent : Option ClassRef) :
    (Class.under h name parent).name = name := by
  cases parent <;> rfl

theorem Class.under_parent (h : Heap) (name : String) (parent : Option ClassRef) :
    (Class.under h name parent).parent = parent := by
  cases parent <;> rfl

theorem putMethods_append_singleton (own : List (Decl × FunctionRef)) (e : Decl × FunctionRef)
    (ms : List (String × FunctionRef)) :
    putMethods (own ++ [e]) ms = Class.putMethod e.1.name e.2 (putMethods own ms) := by
  unfold putMethods
  rw [List.foldl_append]
  rfl

/-- The class is made of what its parent has and of the members of a class body. -/
structure Heap.Builds (h : Heap) (ms : List Member) (own : List (Decl × FunctionRef))
    (c : Class) : Prop where
  makes : h.Makes ms own
  parent : ∀ p ∈ c.parent, h.Has (.cls p)
  methods : c.methods = putMethods own (Class.under h c.name c.parent).methods
  keys : (Class.under h c.name c.parent).properties.keys <+: c.properties.keys
  properties : h.HasObject c.properties

/-- A class as some kept statement declares it. -/
structure Class.Kept (kept : Stmt → Prop) (h : Heap) (i : Nat) (c : Class) : Prop where
  older : ∀ p ∈ c.parent, p.index < i
  declared : ∃ path ms span own, kept (.cls c.name path ms span) ∧ h.Builds ms own c

theorem Class.Kept.built {kept : Stmt → Prop} {h : Heap} {i : Nat} {c : Class}
    (declared : Class.Kept kept h i c) : ∃ ms own, h.Builds ms own c := by
  obtain ⟨-, path, ms, span, own, -, built⟩ := declared
  exact ⟨ms, own, built⟩

/-- All that a heap holds is as it should be, where values may refer to what `w` has. The two are
apart so that a heap can be measured against a later one before it changes itself. -/
structure Heap.Holds (kept : Stmt → Prop) (w h : Heap) : Prop where
  lists : Each (fun _ vs => ∀ v ∈ vs, w.Has v) h.lists
  objects : Each (fun _ o => w.HasObject o) h.objects
  classes : Each (Class.Kept kept w) h.classes
  functions : Each (fun _ f => f.decl.Kept kept ∧ ∀ s ∈ f.scope, w.HasFrame s) h.functions

def Heap.Sound (kept : Stmt → Prop) (h : Heap) : Prop :=
  h.Holds kept h

namespace Heap

variable {h k : Heap} {kept : Stmt → Prop}

namespace Builds

variable {ms : List Member} {own : List (Decl × FunctionRef)} {c : Class}

theorem property (built : h.Builds ms own c) (name : String) (e : Expr) (span : Span) {v : Value}
    (valid : h.Has v) :
    h.Builds (ms ++ [.property name e span]) own
      { c with properties := c.properties.set name v } where
  makes := ⟨by simp [built.makes.decls, methodDecls], built.makes.functions⟩
  parent := built.parent
  methods := built.methods
  keys := built.keys.trans (c.properties.keys_prefix_set name v)
  properties := built.properties.set name valid

theorem method (built : h.Builds ms own c) (d : Decl) {r : FunctionRef}
    (made : ∃ f, h.functions[r.index]? = some f ∧ f.decl = d) :
    h.Builds (ms ++ [.method d]) (own ++ [(d, r)]) (c.setMethod d.name r) where
  makes := by
    refine ⟨by simp [built.makes.decls, methodDecls], ?_⟩
    exact List.forall_mem_append.2 ⟨built.makes.functions, List.forall_mem_singleton.2 made⟩
  parent := built.parent
  methods := by
    have same : (c.setMethod d.name r).methods = Class.putMethod d.name r c.methods := rfl
    rw [same, built.methods, putMethods_append_singleton]
    rfl
  keys := built.keys
  properties := built.properties

theorem constructor (built : h.Builds ms own c) (d : Decl) (r : FunctionRef) :
    h.Builds (ms ++ [.constructor d]) own { c with constructor := some r } where
  makes := ⟨by simp [built.makes.decls, methodDecls], built.makes.functions⟩
  parent := built.parent
  methods := built.methods
  keys := built.keys
  properties := built.properties

end Builds

/-! What stays as heaps grow. -/

namespace Later

variable (later : h.Later k)

include later

theorem has {v : Value} (valid : h.Has v) : k.Has v := by
  cases v with
  | cls r =>
    have below : r.index < h.classes.size := valid
    have found := later.classes r.index _ (Array.getElem?_eq_getElem below)
    obtain ⟨below', -⟩ := Array.getElem?_eq_some_iff.1 found
    exact below'
  | _ => trivial

theorem size_le : h.classes.size ≤ k.classes.size := by
  by_contra less
  have there : h.Has (.cls ⟨k.classes.size⟩) := Nat.lt_of_not_le less
  exact Nat.lt_irrefl _ (later.has there)

theorem entries {entries : List (String × Value)} (valid : h.HasEntries entries) :
    k.HasEntries entries :=
  fun e member => later.has (valid e member)

theorem frame {f : Frame} (valid : h.HasFrame f) : k.HasFrame f :=
  later.entries valid

theorem all {vs : List Value} (valid : h.HasAll vs) : k.HasAll vs :=
  fun v member => later.has (valid v member)

theorem object {o : Object Value} (valid : h.HasObject o) : k.HasObject o :=
  ⟨valid.ordered, later.entries valid.entries⟩

theorem cls {r : ClassRef} (there : h.Has (.cls r)) : k.cls r = h.cls r := by
  have below : r.index < h.classes.size := there
  have found := Array.getElem?_eq_getElem below
  unfold Heap.cls
  rw [found, later.classes r.index _ found]

theorem under {name : String} {parent : Option ClassRef} (there : ∀ p ∈ parent, h.Has (.cls p)) :
    Class.under k name parent = Class.under h name parent := by
  cases parent with
  | none => rfl
  | some p => simp only [Class.under, later.cls (there p rfl)]

theorem makes {ms : List Member} {own : List (Decl × FunctionRef)} (makes : h.Makes ms own) :
    k.Makes ms own := by
  refine ⟨makes.decls, fun e member => ?_⟩
  obtain ⟨f, found, decl⟩ := makes.functions e member
  obtain ⟨g, found', becomes⟩ := later.functions e.2.index f found
  exact ⟨g, found', becomes.decl.trans decl⟩

theorem builds {ms : List Member} {own : List (Decl × FunctionRef)} {c : Class}
    (builds : h.Builds ms own c) : k.Builds ms own c := by
  have same : Class.under k c.name c.parent = Class.under h c.name c.parent :=
    later.under builds.parent
  refine ⟨later.makes builds.makes, fun p member => later.has (builds.parent p member), ?_, ?_,
    later.object builds.properties⟩
  · rw [same]
    exact builds.methods
  · rw [same]
    exact builds.keys

theorem holds {l : Heap} (holds : Holds kept h l) : Holds kept k l where
  lists := holds.lists.mono fun _ _ valid v member => later.has (valid v member)
  objects := holds.objects.mono fun _ _ valid => later.object valid
  classes := holds.classes.mono fun _ _ ⟨older, path, ms, span, own, declared, built⟩ =>
    ⟨older, path, ms, span, own, declared, later.builds built⟩
  functions := holds.functions.mono fun _ _ ⟨decl, scope⟩ =>
    ⟨decl, fun s member => later.frame (scope s member)⟩

end Later

/-! What the operations keep. -/

namespace Sound

variable (sound : h.Sound kept)

include sound

theorem newList {items : Array Value} (valid : ∀ v ∈ items, h.Has v) :
    (h.newList items).2.Sound kept := by
  have later := later_law.newList h items
  have raised := later.holds sound
  exact { raised with lists := raised.lists.push fun v member => later.has (valid v member) }

theorem updateList (r : ListRef) {f : Array Value → Array Value}
    (keeps : ∀ vs : Array Value, (∀ v ∈ vs, h.Has v) → ∀ v ∈ f vs, h.Has v) :
    (h.updateList r f).Sound kept := by
  have raised := (later_law.updateList h r f).holds sound
  exact { raised with lists := raised.lists.modify keeps }

theorem newObject {o : Object Value} (valid : h.HasObject o) :
    (h.newObject o).2.Sound kept := by
  have later := later_law.newObject h o
  have raised := later.holds sound
  exact { raised with objects := raised.objects.push (later.object valid) }

theorem setKey (r : ObjectRef) (key : String) {v : Value} (valid : h.Has v) :
    (h.setKey r key v).Sound kept := by
  have raised := (later_law.setKey h r key v).holds sound
  exact { raised with objects := raised.objects.modify fun _ all => all.set key valid }

theorem newClass {c : Class} {path : Option ClassPath} {ms : List Member} {span : Span}
    {own : List (Decl × FunctionRef)} (declared : kept (.cls c.name path ms span))
    (built : h.Builds ms own c) : (h.newClass c).2.Sound kept := by
  have later := later_law.newClass h c
  have raised := later.holds sound
  have new : Class.Kept kept (h.newClass c).2 h.classes.size c :=
    ⟨built.parent, path, ms, span, own, declared, later.builds built⟩
  exact { raised with classes := raised.classes.push new }

theorem newFunction {f : Function} (decl : f.decl.Kept kept) (scope : ∀ s ∈ f.scope, h.HasFrame s) :
    (h.newFunction f).2.Sound kept := by
  have later := later_law.newFunction h f
  have raised := later.holds sound
  exact { raised with
    functions := raised.functions.push ⟨decl, fun s member => later.frame (scope s member)⟩ }

theorem markShared (r : FunctionRef) : (h.markShared r).Sound kept := by
  have raised := (later_law.markShared h r).holds sound
  exact { raised with functions := raised.functions.modify fun f good => good }

theorem newTable : h.newTable.2.Sound kept := by
  have raised := (later_law.newTable h).holds sound
  exact ⟨raised.lists, raised.objects, raised.classes, raised.functions⟩

theorem define (t : TableRef) (name : String) (f : FunctionRef) :
    (h.define t name f).Sound kept := by
  have raised := (later_law.define h t name f).holds sound
  exact ⟨raised.lists, raised.objects, raised.classes, raised.functions⟩

/-! What is read. A reference to nothing stands for something empty. -/

theorem list (r : ListRef) : ∀ v ∈ h.list r, h.Has v :=
  sound.lists.getD (by simp)

theorem object (r : ObjectRef) : h.HasObject (h.object r) :=
  sound.objects.getD .empty

theorem function (r : FunctionRef) :
    (h.function r).decl.Kept kept ∧ ∀ s ∈ (h.function r).scope, h.HasFrame s :=
  sound.functions.getD ⟨⟨fun proper => absurd rfl proper, List.forall_mem_nil _⟩, by simp⟩

theorem declared {r : ClassRef} (there : h.Has (.cls r)) : Class.Kept kept h r.index (h.cls r) := by
  have below : r.index < h.classes.size := there
  have found := Array.getElem?_eq_getElem below
  unfold Heap.cls
  rw [found]
  exact sound.classes r.index _ found

/-- A reference leads to a class that was declared, or else to one without anything. -/
theorem cls (r : ClassRef) :
    Class.Kept kept h r.index (h.cls r) ∨ h.cls r = ⟨"", none, .empty, [], none⟩ := by
  unfold Heap.cls
  cases found : h.classes[r.index]? with
  | none => exact .inr rfl
  | some c => exact .inl (sound.classes r.index c found)

theorem properties (r : ClassRef) : h.HasObject (h.cls r).properties := by
  rcases sound.cls r with declared | empty
  · obtain ⟨ms, own, built⟩ := declared.built
    exact built.properties
  · rw [empty]
    exact .empty

theorem parent {r p : ClassRef} (above : (h.cls r).parent = some p) : h.Has (.cls p) := by
  rcases sound.cls r with declared | empty
  · obtain ⟨ms, own, built⟩ := declared.built
    exact built.parent p above
  · rw [empty] at above
    cases above

theorem chain_properties (r : ClassRef) : ∀ c ∈ h.chain r, h.HasEntries c.properties.entries := by
  have upTo (n : Nat) (r : ClassRef) :
      ∀ c ∈ h.chainUpTo n r, h.HasEntries c.properties.entries := by
    induction n generalizing r with
    | zero => exact List.forall_mem_nil _
    | succ n ih =>
      rw [Heap.chainUpTo]
      refine List.forall_mem_cons.2 ⟨(sound.properties r).entries, ?_⟩
      cases (h.cls r).parent with
      | none => exact List.forall_mem_nil _
      | some p => exact ih p
  exact upTo _ r

/-- The class that a class statement starts from has none of its members yet. -/
theorem under (name : String) {parent : Option ClassRef} (there : ∀ p ∈ parent, h.Has (.cls p)) :
    h.Builds [] [] (Class.under h name parent) := by
  have makes : h.Makes [] [] := ⟨rfl, List.forall_mem_nil _⟩
  cases parent with
  | none => exact ⟨makes, there, rfl, List.prefix_refl _, .empty⟩
  | some p => exact ⟨makes, there, rfl, List.prefix_refl _, sound.properties p⟩

/-- An instance has its class and what the class and its ancestors hold. -/
theorem blankInstance {r : ClassRef} (there : h.Has (.cls r)) : h.HasObject (h.blankInstance r) := by
  have ancestors : ∀ c ∈ (h.chain r).tail, h.HasEntries c.properties.entries :=
    fun c member => sound.chain_properties r c (List.mem_of_mem_tail member)
  have methods (c : Class) : h.HasEntries c.methodEntries := by
    intro e member
    obtain ⟨m, -, rfl⟩ := List.mem_map.1 member
    trivial
  have parent : h.Has ((h.cls r).parent.elim .null .cls) := by
    cases above : (h.cls r).parent with
    | none => trivial
    | some p => exact sound.parent above
  have start := ((HasObject.empty (h := h)).set classKey there).set parentKey parent
  have own := (start.fillAll ancestors).setAll (sound.properties r).entries
  exact (own.fillAll fun c _ => methods c).setAll (methods _)

end Sound

end Heap

end Script
