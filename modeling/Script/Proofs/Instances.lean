import Script.Proofs.Dispatch
import Script.Proofs.Filling

/-! Instances before their constructors run. The tables of a class begin with what it inherits, in the
order of its parent. So the entries of an instance come from the class alone, and its ancestors add
nothing. Keys do not tell upper from lower case but the names of methods do: where two methods agree as
keys, an instance holds the later of them under both names, while a call finds each by its own. -/

namespace Script

open Object

variable {h k : Heap} {kept : Stmt → Prop} {r p : ClassRef} {runs : List (Files × String)}

namespace Class

theorem names_methodEntries (c : Class) : c.methodEntries.map Prod.fst = c.methods.map Prod.fst := by
  rw [methodEntries, List.map_map]
  rfl

/-- A method alone under its key is the last one there. -/
theorem latest_method {c : Class} (distinct : (c.methods.map Prod.fst).Nodup) {name : String}
    {f : FunctionRef} (found : c.method? name = some f)
    (alone : ∀ m ∈ c.methods, Agree m.1 name → m.1 = name) :
    latest name c.methodEntries = some (.function f) := by
  have member := Bindings.mem_of_lookup found
  have entry : (name, Value.function f) ∈ c.methodEntries :=
    List.mem_map.2 ⟨(name, f), member, rfl⟩
  apply latest_of_mem entry (.refl name)
  intro e member' agree
  obtain ⟨m, member'', rfl⟩ := List.mem_map.1 member'
  have same := alone m member'' agree
  rw [List.inj_on_of_nodup_map distinct member'' member same]

/-- Neither a property nor a method of the class leads to the entry of the key. -/
structure Spares (c : Class) (key : String) : Prop where
  properties : ∀ k ∈ c.properties.keys, ¬ Agree k key
  methods : ∀ m ∈ c.methods, ¬ Agree m.1 key

/-- The tables of the class begin with the keys and the names of the other. -/
structure Heads (other c : Class) : Prop where
  keys : other.properties.keys <+: c.properties.keys
  names : other.methods.map Prod.fst <+: c.methods.map Prod.fst

namespace Heads

variable {a b c : Class}

theorem refl (c : Class) : c.Heads c :=
  ⟨List.prefix_refl _, List.prefix_refl _⟩

theorem trans (first : a.Heads b) (next : b.Heads c) : a.Heads c :=
  ⟨first.keys.trans next.keys, first.names.trans next.names⟩

/-- What the class has not is not in front either. -/
theorem method?_eq_none (heads : a.Heads b) {name : String} (absent : b.method? name = none) :
    a.method? name = none := by
  rw [method?, List.lookup_eq_none_iff] at absent ⊢
  intro m member
  obtain ⟨m', member', same⟩ :=
    List.mem_map.1 (heads.names.subset (List.mem_map_of_mem (f := Prod.fst) member))
  exact same ▸ absent m' member'

end Heads

end Class

namespace Heap

/-! What classes inherit. -/

theorem cls_beyond (beyond : ¬ h.Has (.cls r)) : h.cls r = ⟨"", none, .empty, [], none⟩ := by
  have absent := Array.getElem?_eq_none_iff.2 (Nat.le_of_not_lt beyond)
  rw [cls, absent]
  rfl

theorem has_of_parent (above : (h.cls r).parent = some p) : h.Has (.cls r) := by
  by_contra beyond
  rw [cls_beyond beyond] at above
  cases above

/-- The tables of a class have no two entries for one key and no two methods of one name. They begin
with all that the parent has. -/
structure Inherits (h : Heap) (r : ClassRef) : Prop where
  ordered : (h.cls r).properties.Ordered
  distinct : ((h.cls r).methods.map Prod.fst).Nodup
  heads : ∀ p ∈ (h.cls r).parent, (h.cls p).Heads (h.cls r)

theorem Inherits.beyond (beyond : ¬ h.Has (.cls r)) : h.Inherits r := by
  have empty := cls_beyond beyond
  constructor
  · rw [empty]
    exact .empty
  · rw [empty]
    exact List.nodup_nil
  · intro p above
    exact absurd (has_of_parent above) beyond

theorem Sound.inherits (sound : h.Sound kept) (r : ClassRef) : h.Inherits r := by
  by_cases there : h.Has (.cls r)
  · obtain ⟨own, -, built⟩ := sound.declares
    obtain ⟨ms, made⟩ := built r there
    exact ⟨(sound.properties r).ordered, nodup_methods sound built there,
      fun p above => ⟨made.parent_keys above, made.names above⟩⟩
  · exact .beyond there

/-- Classes never change, and parents are older than their children. So what a heap holds of its
classes can be seen in a later one. -/
theorem Later.inherits (earlier : h.Later k) (sound : k.Sound kept) (r : ClassRef) :
    h.Inherits r := by
  by_cases there : h.Has (.cls r)
  · have same := earlier.cls there
    obtain ⟨ordered, distinct, heads⟩ := sound.inherits r
    rw [same] at ordered distinct heads
    have parent (p : ClassRef) (above : p ∈ (h.cls r).parent) : k.cls p = h.cls p := by
      have older := sound.older (same ▸ above)
      have there' : h.Has (.cls p) := Nat.lt_trans older there
      exact earlier.cls there'
    constructor
    · exact ordered
    · exact distinct
    · intro p above
      exact parent p above ▸ heads p above
  · exact .beyond there

section Chain

variable (inherits : ∀ r, h.Inherits r)

include inherits

/-- The class begins with whatever stands along its chain, at any distance. -/
theorem heads_of_chain (r : ClassRef) : ∀ c ∈ h.chain r, c.Heads (h.cls r) := by
  have upTo (n : Nat) (r : ClassRef) : ∀ c ∈ h.chainUpTo n r, c.Heads (h.cls r) := by
    induction n generalizing r with
    | zero => exact List.forall_mem_nil _
    | succ n ih =>
      intro c member
      rcases List.mem_cons.1 member with rfl | above
      · exact .refl _
      · cases parent : (h.cls r).parent with
        | none =>
          rw [parent] at above
          cases above
        | some p =>
          rw [parent] at above
          exact (ih p c above).trans ((inherits r).heads p parent)
  exact upTo _ r

/-- A call finds what the table of the class has. -/
theorem method?_eq_table (there : h.Has (.cls r)) (name : String) :
    h.method? r name = (h.cls r).method? name := by
  have below : r.index < h.classes.size := there
  obtain ⟨n, size⟩ := Nat.exists_eq_succ_of_ne_zero (Nat.ne_of_gt (Nat.zero_lt_of_lt below))
  have first : h.chain r = h.cls r :: (h.cls r).parent.elim [] (h.chainUpTo n) := by
    rw [chain, size, chainUpTo]
  cases table : (h.cls r).method? name with
  | some f => rw [Heap.method?, first, List.findSome?_cons, table]
  | none =>
    apply List.findSome?_eq_none_iff.2
    intro c member
    exact (heads_of_chain inherits r c member).method?_eq_none table

end Chain

/-! What instances hold. -/

/-- An instance as the class makes it alone: all that it has is set, one entry after another. -/
def ownInstance (h : Heap) (r : ClassRef) : Object Value :=
  let c := h.cls r
  let o := (Object.empty.set classKey (.cls r)).set parentKey (c.parent.elim .null .cls)
  (o.setAll c.properties.entries).setAll c.methodEntries

theorem blankInstance_eq_own (inherits : ∀ r, h.Inherits r) (r : ClassRef) :
    h.blankInstance r = h.ownInstance r := by
  have heads (c : Class) (member : c ∈ (h.chain r).tail) : c.Heads (h.cls r) :=
    heads_of_chain inherits r c (List.mem_of_mem_tail member)
  have keys : ∀ c ∈ (h.chain r).tail,
      c.properties.entries.map Prod.fst <+: (h.cls r).properties.entries.map Prod.fst :=
    fun c member => (heads c member).keys
  have names : ∀ c ∈ (h.chain r).tail,
      c.methodEntries.map Prod.fst <+: (h.cls r).methodEntries.map Prod.fst := by
    intro c member
    rw [c.names_methodEntries, (h.cls r).names_methodEntries]
    exact (heads c member).names
  unfold blankInstance ownInstance
  dsimp only
  rw [setAll_fills keys, setAll_fills names]

/-- What an instance holds under a key comes from its methods, or else from its properties, or else
it is the parent or the class. -/
def heldByInstance (h : Heap) (r : ClassRef) (key : String) : Option Value :=
  let c := h.cls r
  (latest key c.methodEntries).or <| (c.properties.get? key).or <|
    if Agree parentKey key then some (c.parent.elim .null .cls)
    else if Agree classKey key then some (.cls r)
    else none

theorem get?_ownInstance (ordered : (h.cls r).properties.Ordered) (key : String) :
    (h.ownInstance r).get? key = h.heldByInstance r key := by
  unfold ownInstance heldByInstance
  dsimp only
  rw [get?_setAll_eq, get?_setAll_eq, ordered.latest_eq]
  by_cases parent : Agree parentKey key
  · rw [get?_set_agree _ parent, if_pos parent]
  · rw [get?_set_differ _ parent, if_neg parent]
    by_cases own : Agree classKey key
    · rw [get?_set_agree _ own, if_pos own]
    · rw [get?_set_differ _ own, if_neg own]
      rfl

/-- The object stands for an instance of the class. Where keys agree with others, the last one
counts. -/
structure Represents (h : Heap) (q : ObjectRef) (r : ClassRef) : Prop where
  held : ∀ key, (h.object q).get? key = h.heldByInstance r key
  cls : (h.cls r).Spares classKey → h.classOf? (.object q) = some r
  parent : (h.cls r).Spares parentKey →
    (h.object q).get? parentKey = some ((h.cls r).parent.elim .null .cls)
  method : ∀ name f, h.method? r name = some f →
    (∀ m ∈ (h.cls r).methods, Agree m.1 name → m.1 = name) →
    (h.object q).get? name = some (.function f)
  property : ∀ e ∈ (h.cls r).properties.entries, (∀ m ∈ (h.cls r).methods, ¬ Agree m.1 e.1) →
    (h.object q).get? e.1 = some e.2

theorem represents (inherits : ∀ r, h.Inherits r) (there : h.Has (.cls r)) {q : ObjectRef}
    (held : h.object q = h.ownInstance r) : h.Represents q r := by
  have ordered := (inherits r).ordered
  have whole (key : String) : (h.object q).get? key = h.heldByInstance r key := by
    rw [held, get?_ownInstance ordered]
  have unnamed {key : String} (differ : ∀ m ∈ (h.cls r).methods, ¬ Agree m.1 key) :
      latest key (h.cls r).methodEntries = none :=
    latest_eq_none_iff.2 (List.forall_mem_map.2 differ)
  have spared {key : String} (spares : (h.cls r).Spares key) :
      (h.object q).get? key =
        if Agree parentKey key then some ((h.cls r).parent.elim .null .cls)
        else if Agree classKey key then some (.cls r)
        else none := by
    have absent : (h.cls r).properties.get? key = none := by
      rw [← ordered.latest_eq]
      apply latest_eq_none_iff.2
      exact fun e member => spares.properties e.1 (List.mem_map_of_mem member)
    rw [whole, heldByInstance, unnamed spares.methods, absent, Option.none_or, Option.none_or]
  constructor
  · exact whole
  · intro spares
    have apart : ¬ Agree parentKey classKey := by decide
    unfold classOf?
    dsimp only
    rw [spared spares, if_neg apart, if_pos (.refl classKey)]
  · intro spares
    rw [spared spares, if_pos (.refl parentKey)]
  · intro name f found alone
    rw [method?_eq_table inherits there] at found
    have last := Class.latest_method (inherits r).distinct found alone
    rw [whole, heldByInstance, last, Option.some_or]
  · intro e member alone
    have own : (h.cls r).properties.get? e.1 = some e.2 := by
      rw [← ordered.latest_eq]
      exact latest_of_mem member (.refl e.1) fun e' member' => ordered.agree_eq member member'
    rw [whole, heldByInstance, unnamed alone, own, Option.none_or, Option.some_or]

theorem cls_newObject (h : Heap) (o : Object Value) (r : ClassRef) :
    (h.newObject o).2.cls r = h.cls r := rfl

theorem represents_new (inherits : ∀ r, h.Inherits r) (there : h.Has (.cls r)) :
    (h.newObject (h.blankInstance r)).2.Represents (h.newObject (h.blankInstance r)).1 r := by
  rw [blankInstance_eq_own inherits]
  let made := (h.newObject (h.ownInstance r)).2
  have inherits' (r : ClassRef) : made.Inherits r :=
    ⟨(inherits r).ordered, (inherits r).distinct, (inherits r).heads⟩
  have held : made.object ⟨h.objects.size⟩ = made.ownInstance r := object_newObject h _
  have there' : made.Has (.cls r) := there
  exact represents inherits' there' held

end Heap

/-- In no session do the ancestors of a class add anything to an instance of it: what the constructor
starts from are the entries of the class, set one after another. The heap may be any that there was
on the way. -/
theorem walk_adds_nothing {s : State} (reached : Reached runs s)
    (earlier : h.Later s.machine.heap) (r : ClassRef) : h.blankInstance r = h.ownInstance r :=
  Heap.blankInstance_eq_own (earlier.inherits reached.sound.heap) r

/-- A class that inherits a property and a method, and that has members which differ from them in case
only. One of its methods has the key of the property. -/
def overlaps : String :=
  "class A x = 1 f m() return 1 endf endclass " ++
    "class B extends A X = 2 y = 3 f M() return 2 endf f x() return 3 endf endclass"

def overlapsState : State :=
  endState (Way.step.run (.inMemory ⟨[], []⟩ .working) overlaps (Session.quiet .start))

theorem overlaps_reached : Reached [(⟨[], []⟩, overlaps)] overlapsState :=
  .run .start .step (.inMemory ⟨[], []⟩ .working) overlaps

theorem overlaps_tables : overlapsState.machine.heap.Has (.cls ⟨1⟩) ∧
    (overlapsState.machine.heap.cls ⟨1⟩).parent = some ⟨0⟩ ∧
    (overlapsState.machine.heap.cls ⟨1⟩).properties.entries = [("x", .int 2), ("y", .int 3)] ∧
    (overlapsState.machine.heap.cls ⟨1⟩).methods = [("m", ⟨0⟩), ("M", ⟨1⟩), ("x", ⟨2⟩)] ∧
    overlapsState.machine.heap.method? ⟨1⟩ "x" = some ⟨2⟩ := by
  have facts : 1 < overlapsState.machine.heap.classes.size ∧
      (overlapsState.machine.heap.cls ⟨1⟩).parent = some ⟨0⟩ ∧
      (overlapsState.machine.heap.cls ⟨1⟩).properties.entries = [("x", .int 2), ("y", .int 3)] ∧
      (overlapsState.machine.heap.cls ⟨1⟩).methods = [("m", ⟨0⟩), ("M", ⟨1⟩), ("x", ⟨2⟩)] ∧
      overlapsState.machine.heap.method? ⟨1⟩ "x" = some ⟨2⟩ := by decide +kernel
  exact facts

/-- Keys stay as the ancestor spells them, where the ancestor has them. -/
theorem overlaps_flat :
    Reached [(⟨[], []⟩, overlaps)] overlapsState ∧
      overlapsState.machine.heap.blankInstance ⟨1⟩ = overlapsState.machine.heap.ownInstance ⟨1⟩ ∧
      (overlapsState.machine.heap.ownInstance ⟨1⟩).entries =
        [("__class__", .cls ⟨1⟩), ("__parent__", .cls ⟨0⟩), ("x", .function ⟨2⟩), ("y", .int 3),
          ("m", .function ⟨1⟩)] := by
  obtain ⟨-, parent, properties, methods, -⟩ := overlaps_tables
  have entries : (overlapsState.machine.heap.ownInstance ⟨1⟩).entries =
      [("__class__", .cls ⟨1⟩), ("__parent__", .cls ⟨0⟩), ("x", .function ⟨2⟩), ("y", .int 3),
        ("m", .function ⟨1⟩)] := by
    unfold Heap.ownInstance Class.methodEntries
    dsimp only
    rw [parent, properties, methods]
    decide
  exact ⟨overlaps_reached, walk_adds_nothing overlaps_reached (.refl _) ⟨1⟩, entries⟩

/-- In every session an instance represents its class when the constructor starts, wherever in the
session that is. -/
theorem instance_represents {s : State} (reached : Reached runs s)
    (earlier : h.Later s.machine.heap) (there : h.Has (.cls r)) :
    let q := (h.newObject (h.blankInstance r)).1
    let made := (h.newObject (h.blankInstance r)).2
    made.Represents q r ∧
      ∀ (host : Host) (caller : Frame) (f : FunctionRef) (args : List Value) (span : Span)
        (m : Machine), m.heap = h → (h.cls r).constructor = some f →
        host.create caller r args span m =
          (do
            host.construct caller (made.cls r) f (.object q) args span
            return .object q : Eval Value) { m with heap := made } := by
  constructor
  · exact Heap.represents_new (earlier.inherits reached.sound.heap) there
  · intro host caller f args span m same declared
    subst same
    unfold Host.create Eval.newObject Eval.onHeap Eval.heap
    simp only [bind, EStateM.bind, get, getThe, MonadStateOf.get, EStateM.get, pure, EStateM.pure,
      declared]
    rfl

/-- The class has nothing under the reserved keys, and one of its methods alone under its key. -/
theorem overlaps_represented :
    Reached [(⟨[], []⟩, overlaps)] overlapsState ∧
      let q := (overlapsState.machine.heap.newObject
        (overlapsState.machine.heap.blankInstance ⟨1⟩)).1
      let made := (overlapsState.machine.heap.newObject
        (overlapsState.machine.heap.blankInstance ⟨1⟩)).2
      made.classOf? (.object q) = some ⟨1⟩ ∧ (made.object q).get? "y" = some (.int 3) := by
  obtain ⟨there, -, properties, methods, -⟩ := overlaps_tables
  obtain ⟨represents, -⟩ := instance_represents overlaps_reached (.refl _) there
  have spares : (overlapsState.machine.heap.cls ⟨1⟩).Spares classKey := by
    constructor
    · rw [Object.keys, properties]
      decide
    · rw [methods]
      decide
  have own : ("y", Value.int 3) ∈ (overlapsState.machine.heap.cls ⟨1⟩).properties.entries := by
    rw [properties]
    decide
  have alone : ∀ m ∈ (overlapsState.machine.heap.cls ⟨1⟩).methods, ¬ Agree m.1 "y" := by
    rw [methods]
    decide
  have known := represents.cls
  have holds := represents.property ("y", .int 3)
  rw [Heap.cls_newObject] at known holds
  exact ⟨overlaps_reached, known spares, holds own alone⟩

/-- Two methods that differ in case only, and a class with properties under the reserved keys. -/
def twins : String :=
  "class A f go() return 1 endf f GO() return 2 endf endclass " ++
    "class B __class__ = 5 __parent__ = 7 endclass"

/-- The instance holds the second method under the name of the first, which a call would find. And it
is not known as an instance at all where the class sets the reserved keys. -/
theorem twins_mixed_up :
    ∃ s, Reached [(⟨[], []⟩, twins)] s ∧ s.machine.heap.Has (.cls ⟨1⟩) ∧
      s.machine.heap.method? ⟨0⟩ "go" = some ⟨0⟩ ∧
      (s.machine.heap.blankInstance ⟨0⟩).get? "go" = some (.function ⟨1⟩) ∧
      (s.machine.heap.cls ⟨1⟩).parent = none ∧
      (s.machine.heap.blankInstance ⟨1⟩).get? parentKey = some (.int 7) ∧
      (s.machine.heap.newObject (s.machine.heap.blankInstance ⟨1⟩)).2.classOf? (.object ⟨0⟩) =
        none := by
  let c : Context := .inMemory ⟨[], []⟩ .working
  let s := endState (Way.step.run c twins (Session.quiet .start))
  have reached : Reached [(c.files, twins)] s := .run .start .step c twins
  have facts : 1 < s.machine.heap.classes.size ∧
      s.machine.heap.method? ⟨0⟩ "go" = some ⟨0⟩ ∧
      (s.machine.heap.blankInstance ⟨0⟩).get? "go" = some (.function ⟨1⟩) ∧
      (s.machine.heap.cls ⟨1⟩).parent = none ∧
      (s.machine.heap.blankInstance ⟨1⟩).get? parentKey = some (.int 7) ∧
      (s.machine.heap.newObject (s.machine.heap.blankInstance ⟨1⟩)).2.classOf? (.object ⟨0⟩) =
        none := by decide +kernel
  exact ⟨s, reached, facts⟩

end Script
