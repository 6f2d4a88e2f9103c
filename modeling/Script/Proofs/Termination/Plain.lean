import Script.Proofs.Keys
import Script.Proofs.Lookup
import Script.Proofs.Scalars
import Script.Proofs.Sound.Heap

/-! Heaps without code of scripts. No value in such a heap is a class or a function, no name stands
for a function, and all lists and objects that are referred to are there. -/

namespace Script

namespace Heap

/-- No class and no function, and there, if it is a list or an object. -/
def Plain (h : Heap) : Value → Prop
  | .list r => r.index < h.lists.size
  | .object r => r.index < h.objects.size
  | .cls _ | .function _ => False
  | _ => True

def AllPlain (h : Heap) (vs : List Value) : Prop :=
  ∀ v ∈ vs, h.Plain v

def PlainEntries (h : Heap) (entries : List (String × Value)) : Prop :=
  ∀ e ∈ entries, h.Plain e.2

/-- A frame of plain values, in no constructor. -/
structure PlainFrame (h : Heap) (frame : Frame) : Prop where
  vars : h.PlainEntries frame.vars.entries
  parent : frame.parent = none

/-- The second heap has a list and an object wherever the first has. -/
structure Spans (h k : Heap) : Prop where
  lists : h.lists.size ≤ k.lists.size
  objects : h.objects.size ≤ k.objects.size

/-- A heap without code. What it holds may be measured against a larger one, so that it can grow one
part at a time. -/
structure HoldsPlain (w h : Heap) : Prop where
  lists : Each (fun _ vs => ∀ v ∈ vs, w.Plain v) h.lists
  objects : Each (fun _ o => w.PlainEntries o.entries) h.objects
  tables : Each (fun _ names => ∀ name, names.get? name = none) h.tables

def Codeless (h : Heap) : Prop :=
  h.HoldsPlain h

variable {h k l : Heap} {v : Value}

theorem plain_of_scalar (scalar : v.Scalar) : h.Plain v := by
  cases v with
  | list r | object r | cls r | function r => exact scalar.elim
  | _ => trivial

namespace Spans

theorem refl (h : Heap) : h.Spans h :=
  ⟨Nat.le_refl _, Nat.le_refl _⟩

theorem trans (first : h.Spans k) (next : k.Spans l) : h.Spans l :=
  ⟨Nat.le_trans first.lists next.lists, Nat.le_trans first.objects next.objects⟩

theorem plain (spans : h.Spans k) (plain : h.Plain v) : k.Plain v := by
  cases v with
  | list r => exact Nat.lt_of_lt_of_le plain spans.lists
  | object r => exact Nat.lt_of_lt_of_le plain spans.objects
  | cls r | function r => exact plain
  | _ => trivial

theorem entries (spans : h.Spans k) {entries : List (String × Value)}
    (plain : h.PlainEntries entries) : k.PlainEntries entries :=
  fun e member => spans.plain (plain e member)

theorem frame (spans : h.Spans k) {frame : Frame} (plain : h.PlainFrame frame) :
    k.PlainFrame frame :=
  ⟨spans.entries plain.vars, plain.parent⟩

theorem holds (spans : h.Spans k) (holds : h.HoldsPlain l) : k.HoldsPlain l where
  lists := holds.lists.mono fun _ _ plain v member => spans.plain (plain v member)
  objects := holds.objects.mono fun _ _ plain => spans.entries plain
  tables := holds.tables

/-! What the operations add. -/

theorem newList (h : Heap) (items : Array Value) : h.Spans (h.newList items).2 :=
  ⟨by simp [Heap.newList], Nat.le_refl _⟩

theorem updateList (h : Heap) (r : ListRef) (f : Array Value → Array Value) :
    h.Spans (h.updateList r f) :=
  ⟨by simp [Heap.updateList], Nat.le_refl _⟩

theorem newObject (h : Heap) (o : Object Value) : h.Spans (h.newObject o).2 :=
  ⟨Nat.le_refl _, by simp [Heap.newObject]⟩

theorem setKey (h : Heap) (r : ObjectRef) (key : String) (v : Value) : h.Spans (h.setKey r key v) :=
  ⟨Nat.le_refl _, by simp [Heap.setKey]⟩

end Spans

namespace Codeless

variable (codeless : h.Codeless)

include codeless

/-! What the operations keep. -/

theorem newList {items : Array Value} (plain : ∀ v ∈ items, h.Plain v) :
    (h.newList items).2.Codeless := by
  have spans := Spans.newList h items
  have raised := spans.holds codeless
  exact { raised with lists := raised.lists.push fun v member => spans.plain (plain v member) }

theorem updateList (r : ListRef) {f : Array Value → Array Value}
    (keeps : ∀ vs : Array Value, (∀ v ∈ vs, h.Plain v) → ∀ v ∈ f vs, h.Plain v) :
    (h.updateList r f).Codeless := by
  have spans := Spans.updateList h r f
  exact spans.holds { codeless with lists := codeless.lists.modify keeps }

theorem newObject {o : Object Value} (plain : h.PlainEntries o.entries) :
    (h.newObject o).2.Codeless := by
  have spans := Spans.newObject h o
  have raised := spans.holds codeless
  exact { raised with objects := raised.objects.push (spans.entries plain) }

theorem setKey (r : ObjectRef) (key : String) (plain : h.Plain v) :
    (h.setKey r key v).Codeless := by
  have spans := Spans.setKey h r key v
  exact spans.holds { codeless with
    objects := codeless.objects.modify fun _ all => Object.holds_set all plain }

/-! What is read. -/

theorem list (r : ListRef) : ∀ v ∈ h.list r, h.Plain v :=
  codeless.lists.getD (by simp)

theorem object (r : ObjectRef) : h.PlainEntries (h.object r).entries :=
  codeless.objects.getD (List.forall_mem_nil _)

theorem get? {r : ObjectRef} {key : String} (found : (h.object r).get? key = some v) : h.Plain v :=
  Object.holds_get? (codeless.object r) found

theorem indexed {container key : Value} (found : h.indexed container key = .ok v) : h.Plain v := by
  unfold Heap.indexed at found
  split at found
  · dsimp only at found
    split at found
    · rename_i held
      cases found
      obtain ⟨i, -, there⟩ := Option.bind_eq_some_iff.1 held
      exact codeless.list _ v (Array.mem_of_getElem? there)
    · cases found
  · split at found
    · cases found
      trivial
    · cases found
  · cases found
  · cases found
  · split at found
    · rename_i held
      cases found
      exact codeless.get? held
    · cases found
  · cases found
  · cases found

/-- What a loop visits. -/
theorem items {vs : List Value} (found : h.items v = .ok vs) : h.AllPlain vs := by
  cases v with
  | list r =>
    cases found
    exact fun u member => codeless.list r u (Array.mem_toList_iff.1 member)
  | string s =>
    cases found
    exact List.forall_mem_map.2 fun c _ => trivial
  | object r =>
    cases found
    exact List.forall_mem_map.2 fun key _ => trivial
  | _ => cases found

theorem pairs {ps : List (Value × Value)} (found : h.pairs v = .ok ps) :
    ∀ p ∈ ps, h.Plain p.1 ∧ h.Plain p.2 := by
  have placed {vs : List Value} (plain : h.AllPlain vs) :
      ∀ p ∈ vs.zipIdx.map fun e => (Value.int (Int64.ofNat e.2), e.1), h.Plain p.1 ∧ h.Plain p.2 :=
    List.forall_mem_map.2 fun e member => ⟨trivial, plain e.1 (List.fst_mem_of_mem_zipIdx member)⟩
  cases v with
  | object r =>
    cases found
    exact List.forall_mem_map.2 fun e member => ⟨trivial, codeless.object r e member⟩
  | list r =>
    cases found
    exact placed (codeless.items (v := .list r) rfl)
  | string s =>
    cases found
    exact placed (codeless.items (v := .string s) rfl)
  | _ => cases found

/-! What assignments do. -/

theorem setIndexed {container key : Value} {f : Heap → Heap} (plain : h.Plain v)
    (found : h.setIndexed container key v = .ok f) : h.Spans (f h) ∧ (f h).Codeless := by
  unfold Heap.setIndexed at found
  split at found
  · rename_i r i
    split at found
    · cases found
      refine ⟨.updateList h r _, codeless.updateList r fun vs all u member => ?_⟩
      rcases Array.mem_or_eq_of_mem_setIfInBounds member with old | rfl
      · exact all u old
      · exact plain
    · cases found
  · cases found
  · rename_i r key
    cases found
    exact ⟨.setKey h r key v, codeless.setKey r key plain⟩
  · cases found
  · cases found
  · cases found

theorem setProperty {object : Value} {name : String} {f : Heap → Heap} (plain : h.Plain v)
    (found : object.setProperty name v = .ok f) : h.Spans (f h) ∧ (f h).Codeless := by
  cases object with
  | object r =>
    cases found
    exact ⟨.setKey h r name v, codeless.setKey r name plain⟩
  | _ => cases found

/-- No name stands for a function of the script. -/
theorem function?_eq_none (frame : Frame) (name : String) : frame.function? h name = none :=
  codeless.tables.getD (fun _ => rfl) name

/-- No object is an instance. -/
theorem classOf?_eq_none (v : Value) : h.classOf? v = none := by
  unfold classOf?
  split
  · split
    · rename_i found
      exact (codeless.get? found).elim
    · rfl
  · rfl

/-- No path leads to a class. -/
theorem resolveClass_ne (frame : Frame) (plain : h.PlainEntries frame.vars.entries)
    (path : ClassPath) (r : ClassRef) : h.resolveClass frame path ≠ .ok r := by
  have follow (rest : List String) (v w : Value) (plain : h.Plain v)
      (found : h.follow path rest v = .ok w) : h.Plain w := by
    induction rest generalizing v with
    | nil =>
      cases found
      exact plain
    | cons part rest ih =>
      cases v with
      | object o =>
        rw [Heap.follow] at found
        cases held : (h.object o).get? part with
        | none =>
          rw [held] at found
          cases found
        | some u =>
          rw [held] at found
          exact ih u (codeless.get? held) found
      | _ => cases found
  intro resolved
  unfold resolveClass at resolved
  cases bound : frame.get? path.first with
  | none =>
    rw [bound] at resolved
    cases resolved
  | some v =>
    rw [bound] at resolved
    have plain := plain _ (Bindings.mem_of_lookup bound)
    dsimp only at resolved
    cases led : h.follow path path.rest v with
    | error f =>
      rw [led] at resolved
      cases resolved
    | ok w =>
      have there := follow path.rest v w plain led
      rw [led] at resolved
      cases w with
      | cls c => exact there
      | _ => cases resolved

end Codeless

end Heap

/-- Neither the variables nor the heap have any code. -/
structure State.Codeless (s : State) : Prop where
  heap : s.machine.heap.Codeless
  frame : s.machine.heap.PlainFrame s.frame

theorem State.codeless_start : State.start.Codeless := by
  have empty {α : Type} {good : Nat → α → Prop} : Each good #[] := fun i _ found => by simp at found
  exact ⟨⟨empty, empty, empty.push fun _ => rfl⟩, List.forall_mem_nil _, rfl⟩

end Script
