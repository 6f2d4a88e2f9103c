import Script.Eval.Statement
import Script.Proofs.Filling
import Script.Proofs.Lookup

/-! What a load makes of a module that has run through: one object, filled with the variables that the
module shares and then with copies of the functions that it shares. -/

namespace Script

variable {m : Module} {h : Heap} {a n : Machine}

namespace Module

/-- The functions as a module hands them on. -/
def copies (m : Module) (h : Heap) (fs : List (String × FunctionRef)) : List Function :=
  fs.map fun f => { h.function f.2 with scope := some m.frame }

/-- The names of the functions, with the references that their copies get from `i` on. -/
def copyEntries (i : Nat) (fs : List (String × FunctionRef)) : List (String × Value) :=
  fs.mapIdx fun j f => (f.1, .function ⟨i + j⟩)

/-- The heap with functions added. -/
def withCopies (m : Module) (h : Heap) (fs : List (String × FunctionRef)) : Heap :=
  { h with functions := h.functions ++ (m.copies h fs).toArray }

theorem there_of_mem {f : String × FunctionRef} (member : f ∈ m.functions h) :
    f.2.index < h.functions.size := by
  have shared := (List.mem_filter.1 member).2
  by_contra beyond
  have absent := Array.getElem?_eq_none_iff.2 (Nat.le_of_not_lt beyond)
  rw [Heap.function, absent] at shared
  cases shared

theorem copyEntries_cons (i : Nat) (f : String × FunctionRef) (fs : List (String × FunctionRef)) :
    copyEntries i (f :: fs) = (f.1, .function ⟨i⟩) :: copyEntries (i + 1) fs := by
  unfold copyEntries
  rw [List.mapIdx_cons]
  simp only [Nat.add_zero, Nat.add_assoc, Nat.add_comm 1]

theorem names_copyEntries (i : Nat) (fs : List (String × FunctionRef)) :
    (copyEntries i fs).map Prod.fst = fs.map Prod.fst := by
  induction fs generalizing i with
  | nil => rfl
  | cons f fs ih => rw [copyEntries_cons, List.map_cons, List.map_cons, ih]

theorem exists_of_mem_copyEntries {i : Nat} {fs : List (String × FunctionRef)}
    {e : String × Value} (member : e ∈ copyEntries i fs) : ∃ r, (e.1, r) ∈ fs := by
  have named : e.1 ∈ (copyEntries i fs).map Prod.fst := List.mem_map_of_mem member
  rw [names_copyEntries] at named
  obtain ⟨⟨name, r⟩, offered, rfl⟩ := List.mem_map.1 named
  exact ⟨r, offered⟩

theorem withCopies_cons {f : String × FunctionRef} {fs : List (String × FunctionRef)}
    (there : ∀ f ∈ fs, f.2.index < h.functions.size) :
    m.withCopies h (f :: fs) =
      m.withCopies (h.newFunction { h.function f.2 with scope := some m.frame }).2 fs := by
  have same : m.copies (h.newFunction { h.function f.2 with scope := some m.frame }).2 fs =
      m.copies h fs := by
    apply List.map_congr_left
    intro f' member
    rw [Heap.function_newFunction (there f' member)]
  unfold withCopies
  rw [same]
  simp [Heap.newFunction, copies]

theorem collect_eq {fs : List (String × FunctionRef)}
    (there : ∀ f ∈ fs, f.2.index < a.heap.functions.size) (o : Object Value) :
    m.collect fs o a = .ok (o.setAll (copyEntries a.heap.functions.size fs))
      { a with heap := m.withCopies a.heap fs } := by
  induction fs generalizing o a with
  | nil =>
    have same : m.withCopies a.heap [] = a.heap := by simp [withCopies, copies]
    rw [same]
    rfl
  | cons f fs ih =>
    obtain ⟨-, others⟩ := List.forall_mem_cons.1 there
    let copy := a.heap.newFunction { a.heap.function f.2 with scope := some m.frame }
    have size : copy.2.functions.size = a.heap.functions.size + 1 := Array.size_push _
    have there' : ∀ f ∈ fs, f.2.index < copy.2.functions.size :=
      fun f member => size ▸ Nat.lt_succ_of_lt (others f member)
    have rest := ih (a := { a with heap := copy.2 }) there' (o.set f.1 (.function copy.1))
    rw [withCopies_cons others, copyEntries_cons, ← size]
    exact rest

/-! What is shared. -/

theorem mem_sharedVars {name : String} {v : Value} :
    (name, v) ∈ m.sharedVars ↔ m.shared.contains name = true ∧ m.frame.get? name = some v := by
  unfold sharedVars
  rw [List.mem_filterMap]
  constructor
  · rintro ⟨e, member, found⟩
    obtain ⟨u, bound, same⟩ := Option.map_eq_some_iff.1 found
    cases same
    exact ⟨Option.isSome_of_eq_some (Bindings.get?_of_mem member), bound⟩
  · rintro ⟨listed, bound⟩
    obtain ⟨u, found⟩ := Option.isSome_iff_exists.1 listed
    exact ⟨(name, u), Bindings.mem_of_lookup found, by rw [bound]; rfl⟩

theorem mem_functions {name : String} {r : FunctionRef} :
    (name, r) ∈ m.functions h ↔ m.function? h name = some r := by
  unfold functions function? Frame.function?
  rw [List.mem_filter, Option.filter_eq_some_iff]
  constructor
  · rintro ⟨member, shared⟩
    exact ⟨Bindings.get?_of_mem member, shared⟩
  · rintro ⟨found, shared⟩
    exact ⟨Bindings.mem_of_lookup found, shared⟩

/-- What a load puts into its object, in this order. -/
def items (m : Module) (h : Heap) : List (String × Value) :=
  m.sharedVars ++ copyEntries h.functions.size (m.functions h)

/-- The script once it has loaded the module under a name. -/
def loaded (m : Module) (name : String) (frame : Frame) (n : Machine) : State :=
  let heap := m.withCopies n.heap (m.functions n.heap)
  ⟨frame.assign name (.object ⟨n.heap.objects.size⟩),
    { n with heap := (heap.newObject (Object.empty.setAll (m.items n.heap))).2 }⟩

theorem object_loaded (m : Module) (name : String) (frame : Frame) (n : Machine) :
    (m.loaded name frame n).machine.heap.object ⟨n.heap.objects.size⟩ =
      Object.empty.setAll (m.items n.heap) :=
  Heap.object_newObject _ _

end Module

/-- A load of a module that has run through does not fail. -/
theorem load_eq {host : Host} {file name : String} {span : Span} {s : State}
    (ran : Module.ofFile host .loading file span s.machine = .ok m n) :
    host.execute (.load file name span) s = .ok .done (m.loaded name s.frame n) := by
  have read (a : Machine) : Eval.heap a = .ok a.heap a := rfl
  have there : ∀ f ∈ m.functions n.heap, f.2.index < n.heap.functions.size :=
    fun f => Module.there_of_mem
  have collected := Module.collect_eq (m := m) there (Object.empty.setAll m.sharedVars)
  unfold Host.execute Host.loadFile
  simp only [bind, EStateM.bind, Exec.eval, ran, read, collected]
  unfold Module.loaded Module.items Object.setAll
  rw [List.foldl_append]
  rfl

end Script
