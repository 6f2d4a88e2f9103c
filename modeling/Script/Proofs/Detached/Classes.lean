import Script.Proofs.Detached.Evaluation
import Script.Proofs.Isolation

/-! Class statements. The values of properties are made apart from the script: they come out as they
do in an empty one, and what they are made of is laid over the heap that is there. -/

namespace Script

/-- A property and the expression for its value. -/
def Member.property? : Member → Option (String × Expr)
  | .property name e _ => some (name, e)
  | _ => none

/-- The properties that members declare, in order. -/
def initializers (ms : List Member) : List (String × Expr) :=
  ms.filterMap Member.property?

/-- What a script without files is run with. -/
def Host.alone : Host :=
  .of 0 (.inMemory ⟨[], []⟩ .working)

/-- The values of the properties in an empty script. No state of another script takes part. -/
def initials (ms : List Member) : EStateM.Result Halt Machine (List Value) :=
  Host.alone.evaluateAll State.start.frame ((initializers ms).map Prod.snd) State.start.machine

/-- Nothing is printed or shared, and nothing that was there has changed. -/
structure Machine.Apart (m n : Machine) : Prop where
  output : n.output = m.output
  shared : n.shared = m.shared
  heap : m.heap.Untouched n.heap

/-- The parent that a class statement names, if it names one. -/
def Heap.parent? (h : Heap) (frame : Frame) : Option ClassPath → Except RunFault (Option ClassRef)
  | none => .ok none
  | some path => (h.resolveClass frame path).map some

/-- The machine with more functions. -/
def Machine.adding (m : Machine) (fs : Array Function) : Machine :=
  { m with heap := { m.heap with functions := m.heap.functions ++ fs } }

/-! Members. -/

/-- What adding the members to a class ends with, over a base, when their properties come out in
some way by themselves. The functions of methods and constructors are added to those of the base. -/
def Added (base : Machine) (names : List String) (c : Class) :
    EStateM.Result Halt Machine (List Value) → EStateM.Result Halt Machine Class → Prop
  | .ok vs n, r => ∃ fs d, r = .ok d ((base.adding fs).topped n.heap) ∧
    d.properties = c.properties.setAll (names.zip (vs.map (Value.shift base.heap.extent)))
  | .error e n, r => (∃ f, e = .fault f) ∧ ∃ fs, r = .error e ((base.adding fs).topped n.heap)

namespace Added

variable {base : Machine} {names : List String} {c d : Class}
  {here : EStateM.Result Halt Machine (List Value)} {there : EStateM.Result Halt Machine Class}

theorem of_adding {fs : Array Function} (same : d.properties = c.properties)
    (added : Added (base.adding fs) names d here there) : Added base names c here there := by
  have adding (gs : Array Function) : (base.adding fs).adding gs = base.adding (fs ++ gs) := by
    unfold Machine.adding
    dsimp only
    rw [Array.append_assoc]
  cases here with
  | ok vs n =>
    obtain ⟨gs, d', rfl, properties⟩ := added
    refine ⟨fs ++ gs, d', ?_, ?_⟩
    · rw [adding]
    · rw [← same]
      exact properties
  | error e n =>
    obtain ⟨fault, gs, rfl⟩ := added
    refine ⟨fault, fs ++ gs, ?_⟩
    rw [adding]

end Added

/-- Makes a function over a base. -/
theorem newFunction_topped (base : Machine) (h : Heap) (f : Function) :
    Eval.onHeap (·.newFunction f) (base.topped h) =
      .ok ⟨base.heap.functions.size⟩ ((base.adding #[f]).topped h) := by
  unfold Eval.onHeap Heap.newFunction Machine.topped Machine.adding Heap.topped
  dsimp only
  rw [Array.push_eq_append]
  rfl

theorem added {here host : Host} {frame detached : Frame} (ms : List Member) {base m : Machine}
    (bare : frame.Bare m.heap) (bare' : detached.Bare base.heap) (c : Class) :
    Added base ((initializers ms).map Prod.fst) c
      (here.evaluateAll frame ((initializers ms).map Prod.snd) m)
      (host.addMembers detached ms c (base.topped m.heap)) := by
  induction ms generalizing base m c with
  | nil =>
    unfold Host.addMembers
    refine ⟨#[], c, ?_, rfl⟩
    unfold Machine.adding
    rw [Array.append_empty]
    rfl
  | cons x ms ih =>
    cases x with
    | method d =>
      have bare'' : detached.Bare (base.adding #[⟨d, none, false⟩]).heap :=
        ⟨bare'.vars, bare'.table⟩
      have rest := ih bare bare'' (c.setMethod d.name ⟨base.heap.functions.size⟩)
      unfold Host.addMembers
      simp only [bind, EStateM.bind, newFunction_topped]
      exact rest.of_adding rfl
    | constructor d =>
      have bare'' : detached.Bare (base.adding #[⟨d, none, false⟩]).heap :=
        ⟨bare'.vars, bare'.table⟩
      have rest := ih bare bare'' { c with constructor := some ⟨base.heap.functions.size⟩ }
      unfold Host.addMembers
      simp only [bind, EStateM.bind, newFunction_topped]
      exact rest.of_adding rfl
    | property name e s =>
      have value : Mirrors base m.heap m _ _ (here.evaluate frame e) (host.evaluate detached e) :=
        mirrors_evaluate bare' e bare
      unfold Mirrors at value
      change Added base (name :: (initializers ms).map Prod.fst) c
        (here.evaluateAll frame (e :: (initializers ms).map Prod.snd) m) _
      unfold Host.addMembers Host.evaluateAll
      simp only [bind, EStateM.bind]
      cases ran : here.evaluate frame e m with
      | error halt n =>
        rw [ran] at value
        obtain ⟨fault, ran', -⟩ := value
        rw [ran']
        exact ⟨fault, #[], by simp [Machine.adding]⟩
      | ok v n =>
        rw [ran] at value
        obtain ⟨ran', ext, -⟩ := value
        rw [ran']
        have rest := ih (bare.later ext) bare'
          { c with properties := c.properties.set name (v.shift base.heap.extent) }
        dsimp only
        cases others : here.evaluateAll frame ((initializers ms).map Prod.snd) n with
        | error halt k =>
          rw [others] at rest
          exact rest
        | ok vs k =>
          rw [others] at rest
          exact rest

/-! The statement. -/

theorem Stands.append {α : Type} (a b : Array α) : Stands a (a ++ b) := by
  intro i x found
  obtain ⟨below, -⟩ := Array.getElem?_eq_some_iff.1 found
  rw [Array.getElem?_append_left below]
  exact found

/-- The last heap has the lists and objects of the first and, laid over them, those of the
second. -/
structure Heap.Overlaid (h k l : Heap) : Prop where
  lists : l.lists = (h.topped k).lists
  objects : l.objects = (h.topped k).objects

/-- How a class statement ends in a state. If its parent is found, the rest goes as the values of
its properties come out by themselves: either they fail in the same way, or their values are the
same but for the places of the lists and objects that were made for them. -/
inductive Declared (name : String) (parent : Option ClassPath) (ms : List Member) (span : Span)
    (s : State) : EStateM.Result Halt State Flow → Prop
  | orphaned {f : RunFault} (unresolved : s.machine.heap.parent? s.frame parent = .error f) :
    Declared name parent ms span s (.error (.fault ⟨.running f, span⟩) s)
  | failed {p : Option ClassRef} (found : s.machine.heap.parent? s.frame parent = .ok p)
    {e : Error} {k n : Machine} (ran : initials ms = .error (.fault e) k)
    (apart : s.machine.Apart n) (made : s.machine.heap.Overlaid k.heap n.heap) :
    Declared name parent ms span s (.error (.fault e) ⟨s.frame, n⟩)
  | done {p : Option ClassRef} (found : s.machine.heap.parent? s.frame parent = .ok p)
    {vs : List Value} {k n : Machine} (ran : initials ms = .ok vs k)
    (apart : s.machine.Apart n) (made : s.machine.heap.Overlaid k.heap n.heap)
    (born : ∀ v ∈ vs, s.machine.heap.Born n.heap (v.shift s.machine.heap.extent))
    {c : Class} (new : n.heap.classes = s.machine.heap.classes.push c)
    (properties : c.properties = (Class.under s.machine.heap name p).properties.setAll
      (((initializers ms).map Prod.fst).zip (vs.map (Value.shift s.machine.heap.extent)))) :
    Declared name parent ms span s
      (.ok .done ⟨s.frame.assign name (.cls ⟨s.machine.heap.classes.size⟩), n⟩)

section Statement

variable {host : Host} {frame : Frame} {name : String} {parent : Option ClassPath}
  {ms : List Member} {span : Span} {m : Machine}

/-- The machine with the table of the frame that property values see. -/
def Machine.withTable (m : Machine) : Machine :=
  { m with heap := m.heap.newTable.2 }

/-- The frame that property values see. -/
def Machine.detached (m : Machine) : Frame :=
  ⟨.empty, ⟨m.heap.tables.size⟩, none⟩

/-- The parent is looked up first, and fails the statement as a whole. -/
theorem declaredClass_eq :
    host.declaredClass frame name parent ms span m =
      (do
        let p ← Eval.lift (m.heap.parent? frame parent) span
        let detached ← Eval.onHeap Frame.new
        let c ← host.addMembers detached ms (.under m.heap name p)
        return .cls (← Eval.onHeap (·.newClass c)) : Eval Value) m := by
  cases parent with
  | none => rfl
  | some path =>
    have looked (p : Except RunFault ClassRef) :
        (some <$> Eval.lift p span : Eval (Option ClassRef)) m = Eval.lift (p.map some) span m := by
      cases p <;> rfl
    change EStateM.bind (some <$> Eval.lift (m.heap.resolveClass frame path) span) _ m =
      EStateM.bind (Eval.lift ((m.heap.resolveClass frame path).map some) span) _ m
    unfold EStateM.bind
    rw [looked]
    cases m.heap.resolveClass frame path <;> rfl

theorem declaredClass_orphaned {f : RunFault}
    (unresolved : m.heap.parent? frame parent = .error f) :
    host.declaredClass frame name parent ms span m = .error (.fault ⟨.running f, span⟩) m := by
  rw [declaredClass_eq, unresolved]
  rfl

theorem declaredClass_found {p : Option ClassRef} (found : m.heap.parent? frame parent = .ok p) :
    host.declaredClass frame name parent ms span m =
      (do
        let c ← host.addMembers m.detached ms (.under m.heap name p)
        return .cls (← Eval.onHeap (·.newClass c)) : Eval Value) m.withTable := by
  rw [declaredClass_eq, found]
  rfl

theorem apart_topped (m : Machine) (fs : Array Function) (k : Heap) :
    m.Apart ((m.withTable.adding fs).topped k) where
  output := rfl
  shared := rfl
  heap := ⟨.append _ _, .append _ _, .refl _, .append _ _, .push _ _⟩

end Statement

/-- Class statements are isolated. Whatever the state, one prints and shares nothing, changes no
list, object, class, function or table that was there, and no variable but the one that it names,
and that only if it succeeds. How its properties come out depends on their expressions alone. -/
theorem classes_isolated (host : Host) (name : String) (parent : Option ClassPath)
    (ms : List Member) (span : Span) (s : State) :
    Declared name parent ms span s (host.execute (.cls name parent ms span) s) := by
  obtain ⟨frame, m⟩ := s
  unfold Host.execute
  simp only [bind, EStateM.bind, Exec.eval]
  cases found : m.heap.parent? frame parent with
  | error f =>
    rw [declaredClass_orphaned found]
    exact .orphaned found
  | ok p =>
    have bare : State.start.frame.Bare State.start.machine.heap := ⟨rfl, rfl⟩
    have bare' : m.detached.Bare m.withTable.heap := by
      refine ⟨rfl, ?_⟩
      simp [Machine.detached, Machine.withTable, Heap.table, Heap.newTable]
    have blank : m.withTable.topped State.start.machine.heap = m.withTable := by
      unfold Machine.topped
      rw [Heap.topped_of_blank _ _ rfl rfl]
    have members : Added m.withTable _ (.under m.heap name p) (initials ms) (host.addMembers _ ms
        _ (m.withTable.topped State.start.machine.heap)) := added ms bare bare' _
    have values : Mirrors m.withTable _ _ _ _ (Host.alone.evaluateAll _ _) (host.evaluateAll _ _) :=
      mirrors_evaluateAll bare' ((initializers ms).map Prod.snd) bare
    rw [declaredClass_found found]
    rw [blank] at members
    unfold Mirrors at values
    simp only [bind, EStateM.bind]
    cases ran : initials ms with
    | error e k =>
      rw [ran] at members
      obtain ⟨⟨f, rfl⟩, fs, ran'⟩ := members
      rw [ran']
      exact .failed found ran (apart_topped m fs k.heap) ⟨rfl, rfl⟩
    | ok vs k =>
      rw [ran] at members
      unfold initials at ran
      rw [ran] at values
      obtain ⟨fs, c, ran', properties⟩ := members
      obtain ⟨-, -, born⟩ := values
      rw [ran']
      have apart := apart_topped m fs k.heap
      refine .done found ran ⟨rfl, rfl, ?_⟩ ⟨rfl, rfl⟩ (fun v member => ?_) rfl properties
      · exact { apart.heap with classes := .push _ _ }
      · have laid := (born v member).topped rfl (m.withTable.adding fs).heap
        exact laid.later ⟨rfl, ⟨Nat.le_refl _, fun _ _ => rfl⟩, ⟨Nat.le_refl _, fun _ _ => rfl⟩⟩

end Script
