import Script.Proofs.Sound.Reached

/-! Method dispatch. A class starts out with the methods of its parent and puts its own over them, and
a call on an instance asks the classes of the chain one after another. Both find the method that the
nearest class of the chain declares last. -/

namespace Script

variable {h : Heap} {kept : Stmt → Prop} {runs : List (Files × String)}

/-! Tables of methods. -/

namespace Class

theorem lookup_putMethod (name other : String) (f : FunctionRef) (ms : List (String × FunctionRef)) :
    (putMethod name f ms).lookup other = if name = other then some f else ms.lookup other := by
  induction ms with
  | nil =>
    rw [putMethod, List.lookup_cons]
    by_cases same : name = other
    · simp [same]
    · rw [beq_false_of_ne (Ne.symm same), if_neg same]
  | cons m ms ih =>
    rw [putMethod]
    split
    · rename_i here
      rw [List.lookup_cons, List.lookup_cons, here]
      by_cases same : name = other
      · simp [same]
      · rw [beq_false_of_ne (Ne.symm same), if_neg same]
    · rename_i elsewhere
      rw [List.lookup_cons, List.lookup_cons, ih]
      by_cases same : name = other
      · subst same
        rw [beq_false_of_ne (Ne.symm elsewhere), if_pos rfl]
      · rw [if_neg same, if_neg same]

/-- The names stay where they are, and a new one comes last. -/
theorem names_putMethod (name : String) (f : FunctionRef) (ms : List (String × FunctionRef)) :
    (putMethod name f ms).map Prod.fst = ms.map Prod.fst ∨
      (putMethod name f ms).map Prod.fst = ms.map Prod.fst ++ [name] ∧ name ∉ ms.map Prod.fst := by
  induction ms with
  | nil => exact .inr ⟨rfl, List.not_mem_nil⟩
  | cons m ms ih =>
    rw [putMethod]
    split
    · rename_i here
      exact .inl (congrArg (· :: ms.map Prod.fst) here.symm)
    · rename_i elsewhere
      simp only [List.map_cons]
      rcases ih with same | ⟨added, fresh⟩
      · exact .inl (congrArg (m.1 :: ·) same)
      · refine .inr ⟨congrArg (m.1 :: ·) added, ?_⟩
        exact List.not_mem_cons_of_ne_of_not_mem (Ne.symm elsewhere) fresh

end Class

/-- The function made of the last of the methods that have the name. -/
def lastNamed (name : String) (own : List (Decl × FunctionRef)) : Option FunctionRef :=
  (own.reverse.find? fun e => e.1.name = name).map Prod.snd

theorem lastNamed_append_singleton (name : String) (own : List (Decl × FunctionRef))
    (e : Decl × FunctionRef) :
    lastNamed name (own ++ [e]) = if e.1.name = name then some e.2 else lastNamed name own := by
  unfold lastNamed
  rw [List.reverse_append, List.reverse_singleton, List.singleton_append, List.find?_cons]
  by_cases same : e.1.name = name
  · simp [same]
  · simp [same]

theorem lastNamed_eq_none_iff {name : String} {own : List (Decl × FunctionRef)} :
    lastNamed name own = none ↔ ∀ e ∈ own, e.1.name ≠ name := by
  simp [lastNamed]

/-- A method of the class body wins over what was there, and a later one over an earlier one. -/
theorem lookup_putMethods (name : String) (own : List (Decl × FunctionRef))
    (ms : List (String × FunctionRef)) :
    (putMethods own ms).lookup name = (lastNamed name own).or (ms.lookup name) := by
  induction own using List.reverseRecOn with
  | nil => rfl
  | append_singleton own e ih =>
    rw [putMethods_append_singleton, Class.lookup_putMethod, lastNamed_append_singleton, ih]
    split
    · rfl
    · rfl

theorem names_prefix_putMethods (own : List (Decl × FunctionRef)) (ms : List (String × FunctionRef)) :
    ms.map Prod.fst <+: (putMethods own ms).map Prod.fst := by
  induction own using List.reverseRecOn with
  | nil => exact List.prefix_refl _
  | append_singleton own e ih =>
    rw [putMethods_append_singleton]
    rcases Class.names_putMethod e.1.name e.2 (putMethods own ms) with same | ⟨added, -⟩
    · rw [same]
      exact ih
    · rw [added]
      exact ih.trans (List.prefix_append _ _)

theorem nodup_putMethods (own : List (Decl × FunctionRef)) {ms : List (String × FunctionRef)}
    (distinct : (ms.map Prod.fst).Nodup) : ((putMethods own ms).map Prod.fst).Nodup := by
  induction own using List.reverseRecOn with
  | nil => exact distinct
  | append_singleton own e ih =>
    rw [putMethods_append_singleton]
    rcases Class.names_putMethod e.1.name e.2 (putMethods own ms) with same | ⟨added, fresh⟩
    · rw [same]
      exact ih
    · rw [added, List.nodup_append]
      refine ⟨ih, List.nodup_singleton _, fun name member other last => ?_⟩
      rw [List.mem_singleton.1 last]
      exact fun same => fresh (same ▸ member)

/-! The chain. -/

namespace Heap

/-- A class followed by its ancestors, as far as `bound` goes. -/
def lineageUpTo (h : Heap) : Nat → ClassRef → List ClassRef
  | 0, _ => []
  | n + 1, r => r :: (h.cls r).parent.elim [] (h.lineageUpTo n)

/-- The classes of the chain. -/
def lineage (h : Heap) (r : ClassRef) : List ClassRef :=
  h.lineageUpTo h.classes.size r

theorem chain_eq_map (h : Heap) (r : ClassRef) : h.chain r = (h.lineage r).map h.cls := by
  have upTo (n : Nat) (r : ClassRef) : h.chainUpTo n r = (h.lineageUpTo n r).map h.cls := by
    induction n generalizing r with
    | zero => rfl
    | succ n ih =>
      rw [chainUpTo, lineageUpTo, List.map_cons]
      cases (h.cls r).parent with
      | none => rfl
      | some p => exact congrArg (h.cls r :: ·) (ih p)
  exact upTo _ r

namespace Sound

variable (sound : h.Sound kept)

include sound

theorem older {r p : ClassRef} (above : (h.cls r).parent = some p) : p.index < r.index := by
  rcases sound.cls r with declared | empty
  · exact declared.older p above
  · rw [empty] at above
    cases above

/-- Classes are met after their parents. -/
theorem class_induction {motive : ClassRef → Prop}
    (step : ∀ r, h.Has (.cls r) → (∀ p, (h.cls r).parent = some p → h.Has (.cls p) ∧ motive p) →
      motive r) {r : ClassRef} (there : h.Has (.cls r)) : motive r := by
  obtain ⟨i⟩ := r
  induction i using Nat.strongRecOn with
  | ind i ih =>
    apply step _ there
    rintro ⟨j⟩ above
    have there' := sound.parent above
    exact ⟨there', ih j (sound.older above) there'⟩

/-- Bounds do not matter once they are above a class. -/
theorem lineageUpTo_eq {n m : Nat} {r : ClassRef} (below : r.index < n) (below' : r.index < m) :
    h.lineageUpTo n r = h.lineageUpTo m r := by
  induction n generalizing m r with
  | zero => exact absurd below (Nat.not_lt_zero _)
  | succ n ih =>
    obtain ⟨m, rfl⟩ := Nat.exists_eq_succ_of_ne_zero (Nat.ne_of_gt (Nat.zero_lt_of_lt below'))
    rw [lineageUpTo, lineageUpTo]
    cases above : (h.cls r).parent with
    | none => rfl
    | some p =>
      have nearer := sound.older above
      exact congrArg (r :: ·) (ih (by omega) (by omega))

theorem lineage_eq {r : ClassRef} (there : h.Has (.cls r)) :
    h.lineage r = r :: (h.cls r).parent.elim [] h.lineage := by
  have below : r.index < h.classes.size := there
  obtain ⟨n, size⟩ := Nat.exists_eq_succ_of_ne_zero (Nat.ne_of_gt (Nat.zero_lt_of_lt below))
  unfold lineage
  conv => lhs; rw [size, lineageUpTo]
  cases above : (h.cls r).parent with
  | none => rfl
  | some p =>
    have nearer := sound.older above
    exact congrArg (r :: ·) (sound.lineageUpTo_eq (by omega) (by omega))

end Sound

/-- The functions in `own` are made of the methods that some class statement declares. -/
def Declares (kept : Stmt → Prop) (h : Heap) (own : ClassRef → List (Decl × FunctionRef)) : Prop :=
  ∀ r, h.Has (.cls r) → ∃ path ms span,
    kept (.cls (h.cls r).name path ms span) ∧ h.Makes ms (own r)

/-- How a call on an instance of the class finds a method, where `own` holds what each class body
declares. -/
structure Dispatches (h : Heap) (own : ClassRef → List (Decl × FunctionRef)) (r : ClassRef) :
    Prop where
  chain : h.chain r = (h.lineage r).map h.cls
  lineage : h.lineage r = r :: (h.cls r).parent.elim [] h.lineage
  table : ∀ name, h.method? r name = (h.cls r).method? name
  nearest : ∀ name, h.method? r name = (h.lineage r).findSome? fun q => lastNamed name (own q)
  missing : ∀ name,
    h.method? r name = none ↔ ∀ q ∈ h.lineage r, ∀ e ∈ own q, e.1.name ≠ name
  distinct : ((h.cls r).methods.map Prod.fst).Nodup
  methods : ∀ p, (h.cls r).parent = some p →
    (h.cls p).methods.map Prod.fst <+: (h.cls r).methods.map Prod.fst
  keys : ∀ p, (h.cls r).parent = some p →
    (h.cls p).properties.keys <+: (h.cls r).properties.keys

/-- What a class statement adds to what there was: a class of its members. -/
structure Adds (h k : Heap) (own own' : ClassRef → List (Decl × FunctionRef)) (ms : List Member)
    (r : ClassRef) : Prop where
  new : ¬ h.Has (.cls r)
  makes : k.Makes ms (own' r)
  older : ∀ q, h.Has (.cls q) → k.cls q = h.cls q ∧ own' q = own q
  declares : k.Declares (fun _ => True) own'
  dispatches : ∀ q, k.Has (.cls q) → k.Dispatches own' q

section

variable {own : ClassRef → List (Decl × FunctionRef)} {r : ClassRef}

/-- The table of a class has its own methods over those of its parent. -/
theorem Builds.method? {ms : List Member} (built : h.Builds ms (own r) (h.cls r)) (name : String) :
    (h.cls r).method? name =
      (lastNamed name (own r)).or
        ((h.cls r).parent.elim none fun p => (h.cls p).method? name) := by
  unfold Class.method?
  rw [built.methods, lookup_putMethods]
  cases (h.cls r).parent with
  | none => rfl
  | some p => rfl

theorem Builds.names {ms : List Member} (built : h.Builds ms (own r) (h.cls r)) {p : ClassRef}
    (above : (h.cls r).parent = some p) :
    (h.cls p).methods.map Prod.fst <+: (h.cls r).methods.map Prod.fst := by
  have whole := names_prefix_putMethods (own r) (Class.under h (h.cls r).name (h.cls r).parent).methods
  rw [← built.methods, above] at whole
  exact whole

theorem Builds.parent_keys {ms : List Member} (built : h.Builds ms (own r) (h.cls r)) {p : ClassRef}
    (above : (h.cls r).parent = some p) :
    (h.cls p).properties.keys <+: (h.cls r).properties.keys := by
  have whole := built.keys
  rw [above] at whole
  exact whole

variable (sound : h.Sound kept) (built : ∀ q, h.Has (.cls q) → ∃ ms, h.Builds ms (own q) (h.cls q))

include sound built

theorem nodup_methods (there : h.Has (.cls r)) : ((h.cls r).methods.map Prod.fst).Nodup := by
  apply sound.class_induction (motive := fun r => ((h.cls r).methods.map Prod.fst).Nodup) _ there
  intro r there parent
  obtain ⟨ms, built⟩ := built r there
  rw [built.methods]
  apply nodup_putMethods
  cases above : (h.cls r).parent with
  | none => exact List.nodup_nil
  | some p => exact (parent p above).2

/-- The table holds what the nearest class declares last. -/
theorem table_nearest (there : h.Has (.cls r)) (name : String) :
    (h.cls r).method? name = (h.lineage r).findSome? fun q => lastNamed name (own q) := by
  apply sound.class_induction (motive := fun r => (h.cls r).method? name =
    (h.lineage r).findSome? fun q => lastNamed name (own q)) _ there
  intro r there parent
  obtain ⟨ms, built⟩ := built r there
  rw [built.method?, sound.lineage_eq there, List.findSome?_cons]
  cases own : lastNamed name (own r) with
  | some f => rfl
  | none =>
    cases above : (h.cls r).parent with
    | none => rfl
    | some p => exact (parent p above).2

/-- Walking the chain finds what the table of the class holds already. -/
theorem walk_table (there : h.Has (.cls r)) (name : String) :
    h.method? r name = (h.cls r).method? name := by
  apply sound.class_induction (motive := fun r => h.method? r name = (h.cls r).method? name) _ there
  intro r there parent
  obtain ⟨ms, built⟩ := built r there
  have first := built.method? name
  unfold Heap.method? at parent ⊢
  rw [chain_eq_map, sound.lineage_eq there, List.map_cons, List.findSome?_cons]
  cases table : (h.cls r).method? name with
  | some f => rfl
  | none =>
    cases above : (h.cls r).parent with
    | none => rfl
    | some p =>
      -- what the class does not have, its parent has not either
      rw [table, above] at first
      obtain ⟨-, none'⟩ := Option.or_eq_none_iff.1 first.symm
      have nearer := (parent p above).2
      rw [chain_eq_map] at nearer
      exact nearer.trans none'

theorem dispatches (there : h.Has (.cls r)) : h.Dispatches own r := by
  obtain ⟨ms, made⟩ := built r there
  have nearest (name : String) := (walk_table sound built there name).trans
    (table_nearest sound built there name)
  refine ⟨h.chain_eq_map r, sound.lineage_eq there, walk_table sound built there, nearest,
    fun name => ?_, nodup_methods sound built there, fun p => made.names, fun p => made.parent_keys⟩
  rw [nearest, List.findSome?_eq_none_iff]
  simp only [lastNamed_eq_none_iff]

end

/-- What a sound heap holds declares its classes. -/
theorem Sound.declares (sound : h.Sound kept) :
    ∃ own, h.Declares kept own ∧ ∀ r, h.Has (.cls r) → ∃ ms, h.Builds ms (own r) (h.cls r) := by
  have each (r : ClassRef) : ∃ own, h.Has (.cls r) → ∃ path ms span,
      kept (.cls (h.cls r).name path ms span) ∧ h.Builds ms own (h.cls r) := by
    by_cases there : h.Has (.cls r)
    · obtain ⟨-, path, ms, span, own, declared, built⟩ := sound.declared there
      exact ⟨own, fun _ => ⟨path, ms, span, declared, built⟩⟩
    · exact ⟨[], fun there' => absurd there' there⟩
  choose own declared using each
  refine ⟨own, fun r there => ?_, fun r there => ?_⟩
  · obtain ⟨path, ms, span, inside, built⟩ := declared r there
    exact ⟨path, ms, span, inside, built.makes⟩
  · obtain ⟨path, ms, span, inside, built⟩ := declared r there
    exact ⟨ms, built⟩

theorem Sound.classOf? (sound : h.Sound kept) {v : Value} {r : ClassRef}
    (instance' : h.classOf? v = some r) : h.Has (.cls r) := by
  unfold Heap.classOf? at instance'
  split at instance'
  · split at instance'
    · rename_i held
      cases instance'
      exact (sound.object _).get? held
    · cases instance'
  · cases instance'

end Heap

/-- A method call on an instance calls the first method of the name along the chain. -/
theorem callee_of_instance {m : Machine} {v : Value} {r : ClassRef}
    (instance' : m.heap.classOf? v = some r) (name : String) (span : Span) :
    v.callee name span m =
      match m.heap.method? r name with
      | some f => .ok (.method f) m
      | none => .error (.fault ⟨.running (.noClassMethod name (m.heap.cls r).name), span⟩) m := by
  unfold Value.callee Eval.heap
  simp only [bind, EStateM.bind, get, getThe, MonadStateOf.get, EStateM.get, pure, EStateM.pure,
    instance']
  cases m.heap.method? r name with
  | some f => rfl
  | none => rfl

theorem execute_cls {host : Host} {name : String} {path : Option ClassPath} {ms : List Member}
    {span : Span} {s t : State} {flow : Flow}
    (ran : host.execute (.cls name path ms span) s = .ok flow t) :
    ∃ v m, host.declaredClass s.frame name path ms span s.machine = .ok v m ∧
      t = ⟨s.frame.assign name v, m⟩ := by
  obtain ⟨frame, machine⟩ := s
  cases declared : host.declaredClass frame name path ms span machine with
  | error e m =>
    simp only [Host.execute, bind, EStateM.bind, Exec.eval, declared] at ran
    cases ran
  | ok v m =>
    simp only [Host.execute, bind, EStateM.bind, Exec.eval, declared] at ran
    cases ran
    exact ⟨v, m, rfl, rfl⟩

/-- A class statement binds a class of its members under the parent that it names. -/
theorem execute_adds {kept : Stmt → Prop} {s t : State} (sound : s.Sound kept)
    {own : ClassRef → List (Decl × FunctionRef)}
    (built : ∀ q, s.machine.heap.Has (.cls q) →
      ∃ ms, s.machine.heap.Builds ms (own q) (s.machine.heap.cls q))
    {limit : Nat} {c : Context} {name : String} {path : Option ClassPath} {ms : List Member}
    {span : Span} {flow : Flow}
    (ran : (Host.of limit c).execute (.cls name path ms span) s = .ok flow t) :
    ∃ r own', t.frame.get? name = some (.cls r) ∧ (t.machine.heap.cls r).name = name ∧
      s.machine.heap.Extends s.frame path (t.machine.heap.cls r).parent ∧
      s.machine.heap.Adds t.machine.heap own own' ms r := by
  have all : s.Sound fun _ => True := sound.mono fun _ _ => trivial
  have inner : ∀ y ∈ (Stmt.cls name path ms span).parts, True := fun _ _ => trivial
  have rules := all_rules c.files
  have bodies : HostUpholds (fun _ => True) (fun _ => True) (.of limit c) :=
    fun h c' b same inner => Upholds.run rules limit same inner
  obtain ⟨v, m, declared, rfl⟩ := execute_cls ran
  have ended := Upholds.declaredClass rules bodies all.frame inner s.machine rfl all.heap
  rw [declared] at ended
  obtain ⟨later, after, r, cls, made, rfl, new, found, named, parent, builds⟩ := ended
  have same : m.heap.cls r = cls := by
    unfold Heap.cls
    rw [found]
    rfl
  rw [← same] at named parent builds
  -- classes that the values of properties have made in between are neither old nor this one
  obtain ⟨others, -, between⟩ := after.declares
  let own' : ClassRef → List (Decl × FunctionRef) := fun q =>
    if q = r then made else if q.index < s.machine.heap.classes.size then own q else others q
  have here : own' r = made := if_pos rfl
  have older (q : ClassRef) (there : s.machine.heap.Has (.cls q)) : own' q = own q := by
    have other : q ≠ r := fun is => new (is ▸ there)
    have below : q.index < s.machine.heap.classes.size := there
    simp only [own', if_neg other, if_pos below]
  have whole (q : ClassRef) (there : m.heap.Has (.cls q)) :
      ∃ ms, m.heap.Builds ms (own' q) (m.heap.cls q) := by
    by_cases is : q = r
    · rw [is, here]
      exact ⟨ms, builds⟩
    · by_cases old : s.machine.heap.Has (.cls q)
      · obtain ⟨ms, before⟩ := built q old
        rw [older q old, later.cls old]
        exact ⟨ms, later.builds before⟩
      · have between' : own' q = others q := by
          have beyond : ¬ q.index < s.machine.heap.classes.size := old
          simp only [own', if_neg is, if_neg beyond]
        rw [between']
        exact between q there
  refine ⟨r, own', Bindings.get?_insert_self _ _ _, named, parent, new, ?_, fun q there => ?_,
    fun q there => ?_, fun q there => Heap.dispatches after whole there⟩
  · rw [here]
    exact builds.makes
  · exact ⟨later.cls there, older q there⟩
  · obtain ⟨ms, builds⟩ := whole q there
    exact ⟨none, ms, span, trivial, builds.makes⟩

/-- In any session a method call on an instance calls the function that was made of the method which
the nearest class of the chain declares last, and the table of the class holds that function too. A
class statement adds a class of its own members to those that there are. -/
theorem dispatch_nearest {s : State} (reached : Reached runs s) :
    (∀ (v : Value) (r : ClassRef), s.machine.heap.classOf? v = some r →
      s.machine.heap.Has (.cls r) ∧ ∀ name span,
        v.callee name span s.machine =
          match s.machine.heap.method? r name with
          | some f => .ok (.method f) s.machine
          | none => .error (.fault
              ⟨.running (.noClassMethod name (s.machine.heap.cls r).name), span⟩) s.machine) ∧
    ∃ own, s.machine.heap.Declares (StatementIn runs) own ∧
      (∀ r, s.machine.heap.Has (.cls r) → s.machine.heap.Dispatches own r) ∧
      ∀ (limit : Nat) (c : Context) (name : String) (path : Option ClassPath) (ms : List Member)
        (span : Span) (flow : Flow) (t : State),
        (Host.of limit c).execute (.cls name path ms span) s = .ok flow t →
          ∃ r own', t.frame.get? name = some (.cls r) ∧ (t.machine.heap.cls r).name = name ∧
            s.machine.heap.Extends s.frame path (t.machine.heap.cls r).parent ∧
            s.machine.heap.Adds t.machine.heap own own' ms r := by
  have sound := reached.sound
  obtain ⟨own, declared, built⟩ := sound.heap.declares
  refine ⟨fun v r instance' => ⟨sound.heap.classOf? instance', callee_of_instance instance'⟩,
    own, declared, fun r there => Heap.dispatches sound.heap built there, ?_⟩
  intro limit c name path ms span flow t ran
  exact execute_adds sound built ran

/-- A class two steps below the one that declares a method, twice. -/
def ladder : String :=
  "class A f m() return 1 endf f m() return 2 endf endclass " ++
    "class B extends A f n() return 3 endf endclass class C extends B endclass"

/-- The method comes from the top of the chain, and is the later of the two. -/
theorem ladder_dispatched :
    ∃ s own, Reached [(⟨[], []⟩, ladder)] s ∧ s.machine.heap.Dispatches own ⟨2⟩ ∧
      s.machine.heap.lineage ⟨2⟩ = [⟨2⟩, ⟨1⟩, ⟨0⟩] ∧ s.machine.heap.method? ⟨2⟩ "m" = some ⟨1⟩ ∧
      s.machine.heap.method? ⟨2⟩ "k" = none := by
  let c : Context := .inMemory ⟨[], []⟩ .working
  let s := endState (Way.step.run c ladder (Session.quiet .start))
  have reached : Reached [(c.files, ladder)] s := .run .start .step c ladder
  have facts : 2 < s.machine.heap.classes.size ∧
      s.machine.heap.lineage ⟨2⟩ = [⟨2⟩, ⟨1⟩, ⟨0⟩] ∧ s.machine.heap.method? ⟨2⟩ "m" = some ⟨1⟩ ∧
      s.machine.heap.method? ⟨2⟩ "k" = none := by decide +kernel
  obtain ⟨-, own, -, dispatches, -⟩ := dispatch_nearest reached
  exact ⟨s, own, reached, dispatches ⟨2⟩ facts.1, facts.2⟩

end Script
