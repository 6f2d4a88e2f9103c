import Script.Proofs.Loading
import Script.Proofs.Trace.Sessions

/-! What modules export. The mark that sharing leaves is on the function, and a copy of a function
has the mark of the original. So a module exports what it shares itself, and it exports whatever
functions it imports: those were marked in the module that they came from. -/

namespace Script

namespace Heap

/-- Names in tables lead to functions that are there, and no two of them to the same function. -/
structure Apart (h : Heap) : Prop where
  there : ∀ {t name r}, (h.table t).get? name = some r → r.index < h.functions.size
  once : ∀ {t t' name name' r}, (h.table t).get? name = some r → (h.table t').get? name' = some r →
    t = t' ∧ name = name'

/-- The table binds the name to a function that is marked as shared. -/
def Exports (h : Heap) (t : TableRef) (name : String) : Prop :=
  ∃ r, (h.table t).get? name = some r ∧ (h.function r).shared = true

variable {h k : Heap} {t t' : TableRef} {name name' : String} {r : FunctionRef} {f : Function}

theorem table_newTable (h : Heap) (t : TableRef) : h.newTable.2.table t = h.table t := by
  unfold Heap.newTable Heap.table
  dsimp only
  rw [Array.getElem?_push]
  split
  · rename_i last
    rw [last, Array.getElem?_size]
    rfl
  · rfl

theorem function_bindNew_new (h : Heap) (t : TableRef) (name : String) (f : Function) :
    (h.bindNew t name f).function ⟨h.functions.size⟩ = f := by
  unfold Heap.bindNew Heap.define Heap.newFunction Heap.function
  dsimp only
  rw [Array.getElem?_push, if_pos rfl]
  rfl

theorem shared_markShared {q : FunctionRef} (shared : ((h.markShared q).function r).shared = true) :
    r = q ∨ (h.function r).shared = true := by
  by_cases same : q.index = r.index
  · left
    cases q
    cases r
    exact congrArg FunctionRef.mk same.symm
  · right
    unfold Heap.markShared Heap.function at shared
    dsimp only at shared
    rw [Array.getElem?_modify, if_neg same] at shared
    exact shared

/-- A name that is bound after a definition was defined then, or was bound before. -/
theorem bound_of_define {q : FunctionRef}
    (bound : ((h.define t name q).table t').get? name' = some r) :
    t' = t ∧ name' = name ∧ r = q ∨ (h.table t').get? name' = some r := by
  by_cases same : t' = t
  · subst same
    unfold Heap.define Heap.table at bound
    dsimp only at bound
    rw [Array.getElem?_modify, if_pos rfl] at bound
    unfold Heap.table
    cases there : h.tables[t'.index]? with
    | none =>
      rw [there] at bound
      cases bound
    | some b =>
      rw [there] at bound
      by_cases here : name' = name
      · subst here
        have new : (b.insert name' q).get? name' = some r := bound
        rw [Bindings.get?_insert_self] at new
        exact .inl ⟨rfl, rfl, (Option.some.inj new).symm⟩
      · have old : (b.insert name q).get? name' = some r := bound
        rw [Bindings.get?_insert_of_ne _ here] at old
        exact .inr old
  · rw [table_define_of_ne same] at bound
    exact .inr bound

theorem get?_define_of_ne (ne : name' ≠ name) (q : FunctionRef) :
    ((h.define t name q).table t').get? name' = (h.table t').get? name' := by
  by_cases same : t' = t
  · subst same
    unfold Heap.define Heap.table
    dsimp only
    rw [Array.getElem?_modify, if_pos rfl]
    cases h.tables[t'.index]? with
    | none => rfl
    | some b => exact Bindings.get?_insert_of_ne b ne q
  · rw [table_define_of_ne same]

theorem bound_of_bindNew (bound : ((h.bindNew t name f).table t').get? name' = some r) :
    t' = t ∧ name' = name ∧ r = ⟨h.functions.size⟩ ∨ (h.table t').get? name' = some r :=
  bound_of_define bound

namespace Apart

theorem empty : Heap.empty.Apart where
  there bound := nomatch bound
  once bound := nomatch bound

theorem newTable (apart : h.Apart) : h.newTable.2.Apart := by
  refine ⟨fun {t name r} bound => ?_, fun {t t' name name' r} bound bound' => ?_⟩
  · rw [table_newTable] at bound
    exact apart.there bound
  · rw [table_newTable] at bound bound'
    exact apart.once bound bound'

/-- What binds nothing more and leaves no function out. -/
theorem of_sub (apart : h.Apart)
    (sub : ∀ {t name r}, (k.table t).get? name = some r → (h.table t).get? name = some r)
    (grown : h.functions.size ≤ k.functions.size) : k.Apart where
  there bound := Nat.lt_of_lt_of_le (apart.there (sub bound)) grown
  once bound bound' := apart.once (sub bound) (sub bound')

theorem bindNew (apart : h.Apart) (t : TableRef) (name : String) (f : Function) :
    (h.bindNew t name f).Apart where
  there := by
    intro t' name' r bound
    change r.index < (h.functions.push f).size
    rw [Array.size_push]
    rcases bound_of_bindNew bound with ⟨-, -, rfl⟩ | before
    · exact Nat.lt_succ_self _
    · exact Nat.lt_succ_of_lt (apart.there before)
  once := by
    intro t₁ t₂ name₁ name₂ r bound₁ bound₂
    rcases bound_of_bindNew bound₁ with ⟨rfl, rfl, rfl⟩ | before₁ <;>
      rcases bound_of_bindNew bound₂ with ⟨rfl, rfl, new⟩ | before₂
    · exact ⟨rfl, rfl⟩
    · exact absurd (apart.there before₂) (Nat.lt_irrefl _)
    · exact absurd (new ▸ apart.there before₁) (Nat.lt_irrefl _)
    · exact apart.once before₁ before₂

end Apart

namespace Exports

theorem of_bindNew (apart : h.Apart) (exports : (h.bindNew t name f).Exports t' name') :
    t' = t ∧ name' = name ∧ f.shared = true ∨ h.Exports t' name' := by
  obtain ⟨r, bound, shared⟩ := exports
  rcases bound_of_bindNew bound with ⟨same, here, rfl⟩ | before
  · rw [function_bindNew_new] at shared
    exact .inl ⟨same, here, shared⟩
  · have kept : (h.bindNew t name f).function r = h.function r :=
      function_newFunction (apart.there before) f
    exact .inr ⟨r, before, kept ▸ shared⟩

theorem of_newFunction (apart : h.Apart) (exports : (h.newFunction f).2.Exports t name) :
    h.Exports t name := by
  obtain ⟨r, bound, shared⟩ := exports
  exact ⟨r, bound, function_newFunction (apart.there bound) f ▸ shared⟩

theorem of_markShared (apart : h.Apart) (bound : (h.table t).get? name = some r)
    (exports : (h.markShared r).Exports t' name') :
    t' = t ∧ name' = name ∨ h.Exports t' name' := by
  obtain ⟨q, bound', shared⟩ := exports
  rcases shared_markShared shared with rfl | before
  · exact .inl (apart.once bound' bound)
  · exact .inr ⟨q, bound', before⟩

theorem there (exports : h.Exports t name) : t.index < h.tables.size := by
  obtain ⟨r, bound, -⟩ := exports
  by_contra beyond
  unfold Heap.table at bound
  rw [Array.getElem?_eq_none_iff.2 (Nat.le_of_not_lt beyond)] at bound
  cases bound

end Exports

end Heap

/-- The functions that a module can hand on are those that its table exports. -/
theorem Module.exports_of_function? {m : Module} {h : Heap} {name : String} {r : FunctionRef}
    (function : m.function? h name = some r) : h.Exports m.frame.table name := by
  obtain ⟨bound, shared⟩ := Option.filter_eq_some_iff.1 function
  exact ⟨r, bound, shared⟩

theorem Module.exports_of_mem {m : Module} {h : Heap} {e : String × FunctionRef}
    (member : e ∈ m.functions h) : h.Exports m.frame.table e.1 :=
  exports_of_function? (mem_functions.1 member)

/-- What handing on keeps: only functions that the module exports are handed on. -/
theorem hand_exports {P : Machine → Prop} {m : Module} {file : String} {items : Selection}
    {span : Span} {frame : Frame} {n : Machine} (apart : n.heap.Apart)
    (passes : ∀ a e, items.Selects e.1 → n.heap.Exports m.frame.table e.1 → P a →
      P { a with heap := m.pass frame.table a.heap e })
    (start : P n) :
    (endState (m.hand file items span ⟨frame, n⟩)).frame.table = frame.table ∧
      P (endState (m.hand file items span ⟨frame, n⟩)).machine := by
  -- what is handed on never makes the module itself export more
  let Q (a : Machine) : Prop := P a ∧ a.heap.Apart ∧
    ∀ name, a.heap.Exports m.frame.table name → n.heap.Exports m.frame.table name
  refine (hand_keeps (P := Q) ?_ ⟨start, apart, fun _ => id⟩).imp_right And.left
  rintro a e selected reason ⟨before, apart', only⟩
  have exported : n.heap.Exports m.frame.table e.1 :=
    reason.elim Module.exports_of_mem fun function => only _ (Module.exports_of_function? function)
  refine ⟨passes a e selected exported before, apart'.bindNew _ _ _, fun name exports => ?_⟩
  rcases exports.of_bindNew apart' with ⟨-, rfl, -⟩ | before
  · exact exported
  · exact only name before

/-- The table of a module is newer than what was there before it ran. -/
theorem table_fresh {host : Host} {access : Access} {file : String} {span : Span} {a n : Machine}
    {m : Module} (made : host = .of host.steps host.context)
    (ran : Module.ofFile host access file span a = .ok m n) :
    a.heap.tables.size ≤ m.frame.table.index := by
  rw [made] at ran
  exact ofFile_fresh ran

/-! What a run says about a name. -/

/-- The names that the statement shares. -/
def Stmt.shares : Stmt → List String
  | .share names _ => names
  | _ => []

namespace Moment

/-- The statement shares the name. -/
def Shares (k : Moment) (name : String) : Prop :=
  name ∈ k.statement.shares

instance (k : Moment) (name : String) : Decidable (k.Shares name) :=
  inferInstanceAs (Decidable (name ∈ k.statement.shares))

/-- The statement imports the name from a module that exports a function under it. -/
def TakesOver (k : Moment) (name : String) : Prop :=
  ∃ file items span m n, k.statement = .imports file items span ∧ items.Selects name ∧
    Module.ofFile k.host .importing file span k.state.machine = .ok m n ∧
      n.heap.Exports m.frame.table name

end Moment

/-- A table exports only names of `J`, and a script shares only variables of `S`. Tables from
`floor` on are newer than the run. -/
structure Kept (floor : Nat) (J : TableRef → String → Prop) (S : Context → String → Prop)
    (c : Context) (m : Machine) : Prop where
  apart : m.heap.Apart
  grown : floor ≤ m.heap.tables.size
  exports : ∀ t name, m.heap.Exports t name → J t name
  shared : ∀ name, m.shared.contains name → S c name

/-- Nothing is exported that no share and no import gives reason for. -/
def shareWatch (floor : Nat) (J : TableRef → String → Prop) (S : Context → String → Prop) :
    Watch where
  known _ := True
  may _ _ := True
  within := Kept floor J S
  noted k :=
    (∀ name, k.Shares name → J k.state.frame.table name ∧ S k.host.context name) ∧
    ∀ file items span m n, k.statement = .imports file items span →
      Module.ofFile k.host .importing file span k.state.machine = .ok m n →
      floor ≤ m.frame.table.index → ∀ name, items.Selects name →
        n.heap.Exports m.frame.table name → J m.frame.table name → J k.state.frame.table name

theorem noted_all (floor : Nat) (k : Moment) :
    (shareWatch floor (fun _ _ => True) fun _ _ => True).noted k :=
  ⟨fun _ _ => ⟨trivial, trivial⟩, fun _ _ _ _ _ _ _ _ _ _ _ _ => trivial⟩

namespace Kept

variable {floor : Nat} {J : TableRef → String → Prop} {S : Context → String → Prop} {c : Context}
  {m : Machine}

theorem bindNew (kept : Kept floor J S c m) {t : TableRef} {name : String} {f : Function}
    (new : f.shared = true → J t name) :
    Kept floor J S c { m with heap := m.heap.bindNew t name f } where
  apart := kept.apart.bindNew t name f
  grown := by
    change floor ≤ (m.heap.tables.modify _ _).size
    rw [Array.size_modify]
    exact kept.grown
  exports t' name' exports := by
    rcases exports.of_bindNew kept.apart with ⟨rfl, rfl, shared⟩ | before
    · exact new shared
    · exact kept.exports t' name' before
  shared := kept.shared

theorem newFunction (kept : Kept floor J S c m) (f : Function) :
    Kept floor J S c { m with heap := (m.heap.newFunction f).2 } where
  apart := kept.apart.of_sub id (by simp [Heap.newFunction])
  grown := kept.grown
  exports t name exports := kept.exports t name (exports.of_newFunction kept.apart)
  shared := kept.shared

theorem markShared (kept : Kept floor J S c m) {frame : Frame} {name : String} {r : FunctionRef}
    (bound : frame.function? m.heap name = some r) (named : J frame.table name) :
    Kept floor J S c { m with heap := m.heap.markShared r } where
  apart := kept.apart.of_sub id (by simp [Heap.markShared])
  grown := kept.grown
  exports t name exports := by
    rcases exports.of_markShared kept.apart bound with ⟨rfl, rfl⟩ | before
    · exact named
    · exact kept.exports t name before
  shared := kept.shared

theorem newTable (kept : Kept floor J S c m) :
    Kept floor J S c { m with heap := m.heap.newTable.2 } where
  apart := kept.apart.newTable
  grown := Nat.le_trans kept.grown (by simp [Heap.newTable])
  exports t name := by
    rintro ⟨r, bound, shared⟩
    rw [Heap.table_newTable] at bound
    exact kept.exports t name ⟨r, bound, shared⟩
  shared := kept.shared

end Kept

theorem shareWatch_law (floor : Nat) (J : TableRef → String → Prop)
    (S : Context → String → Prop) : (shareWatch floor J S).Law where
  same := by
    intro c m n kept same
    have table (t : TableRef) : n.heap.table t = m.heap.table t := by
      unfold Heap.table
      rw [same.tables]
    have function (r : FunctionRef) : n.heap.function r = m.heap.function r := by
      unfold Heap.function
      rw [same.functions]
    refine ⟨kept.apart.of_sub (fun bound => table _ ▸ bound) (by rw [same.functions]), ?_, ?_, ?_⟩
    · rw [same.tables]
      exact kept.grown
    · rintro t name ⟨r, bound, shared⟩
      exact kept.exports t name ⟨r, table t ▸ bound, function r ▸ shared⟩
    · rw [same.shared]
      exact kept.shared
  newTable kept := kept.newTable
  members kept _ _ := kept.newFunction _
  copies r frame kept := kept.newFunction _
  declares t _ kept := kept.bindNew fun shared => nomatch shared
  marks noted member bound kept := kept.markShared bound (noted.1 _ member).1
  lists := by
    intro host names span s m name noted member kept
    refine ⟨kept.apart, kept.grown, kept.exports, fun other contains => ?_⟩
    by_cases same : other = name
    · exact same ▸ (noted.1 name member).2
    · unfold Bindings.contains at contains
      rw [Bindings.get?_insert_of_ne _ same] at contains
      exact kept.shared other contains
  hands := by
    intro host file items span s m n held noted ran kept
    have fresh : floor ≤ m.frame.table.index :=
      Nat.le_trans held.within.grown (table_fresh held.host ran)
    refine (hand_exports kept.apart (fun a e selected exported kept' => ?_) kept).2
    exact kept'.bindNew fun _ => noted.2 file items span m n rfl ran fresh e.1 selected exported
      (kept.exports _ _ exported)
  enter kept := ⟨kept.apart, kept.grown, kept.exports, fun name contains => nomatch contains⟩
  leave kept kept' := ⟨kept'.apart, kept'.grown, kept'.exports, kept.shared⟩
  bodies _ _ _ _ _ := trivial
  modules _ _ := trivial
  texts _ _ _ _ _ _ := trivial

/-! Modules. -/

/-- What the module in a file executes when it is run. -/
def Host.moduleLog (h : Host) (file : String) (m : Machine) : List Moment :=
  h.ofFileLog (runLog h.steps) file m

/-- The statement shares the name in the module, or takes it over. -/
def Moment.Gives (k : Moment) (m : Module) (name : String) : Prop :=
  k.state.frame.table = m.frame.table ∧ (k.Shares name ∨ k.TakesOver name)

section Modules

variable {host : Host} {access : Access} {file : String} {span : Span} {a n : Machine} {m : Module}
  {name : String} (made : host = .of host.steps host.context) (apart : a.heap.Apart)
  (ran : Module.ofFile host access file span a = .ok m n)

include made apart ran

theorem ofFile_kept {J : TableRef → String → Prop} {S : Context → String → Prop}
    (older : ∀ t name, t.index < a.heap.tables.size → J t name)
    (own : ∀ name, S host.context name)
    (noted : ∀ k ∈ host.moduleLog file a, (shareWatch a.heap.tables.size J S).noted k) :
    ∃ p, host.context.files.resolve (host.context.locate file) = some p ∧
      Kept a.heap.tables.size J S (host.context.module p) { n with shared := m.shared } := by
  have law := shareWatch_law a.heap.tables.size J S
  have bodies : (shareWatch a.heap.tables.size J S).HostKeeps host (runLog host.steps) :=
    made ▸ law.hosts host.steps
  have start : Kept a.heap.tables.size J S host.context a :=
    ⟨apart, Nat.le_refl _, fun t name exports => older t name exports.there,
      fun name _ => own name⟩
  exact law.ofFile_ended bodies trivial ran start noted

theorem ofFile_apart : n.heap.Apart := by
  obtain ⟨p, -, kept⟩ := ofFile_kept (J := fun _ _ => True) (S := fun _ _ => True) made apart ran
    (fun _ _ _ => trivial) (fun _ => trivial) fun k _ => noted_all _ k
  exact kept.apart

/-- What is noted of each statement that shares or takes over holds of whatever a module exports. -/
theorem exports_noted {P : TableRef → String → Prop}
    (noted : ∀ k ∈ host.moduleLog file a,
      (shareWatch a.heap.tables.size (fun t x => t.index < a.heap.tables.size ∨ P t x)
        fun _ _ => True).noted k)
    (exports : n.heap.Exports m.frame.table name) : P m.frame.table name := by
  obtain ⟨p, -, kept⟩ := ofFile_kept made apart ran (fun _ _ => .inl) (fun _ => trivial) noted
  exact (kept.exports _ _ exports).resolve_left (Nat.not_lt.2 (table_fresh made ran))

/-- A module exports a function under a name only if it shares the name, or takes it over. -/
theorem exports_given (exports : n.heap.Exports m.frame.table name) :
    ∃ k ∈ host.moduleLog file a, k.Gives m name := by
  let P (t : TableRef) (name : String) : Prop :=
    ∃ k ∈ host.moduleLog file a, k.state.frame.table = t ∧ (k.Shares name ∨ k.TakesOver name)
  apply exports_noted (P := P) made apart ran ?_ exports
  intro k member
  constructor
  · exact fun name shares => ⟨.inr ⟨k, member, rfl, .inl shares⟩, trivial⟩
  · intro file items span m n is ran fresh name selected exported named
    exact .inr ⟨k, member, rfl, .inr ⟨file, items, span, m, n, is, selected, ran, exported⟩⟩

/-- Whatever a module exports was shared in its run, be it in a module that it runs itself. -/
theorem exports_shared (exports : n.heap.Exports m.frame.table name) :
    ∃ k ∈ host.moduleLog file a, k.Shares name := by
  let P (_ : TableRef) (name : String) : Prop := ∃ k ∈ host.moduleLog file a, k.Shares name
  apply exports_noted (P := P) made apart ran ?_ exports
  intro k member
  constructor
  · exact fun name shares => ⟨.inr ⟨k, member, shares⟩, trivial⟩
  · intro file items span m n is ran fresh name selected exported named
    exact .inr (named.resolve_left (Nat.not_lt.2 fresh))

/-- A module shares a variable only by a statement that it executes itself. -/
theorem shared_variable (shared : m.shared.contains name) :
    ∃ p, host.context.files.resolve (host.context.locate file) = some p ∧
      ∃ k ∈ host.moduleLog file a, k.host.context = host.context.module p ∧ k.Shares name := by
  let S (c : Context) (name : String) : Prop :=
    c = host.context ∨ ∃ k ∈ host.moduleLog file a, k.host.context = c ∧ k.Shares name
  have noted : ∀ k ∈ host.moduleLog file a,
      (shareWatch a.heap.tables.size (fun _ _ => True) S).noted k := by
    intro k member
    constructor
    · exact fun name shares => ⟨trivial, .inr ⟨k, member, rfl, shares⟩⟩
    · exact fun _ _ _ _ _ _ _ _ _ _ _ _ => trivial
  obtain ⟨p, found, kept⟩ :=
    ofFile_kept made apart ran (fun _ _ _ => trivial) (fun _ => .inl rfl) noted
  refine ⟨p, found, (kept.shared name shared).resolve_left fun same => ?_⟩
  have longer := congrArg (fun c => c.chain.length) same
  simp [Context.module] at longer

end Modules

/-! Statements that run a module. -/

/-- An import binds a function only under a name that it selects and that the module exports. -/
theorem import_binds {host : Host} {file : String} {items : Selection} {span : Span} {s : State}
    {m : Module} {n : Machine} {name : String}
    (ran : Module.ofFile host .importing file span s.machine = .ok m n) (apart : n.heap.Apart)
    (changed : (endState (host.execute (.imports file items span) s)).frame.function?
      (endState (host.execute (.imports file items span) s)).machine.heap name ≠
        s.frame.function? n.heap name) :
    items.Selects name ∧ n.heap.Exports m.frame.table name := by
  have ended : endState (host.execute (.imports file items span) s) =
      endState (m.hand file items span ⟨s.frame, n⟩) := by
    unfold Host.execute
    rw [importFile_eq]
    simp only [bind, EStateM.bind, Exec.eval, ran]
    cases m.hand file items span ⟨s.frame, n⟩ <;> rfl
  rw [ended] at changed
  by_contra neither
  apply changed
  let P (a : Machine) : Prop := s.frame.function? a.heap name = s.frame.function? n.heap name
  have passes (a : Machine) (e : String × FunctionRef) (selected : items.Selects e.1)
      (exported : n.heap.Exports m.frame.table e.1) (before : P a) :
      P { a with heap := m.pass s.frame.table a.heap e } := by
    have ne : name ≠ e.1 := fun here => neither (here ▸ ⟨selected, exported⟩)
    exact (Heap.get?_define_of_ne ne _).trans before
  have start : P n := rfl
  obtain ⟨table, same⟩ := hand_exports apart passes start
  unfold Frame.function?
  rw [table]
  exact same

/-! Loaded objects. -/

/-- What a load puts under a key is exported, or is a shared variable. -/
theorem load_holds {host : Host} {file name' key : String} {span : Span} {s : State} {m : Module}
    {n : Machine} {q : ObjectRef} {v : Value}
    (ran : Module.ofFile host .loading file span s.machine = .ok m n)
    (bound : (endState (host.execute (.load file name' span) s)).frame.get? name' =
      some (.object q))
    (holds : ((endState (host.execute (.load file name' span) s)).machine.heap.object q).get?
      key = some v) :
    ∃ name, Agree name key ∧ (n.heap.Exports m.frame.table name ∨ m.shared.contains name) := by
  rw [load_eq ran] at bound holds
  have here : q = ⟨n.heap.objects.size⟩ := by
    have own : some (Value.object ⟨n.heap.objects.size⟩) = some (.object q) :=
      (Bindings.get?_insert_self s.frame.vars name' _).symm.trans bound
    cases own
    rfl
  have found : ((m.loaded name' s.frame n).machine.heap.object q).get? key = some v := holds
  rw [here, m.object_loaded, Object.get?_empty_setAll] at found
  obtain ⟨e, member, agree, -⟩ := Object.latest_some found
  rcases List.mem_append.1 member with variable' | function
  · exact ⟨e.1, agree, .inr (Module.mem_sharedVars.1 variable').1⟩
  · obtain ⟨r, offered⟩ := Module.exists_of_mem_copyEntries function
    exact ⟨e.1, agree, .inl (Module.exports_of_mem offered)⟩

/-! Sessions. -/

/-- Names lead to functions of their own all through a text that is run where they do. -/
theorem Way.apart (w : Way) (c : Context) (text : String) {s : State}
    (apart : s.machine.heap.Apart) :
    (endState (w.run c text s)).machine.heap.Apart ∧
      ∀ k ∈ w.log c text s, k.state.machine.heap.Apart ∧
        k.host = .of k.host.steps k.host.context := by
  have law := shareWatch_law 0 (fun _ _ => True) fun _ _ => True
  have start : Kept 0 (fun _ _ => True) (fun _ _ => True) c s.machine :=
    ⟨apart, Nat.zero_le _, fun _ _ _ => trivial, fun _ _ => trivial⟩
  obtain ⟨ended, held⟩ :=
    law.way w trivial (fun _ _ _ _ => trivial) s start fun k _ => noted_all 0 k
  exact ⟨ended.apart, fun k member => ⟨(held k member).within.apart, (held k member).host⟩⟩

theorem Performed.apart {runs : List (Context × String)} {s : State}
    (performed : Performed runs s) : s.machine.heap.Apart := by
  induction performed with
  | start => exact Heap.Apart.empty.newTable
  | @run runs s earlier w c text ih =>
    have quiet : (Session.quiet s).machine.heap.Apart := ih
    exact (w.apart c text quiet).1

/-- In every session, an import binds a function, and a load puts a value in its object, only under
a name that the module shared when it ran, or that it took over from a module that exports a
function under it. In any case the name was shared somewhere in the run of the module. -/
theorem handed_on_given {runs : List (Context × String)} {s : State} {w : Way} {c : Context}
    {text file : String} {k : Moment} {span : Span} {m : Module} {n : Machine}
    (performed : Performed runs s) (executed : k ∈ w.log c text (Session.quiet s)) :
    (∀ items name, k.statement = .imports file items span →
      Module.ofFile k.host .importing file span k.state.machine = .ok m n →
      (endState (k.host.execute k.statement k.state)).frame.function?
          (endState (k.host.execute k.statement k.state)).machine.heap name ≠
        k.state.frame.function? n.heap name →
      items.Selects name ∧ (∃ k' ∈ k.host.moduleLog file k.state.machine, k'.Gives m name) ∧
        ∃ k' ∈ k.host.moduleLog file k.state.machine, k'.Shares name) ∧
    ∀ name' key q v, k.statement = .load file name' span →
      Module.ofFile k.host .loading file span k.state.machine = .ok m n →
      (endState (k.host.execute k.statement k.state)).frame.get? name' = some (.object q) →
      ((endState (k.host.execute k.statement k.state)).machine.heap.object q).get? key = some v →
      ∃ name, Agree name key ∧
        ((∃ k' ∈ k.host.moduleLog file k.state.machine, k'.Gives m name) ∨
          ∃ p, k.host.context.files.resolve (k.host.context.locate file) = some p ∧
            ∃ k' ∈ k.host.moduleLog file k.state.machine,
              k'.host.context = k.host.context.module p ∧ k'.Shares name) ∧
        ∃ k' ∈ k.host.moduleLog file k.state.machine, k'.Shares name := by
  have quiet : (Session.quiet s).machine.heap.Apart := performed.apart
  obtain ⟨apart, made⟩ := (w.apart c text quiet).2 k executed
  refine ⟨fun items name is ran changed => ?_, fun name' key q v is ran bound holds => ?_⟩
  · rw [is] at changed
    obtain ⟨selected, exports⟩ := import_binds ran (ofFile_apart made apart ran) changed
    exact ⟨selected, exports_given made apart ran exports, exports_shared made apart ran exports⟩
  · rw [is] at bound holds
    obtain ⟨name, agree, exports | shared⟩ := load_holds ran bound holds
    · exact ⟨name, agree, .inl (exports_given made apart ran exports),
        exports_shared made apart ran exports⟩
    · obtain ⟨p, found, k', member, own, shares⟩ := shared_variable made apart ran shared
      exact ⟨name, agree, .inr ⟨p, found, k', member, own, shares⟩, k', member, shares⟩

/-- What a script takes over from a module it exports itself. -/
theorem taken_over_exported {name : String} {m : Module} {n : Machine} {s t : State}
    (imports : Imports name m n s t) (running : Running s)
    (exports : n.heap.Exports m.frame.table name) : t.machine.heap.Exports t.frame.table name := by
  obtain ⟨r, bound, shared⟩ := exports
  have offers := imports.offers running (Option.filter_eq_some_iff.2 ⟨bound, shared⟩)
  obtain ⟨q, bound', found⟩ := imports.binds offers
  exact ⟨q, bound', Heap.function_of_getElem? found ▸ shared⟩

/-! A function that a module hands on without sharing it. -/

def relayLog : List Moment :=
  Way.step.log (.inMemory relayFiles .working) "from \"a.es\" use {h}" (Session.quiet State.start)

/-- The statement binds `h`, and in the module neither its context nor its scope shares the name. -/
def RelaysUnshared (k : Moment) (m : Module) (n : Machine) : Prop :=
  let ended := endState (k.host.execute k.statement k.state)
  ended.frame.function? ended.machine.heap "h" ≠ k.state.frame.function? n.heap "h" ∧
    ∀ k' ∈ k.host.moduleLog "a.es" k.state.machine, k'.Shares "h" →
      k'.host.context.script ≠ some ["a.es"] ∧ k'.state.frame.table ≠ m.frame.table

instance (k : Moment) (m : Module) (n : Machine) : Decidable (RelaysUnshared k m n) :=
  inferInstanceAs (Decidable (_ ∧ _))

def relaysUnshared (k : Moment) : Bool :=
  match k.statement with
  | .imports file _ span =>
    match Module.ofFile k.host .importing file span k.state.machine with
    | .ok m n => decide (file = "a.es" ∧ RelaysUnshared k m n)
    | .error _ _ => false
  | _ => false

theorem relay_executed :
    ∃ k ∈ relayLog, ∃ items span m n, k.statement = .imports "a.es" items span ∧
      Module.ofFile k.host .importing "a.es" span k.state.machine = .ok m n ∧
        RelaysUnshared k m n := by
  have found : relayLog.any relaysUnshared = true := by decide +kernel
  obtain ⟨k, executed, seen⟩ := List.any_eq_true.1 found
  unfold relaysUnshared at seen
  split at seen
  · rename_i file items span is
    split at seen
    · rename_i m n ran
      obtain ⟨rfl, unshared⟩ := of_decide_eq_true seen
      exact ⟨k, executed, items, span, m, n, is, ran, unshared⟩
    · cases seen
  · cases seen

theorem relay_given :
    ∃ k ∈ relayLog, ∃ items span m n, k.statement = .imports "a.es" items span ∧
      Module.ofFile k.host .importing "a.es" span k.state.machine = .ok m n ∧
      items.Selects "h" ∧ (∃ k' ∈ k.host.moduleLog "a.es" k.state.machine, k'.Gives m "h") ∧
        ∃ k' ∈ k.host.moduleLog "a.es" k.state.machine, k'.Shares "h" := by
  obtain ⟨k, executed, items, span, m, n, is, ran, changed, -⟩ := relay_executed
  obtain ⟨imported, -⟩ := handed_on_given .start executed
  exact ⟨k, executed, items, span, m, n, is, ran, imported items "h" is ran changed⟩

/-- The module hands on a function although no statement of its own shares it. -/
theorem relay_hands_on_unshared :
    ∃ k ∈ relayLog, ∃ items span m n, k.statement = .imports "a.es" items span ∧
      Module.ofFile k.host .importing "a.es" span k.state.machine = .ok m n ∧
      (endState (k.host.execute k.statement k.state)).frame.function?
          (endState (k.host.execute k.statement k.state)).machine.heap "h" ≠
        k.state.frame.function? n.heap "h" ∧
      ∀ k' ∈ k.host.moduleLog "a.es" k.state.machine, k'.Shares "h" →
        k'.host.context.script ≠ some ["a.es"] ∧ k'.state.frame.table ≠ m.frame.table := by
  obtain ⟨k, executed, items, span, m, n, is, ran, changed, unshared⟩ := relay_executed
  exact ⟨k, executed, items, span, m, n, is, ran, changed, unshared⟩

end Script
