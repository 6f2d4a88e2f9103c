import Script.Proofs.Isolation

/-! What loads expose. A module keeps its variables and its functions apart and tells upper from lower
case in both, while a load puts all that it shares into one object whose keys do not. Every item gets
an entry of its own as long as no two of them agree as keys. Of those that agree the last is exposed,
in the order of the names, and functions come after variables. -/

namespace Script

open Object

variable {m : Module} {h k : Heap} {a n : Machine}

/-! What the items are. -/

/-- Variables and functions in the order of their names: the variables that the module shares and
still binds, and copies in the frame of the module of the functions that it shares. -/
structure Module.Items (m : Module) (h k : Heap) (vars fs : List (String × Value)) : Prop where
  bound : ∀ name v, (name, v) ∈ vars ↔
    m.shared.contains name = true ∧ m.frame.get? name = some v
  copied : ∀ name r, m.function? h name = some r →
    ∃ q : FunctionRef, (name, .function q) ∈ fs ∧
      k.functions[q.index]? = some { h.function r with scope := some m.frame }
  functions : ∀ e ∈ fs, ∃ r, m.function? h e.1 = some r
  sorted : vars.Pairwise fun a b => a.1 < b.1
  sorted' : fs.Pairwise fun a b => a.1 < b.1

/-- The object holds the items, one entry for those that agree as keys. The last of them counts. -/
structure Heap.Exposes (k : Heap) (q : ObjectRef) (items : List (String × Value)) : Prop where
  ordered : (k.object q).Ordered
  held : ∀ key, (k.object q).get? key = latest key items
  contains : ∀ key, (k.object q).contains key = true ↔ ∃ e ∈ items, Agree e.1 key
  alone : ∀ e ∈ items, (∀ e' ∈ items, Agree e'.1 e.1 → e' = e) →
    (k.object q).get? e.1 = some e.2
  entries : (items.Pairwise fun a b => ¬ Agree a.1 b.1) →
    (k.object q).entries = items.map fun e => (bareKey e.1, e.2)

theorem exposes_setAll {q : ObjectRef} {items : List (String × Value)}
    (made : k.object q = Object.empty.setAll items) : k.Exposes q items := by
  have held (key : String) : (k.object q).get? key = latest key items := by
    rw [made, get?_empty_setAll]
  constructor
  · rw [made]
    exact Ordered.empty.setAll items
  · exact held
  · intro key
    rw [contains_eq_isSome, held, ← Option.ne_none_iff_isSome, Ne, latest_eq_none_iff]
    simp
  · intro e member only
    rw [held]
    exact latest_of_mem member (.refl e.1) only
  · intro apart
    have new : ∀ e ∈ items, ¬ (Object.empty : Object Value).contains e.1 = true :=
      fun _ _ => Bool.false_ne_true
    rw [made, setAll_new new apart]
    rfl

namespace Module

theorem sorted_sharedVars (m : Module) : m.sharedVars.Pairwise fun a b => a.1 < b.1 := by
  unfold sharedVars
  rw [List.pairwise_filterMap]
  apply m.shared.sorted.imp
  intro e e' below a found a' found'
  obtain ⟨v, -, rfl⟩ := Option.map_eq_some_iff.1 found
  obtain ⟨v', -, rfl⟩ := Option.map_eq_some_iff.1 found'
  exact below

theorem function_withCopies {fs : List (String × FunctionRef)} {i : Nat}
    {f : String × FunctionRef} (found : fs[i]? = some f) :
    (m.withCopies h fs).functions[h.functions.size + i]? =
      some { h.function f.2 with scope := some m.frame } := by
  unfold withCopies copies
  dsimp only
  rw [Array.getElem?_append_right (Nat.le_add_right _ _), Nat.add_sub_cancel_left]
  simp [found]

/-- The items are what the module shares. -/
theorem items_of_functions (same : k.functions = (m.withCopies h (m.functions h)).functions) :
    m.Items h k m.sharedVars (copyEntries h.functions.size (m.functions h)) where
  bound _ _ := mem_sharedVars
  copied name r offered := by
    obtain ⟨i, found⟩ := List.mem_iff_getElem?.1 (mem_functions.2 offered)
    have entry : (copyEntries h.functions.size (m.functions h))[i]? =
        some (name, .function ⟨h.functions.size + i⟩) := by
      rw [copyEntries, List.getElem?_mapIdx, found]
      rfl
    exact ⟨⟨h.functions.size + i⟩, List.mem_of_getElem? entry, same ▸ function_withCopies found⟩
  functions e member := by
    obtain ⟨r, offered⟩ := exists_of_mem_copyEntries member
    exact ⟨r, mem_functions.1 offered⟩
  sorted := m.sorted_sharedVars
  sorted' := by
    have names : ((copyEntries h.functions.size (m.functions h)).map Prod.fst).Pairwise (· < ·) := by
      rw [names_copyEntries]
      exact List.pairwise_map.2 ((h.table m.frame.table).sorted.filter _)
    exact List.pairwise_map.1 names

end Module

/-! Reading an item. -/

/-- A key of an object that a variable holds. -/
theorem evaluate_property {host : Host} {frame : Frame} {name key : String} {place place' : Span}
    {q : ObjectRef} (held : frame.get? name = some (.object q)) :
    host.evaluate frame (.property (.name name place) key place') a =
      match (a.heap.object q).get? key with
      | some v => .ok v a
      | none => .error (.fault ⟨.running (.missingKey key), place'⟩) a := by
  have read (a : Machine) : Eval.heap a = .ok a.heap a := rfl
  simp only [Host.evaluate, Frame.lookup, Eval.orFail, Value.property, bind, EStateM.bind, read, held,
    Option.some_or]
  cases found : (a.heap.object q).get? key with
  | some v => simp only [pure, EStateM.pure, EStateM.bind, read, found]
  | none =>
    simp only [pure, EStateM.pure, EStateM.bind, read, found]
    rfl

/-! What is shared stays shared. -/

/-- A script lists the name. The modules that it runs have lists of their own. -/
def listWatch (c : Context) (name : String) : Watch where
  known _ := True
  may _ _ := True
  noted _ := True
  within c' m := c.chain.length ≤ c'.chain.length ∧
    (c'.chain.length = c.chain.length → m.shared.contains name = true)

theorem listWatch_law (c : Context) (name : String) : (listWatch c name).Law where
  same within same' := ⟨within.1, fun here => same'.shared ▸ within.2 here⟩
  newTable within := within
  members within _ _ := within
  copies _ _ within := within
  declares _ _ within := within
  marks _ _ _ within := within
  lists := by
    intro host names span s m other noted member within
    constructor
    · exact within.1
    · intro here
      by_cases same : name = other
      · subst same
        exact Option.isSome_of_eq_some (Bindings.get?_insert_self _ name ())
      · unfold Bindings.contains
        rw [Bindings.get?_insert_of_ne _ same]
        exact within.2 here
  hands := by
    intro host file items span s m n held noted ran within
    let P (b : Machine) : Prop := (listWatch c name).within host.context b
    have start : P n := within
    exact (hand_keeps (fun b e _ _ before => before) start).2
  enter := by
    intro c' p m within
    have longer : (c'.module p).chain.length = c'.chain.length + 1 := by simp [Context.module]
    have least := within.1
    constructor
    · omega
    · intro here
      omega
  leave within _ := within
  bodies _ _ _ _ _ := trivial
  modules _ _ := trivial
  texts _ _ _ _ _ _ := trivial

section Statements

variable {run : Block → Exec Flow} {pre post : Block} {x : Stmt} {s t v : State}

theorem topLevel_cons (ran : run [x] s = .ok .done v) :
    topLevel run (x :: post) s = topLevel run post v := by
  simp only [topLevel, bind, EStateM.bind, ran]

theorem topLevel_cons_ok (ran : topLevel run (x :: post) s = .ok () t) :
    ∃ v, run [x] s = .ok .done v ∧ topLevel run post v = .ok () t := by
  simp only [topLevel, bind, EStateM.bind] at ran
  cases first : run [x] s with
  | error e v =>
    rw [first] at ran
    cases ran
  | ok flow v =>
    rw [first] at ran
    cases flow with
    | done => exact ⟨v, rfl, ran⟩
    | left => cases ran
    | gave w => cases ran

/-- The states before and after a statement of a program that runs through. -/
theorem topLevel_split (ran : topLevel run (pre ++ x :: post) s = .ok () t) :
    ∃ u v, topLevel run pre s = .ok () u ∧ run [x] u = .ok .done v ∧
      topLevel run post v = .ok () t := by
  induction pre generalizing s with
  | nil =>
    obtain ⟨v, here, rest⟩ := topLevel_cons_ok ran
    exact ⟨s, v, rfl, here, rest⟩
  | cons y pre ih =>
    obtain ⟨w, first, later⟩ := topLevel_cons_ok ran
    obtain ⟨u, v, before, here, rest⟩ := ih later
    exact ⟨u, v, (topLevel_cons first).trans before, here, rest⟩

theorem run_share {limit : Nat} {c : Context} {names : List String} {place : Span} {flow : Flow}
    (ran : Script.run limit c [.share names place] s = .ok flow t) : s.Shares names t := by
  cases limit with
  | zero => cases ran
  | succ n =>
    simp only [Script.run, Host.executeBlock, Host.execute, bind, EStateM.bind, Exec.eval] at ran
    cases shared : s.frame.share place names s.machine with
    | error e b =>
      rw [shared] at ran
      cases ran
    | ok u b =>
      rw [shared] at ran
      cases ran
      exact share_shares shared

/-- A function that is marked stays marked. -/
theorem topLevel_marked {limit : Nat} {c : Context} {r : FunctionRef} {f : Function}
    (ran : topLevel (Script.run limit c) post s = .ok () t)
    (there : s.machine.heap.functions[r.index]? = some f) (shared : f.shared = true) :
    ∃ g, t.machine.heap.functions[r.index]? = some g ∧ g.shared = true := by
  have grows := (grows_law.topLevel (grows_law.run limit c) post s).2
  rw [ran] at grows
  obtain ⟨g, there', becomes⟩ := grows.functions r.index f there
  exact ⟨g, there', becomes.shared shared⟩

/-- A name that is listed stays listed. -/
theorem topLevel_listed {limit : Nat} {c : Context} {name : String}
    (ran : topLevel (Script.run limit c) post s = .ok () t)
    (listed : s.machine.shared.contains name = true) : t.machine.shared.contains name = true := by
  have law := listWatch_law c name
  have keeps : (listWatch c name).ExecKeeps c (topLevel (Script.run limit c) post)
      (.topLevel (Script.run limit c) (runLog limit c) post) :=
    Watch.Law.topLevel fun x _ => law.run limit trivial fun _ _ => trivial
  have ended := (keeps s ⟨Nat.le_refl _, fun _ => listed⟩ fun _ _ => trivial).1
  rw [ran] at ended
  exact ended.2 rfl

end Statements

/-- Whatever a share statement of the module's text names stays shared as long as the module runs: the
function that has the name then is marked, and where there is none the name is listed. -/
def Module.SharesLast (m : Module) (n : Machine) (limit : Nat) (c : Context) (file : String)
    (a : Machine) : Prop :=
  ∀ p text b pre names place post, c.files.resolve (c.locate file) = some p →
    c.files.read p = .ok text → parse text = .ok b →
    b.filter Stmt.isImport ++ b.filter (!·.isImport) = pre ++ .share names place :: post →
    ∃ u, topLevel (Script.run limit (c.module p)) pre
        ⟨(Frame.new a.heap).1, (Frame.new a.heap).2, a.output, .empty⟩ = .ok () u ∧
      ∀ name ∈ names,
        (∀ r f, u.frame.function? u.machine.heap name = some r →
          u.machine.heap.functions[r.index]? = some f → (n.heap.function r).shared = true) ∧
        (u.frame.function? u.machine.heap name = none → m.shared.contains name = true)

theorem ofFile_sharesLast {limit : Nat} {c : Context} {access : Access} {file : String} {span : Span}
    (ran : Module.ofFile (.of limit c) access file span a = .ok m n) :
    m.SharesLast n limit c file a := by
  intro p text b pre names place post found read parsed order
  have whole : topLevel (run limit (c.module p)) (pre ++ .share names place :: post)
      ⟨(Frame.new a.heap).1, (Frame.new a.heap).2, a.output, .empty⟩ =
        .ok () ⟨m.frame, { n with shared := m.shared }⟩ := by
    rcases Watch.Law.ofFile_cases (.of limit c) (fun _ _ => .silent) access file span with
      ⟨fault, faults, -⟩ | ⟨p', text', found', -, read', runs, -⟩
    · rw [faults] at ran
      cases ran
    · cases found.symm.trans found'
      cases read.symm.trans read'
      rw [runs] at ran
      have through := Watch.Law.ran_through ran
      unfold runSource runProgram at through
      rw [parsed] at through
      dsimp only at through
      rw [order] at through
      exact through
  obtain ⟨u, v, before, here, rest⟩ := topLevel_split whole
  have shares := run_share here
  have lasts (name : String) (member : name ∈ names) :
      (∀ r f, u.frame.function? u.machine.heap name = some r →
        u.machine.heap.functions[r.index]? = some f → (n.heap.function r).shared = true) ∧
      (u.frame.function? u.machine.heap name = none → m.shared.contains name = true) := by
    constructor
    · intro r f bound there
      obtain ⟨g, there', -, -, marked⟩ := shares.marks r f there
      have shared : g.shared = true := marked.2 (.inr ⟨name, member, bound⟩)
      obtain ⟨g', there'', shared'⟩ := topLevel_marked rest there' shared
      rw [Heap.function_of_getElem? there'']
      exact shared'
    · intro absent
      exact topLevel_listed rest ((shares.listed name).2 (.inr ⟨member, absent⟩))
  exact ⟨u, before, lasts⟩

/-- A load binds the name to an object that exposes what the module shares, as far as no two of the
names agree as keys: of those that do, the last is exposed. A key of the object is read by what it
holds, and what it does not hold cannot be read. -/
theorem load_exposes {limit : Nat} {c : Context} {file name : String} {span : Span} {s : State}
    (ran : Module.ofFile (.of limit c) .loading file span s.machine = .ok m n) :
    m.SharesLast n limit c file s.machine ∧
      ∃ t q vars fs, (Host.of limit c).execute (.load file name span) s = .ok .done t ∧
        t.frame = s.frame.assign name (.object q) ∧
        m.Items n.heap t.machine.heap vars fs ∧ t.machine.heap.Exposes q (vars ++ fs) ∧
        ∀ (host : Host) (key : String) (place place' : Span),
          host.evaluate t.frame (.property (.name name place) key place') t.machine =
            match latest key (vars ++ fs) with
            | some v => .ok v t.machine
            | none => .error (.fault ⟨.running (.missingKey key), place'⟩) t.machine := by
  let t := m.loaded name s.frame n
  let q : ObjectRef := ⟨n.heap.objects.size⟩
  have exposes : t.machine.heap.Exposes q (m.items n.heap) :=
    exposes_setAll (m.object_loaded name s.frame n)
  have held : t.frame.get? name = some (.object q) := Bindings.get?_insert_self _ name _
  have reads (host : Host) (key : String) (place place' : Span) :
      host.evaluate t.frame (.property (.name name place) key place') t.machine =
        match latest key (m.items n.heap) with
        | some v => .ok v t.machine
        | none => .error (.fault ⟨.running (.missingKey key), place'⟩) t.machine := by
    rw [evaluate_property held, exposes.held]
  exact ⟨ofFile_sharesLast ran, t, q, _, _, load_eq ran, rfl, Module.items_of_functions rfl, exposes,
    reads⟩

/-! Two modules that share what they have. -/

/-- The module runs through, and `view` holds of it and of the machine that it leaves. -/
def ranWith (view : Module → Machine → Bool) : EStateM.Result Halt Machine Module → Bool
  | .ok m n => view m n
  | .error .. => false

theorem exists_of_ranWith {view : Module → Machine → Bool} {r : EStateM.Result Halt Machine Module}
    (holds : ranWith view r = true) : ∃ m n, r = .ok m n ∧ view m n = true := by
  cases r with
  | ok m n => exact ⟨m, n, rfl, holds⟩
  | error e n => cases holds

/-- A module that keeps one of its variables to itself. -/
def chestFiles : Files where
  home := []
  nodes := [(["m.es"], .text "a = 1 b = 2 f go() return 3 endf share(go, a)")]

def chestRun : EStateM.Result Halt Machine Module :=
  Module.ofFile (.of 9 (.inMemory chestFiles .working)) .loading "m.es" default State.start.machine

theorem chest_exposed :
    ∃ m n t q vars fs, chestRun = .ok m n ∧
      (Host.of 9 (.inMemory chestFiles .working)).execute (.load "m.es" "chest" default)
        State.start = .ok .done t ∧
      m.Items n.heap t.machine.heap vars fs ∧ t.machine.heap.Exposes q (vars ++ fs) ∧
      ("a", .int 1) ∈ vars ∧ m.function? n.heap "go" = some ⟨0⟩ ∧ m.shared.contains "b" = false := by
  have seen : ranWith (fun m n => decide ((m.shared.contains "a" = true ∧
      m.frame.get? "a" = some (.int 1)) ∧ m.function? n.heap "go" = some ⟨0⟩ ∧
        m.shared.contains "b" = false)) chestRun = true := by decide +kernel
  obtain ⟨m, n, ran, view⟩ := exists_of_ranWith seen
  obtain ⟨variable', rest⟩ := of_decide_eq_true view
  obtain ⟨-, t, q, vars, fs, loaded, -, items, exposes, -⟩ :=
    load_exposes (s := State.start) ran
  exact ⟨m, n, t, q, vars, fs, ran, loaded, items, exposes, (items.bound "a" _).2 variable', rest⟩

/-- A module with two variables that differ in case only. -/
def likeFiles : Files where
  home := []
  nodes := [(["m.es"], .text "a = 1 A = 2 share(a, A)")]

def likeRun : EStateM.Result Halt Machine Module :=
  Module.ofFile (.of 9 (.inMemory likeFiles .working)) .loading "m.es" default State.start.machine

/-- Both are shared, and the one is read under the name of the other. -/
theorem like_overlaps :
    ∃ m n t, likeRun = .ok m n ∧ m.shared.contains "A" = true ∧
      m.frame.get? "A" = some (.int 2) ∧
      (Host.of 9 (.inMemory likeFiles .working)).execute (.load "m.es" "m" default) State.start =
        .ok .done t ∧
      ∀ host : Host, host.evaluate t.frame (.property (.name "m" default) "A" default) t.machine =
        .ok (.int 1) t.machine := by
  have seen : ranWith (fun m n => decide (m.shared.contains "A" = true ∧
      m.frame.get? "A" = some (.int 2) ∧
      ((m.loaded "m" State.start.frame n).machine.heap.object ⟨n.heap.objects.size⟩).get? "A" =
        some (.int 1))) likeRun = true := by decide +kernel
  obtain ⟨m, n, ran, view⟩ := exists_of_ranWith seen
  obtain ⟨listed, bound, mixed⟩ := of_decide_eq_true view
  have held : (m.loaded "m" State.start.frame n).frame.get? "m" =
      some (.object ⟨n.heap.objects.size⟩) := Bindings.get?_insert_self _ "m" _
  have other (host : Host) : host.evaluate (m.loaded "m" State.start.frame n).frame
      (.property (.name "m" default) "A" default) (m.loaded "m" State.start.frame n).machine =
        .ok (.int 1) (m.loaded "m" State.start.frame n).machine := by
    rw [evaluate_property held, mixed]
  exact ⟨m, n, _, ran, listed, bound, load_eq ran, other⟩

end Script
