import Script.Proofs.Trace.Sharing

/-! What a script keeps when a statement about modules fails. A module runs in a frame of its own and
reaches nothing that was there before it ran. So a statement that fails before it hands anything on
leaves its script as it was. Names are handed on and shared one by one, however, and those that come
before the one that fails stay handed on and shared. -/

namespace Script

variable {α : Type}

/-! Heaps that are only added to. -/

/-- What stands in the first array stands in the second, at the same place. -/
def Stands (a b : Array α) : Prop :=
  ∀ (i : Nat) (x : α), a[i]? = some x → b[i]? = some x

namespace Stands

variable {a b c : Array α}

theorem refl (a : Array α) : Stands a a :=
  fun _ _ => id

theorem trans (first : Stands a b) (next : Stands b c) : Stands a c :=
  fun i x found => next i x (first i x found)

theorem push (a : Array α) (x : α) : Stands a (a.push x) := by
  intro i y found
  obtain ⟨below, -⟩ := Array.getElem?_eq_some_iff.1 found
  rw [Array.getElem?_push, if_neg (Nat.ne_of_lt below)]
  exact found

theorem of_rows {like : α → α → Prop} (rows : Rows like a a b c) : Stands a b := by
  intro i x found
  obtain ⟨below, -⟩ := Array.getElem?_eq_some_iff.1 found
  rw [(rows.older i below).1]
  exact found

end Stands

namespace Heap

/-- All that was there is there still, and nothing of it has changed. -/
structure Untouched (h k : Heap) : Prop where
  lists : Stands h.lists k.lists
  objects : Stands h.objects k.objects
  classes : Stands h.classes k.classes
  functions : Stands h.functions k.functions
  tables : Stands h.tables k.tables

variable {h k l : Heap}

theorem Untouched.refl (h : Heap) : h.Untouched h :=
  ⟨.refl _, .refl _, .refl _, .refl _, .refl _⟩

/-- What a run owns lies beyond what was there when it started. -/
theorem untouched_of_owned {k' : Heap} (heaps : (World.within h h).Heaps k k') : h.Untouched k :=
  ⟨.of_rows heaps.lists, .of_rows heaps.objects, .of_rows heaps.classes, .of_rows heaps.functions,
    .of_rows heaps.tables⟩

end Heap

/-- The script is as it was: it has its variables, it shares what it shared, and nothing that it can
reach on the heap has changed. -/
structure State.Intact (s t : State) : Prop where
  frame : t.frame = s.frame
  shared : t.machine.shared = s.machine.shared
  heap : s.machine.heap.Untouched t.machine.heap

/-! Modules. -/

section Modules

variable {limit : Nat} {c : Context} {access : Access} {file : String} {span : Span} {a : Machine}

/-- Whether a module runs through or not, what was there before stays as it was. -/
theorem ofFile_untouched :
    a.heap.Untouched (endState (Module.ofFile (.of limit c) access file span a)).heap := by
  have ended := World.ofFile_beside limit c access file span a
  cases ran : Module.ofFile (.of limit c) access file span a with
  | ok m n =>
    rw [ran] at ended
    exact Heap.untouched_of_owned ended.2.heap
  | error e n =>
    rw [ran] at ended
    exact Heap.untouched_of_owned ended.2.heap

/-- A module has shared variables of its own. -/
theorem ofFile_shared (host : Host) :
    (endState (Module.ofFile host access file span a)).shared = a.shared := by
  rcases Watch.Law.ofFile_cases host (fun _ _ => .silent) access file span with
    ⟨f, faults, -⟩ | ⟨p, text, -, -, -, ran, -⟩
  · rw [faults]
    rfl
  · rw [ran, Watch.Law.endState_run]

/-- A script is as it was when a module of it has run. -/
theorem ofFile_intact (frame : Frame) :
    State.Intact ⟨frame, a⟩ ⟨frame, endState (Module.ofFile (.of limit c) access file span a)⟩ :=
  ⟨rfl, ofFile_shared _, ofFile_untouched⟩

end Modules

/-! Names that are handed on. -/

namespace State

/-- Only what is bound under the names may have changed, as a variable or in the table of the
script. Functions keep their marks. -/
structure Rebinds (names : List String) (s t : State) : Prop where
  vars : ∀ x ∉ names, t.frame.get? x = s.frame.get? x
  table : t.frame.table = s.frame.table
  parent : t.frame.parent = s.frame.parent
  shared : t.machine.shared = s.machine.shared
  lists : Stands s.machine.heap.lists t.machine.heap.lists
  objects : Stands s.machine.heap.objects t.machine.heap.objects
  classes : Stands s.machine.heap.classes t.machine.heap.classes
  functions : Stands s.machine.heap.functions t.machine.heap.functions
  tables : ∀ (t' : TableRef) (b : Bindings FunctionRef), s.machine.heap.tables[t'.index]? = some b →
    ∃ b', t.machine.heap.tables[t'.index]? = some b' ∧
      ∀ x, (t' = s.frame.table → x ∉ names) → b'.get? x = b.get? x

namespace Rebinds

variable {s t u : State} {names more : List String}

theorem of_intact (intact : s.Intact t) : s.Rebinds [] t where
  vars _ _ := by rw [intact.frame]
  table := by rw [intact.frame]
  parent := by rw [intact.frame]
  shared := intact.shared
  lists := intact.heap.lists
  objects := intact.heap.objects
  classes := intact.heap.classes
  functions := intact.heap.functions
  tables _ b found := ⟨b, intact.heap.tables _ b found, fun _ _ => rfl⟩

theorem trans (first : s.Rebinds names t) (next : t.Rebinds more u) :
    s.Rebinds (names ++ more) u where
  vars x outside := by
    obtain ⟨outside, outside'⟩ := not_or.1 (mt List.mem_append.2 outside)
    exact (next.vars x outside').trans (first.vars x outside)
  table := next.table.trans first.table
  parent := next.parent.trans first.parent
  shared := next.shared.trans first.shared
  lists := first.lists.trans next.lists
  objects := first.objects.trans next.objects
  classes := first.classes.trans next.classes
  functions := first.functions.trans next.functions
  tables t' b found := by
    obtain ⟨b', found', same⟩ := first.tables t' b found
    obtain ⟨b'', found'', same'⟩ := next.tables t' b' found'
    have both (x : String) (outside : t' = s.frame.table → x ∉ names ++ more) :
        b''.get? x = b.get? x := by
      have before := same x fun here => mt (List.mem_append_left more) (outside here)
      have after := same' x fun here =>
        mt (List.mem_append_right names) (outside (here.trans first.table))
      exact after.trans before
    exact ⟨b'', found'', both⟩

/-- A function is handed on. -/
theorem pass (m : Module) (s : State) (e : String × FunctionRef) :
    s.Rebinds [e.1] { s with machine :=
      { s.machine with heap := m.pass s.frame.table s.machine.heap e } } where
  vars _ _ := rfl
  table := rfl
  parent := rfl
  shared := rfl
  lists := .refl _
  objects := .refl _
  classes := .refl _
  functions := .push _ _
  tables t' b found := by
    change ∃ b', (s.machine.heap.tables.modify _ _)[t'.index]? = some b' ∧ _
    rw [Array.getElem?_modify, found]
    split
    · rename_i same
      have here : t' = s.frame.table := congrArg TableRef.mk same.symm
      exact ⟨_, rfl, fun x outside =>
        Bindings.get?_insert_of_ne b (List.ne_of_not_mem_cons (outside here)) _⟩
    · exact ⟨b, rfl, fun _ _ => rfl⟩

theorem assign (s : State) (name : String) (v : Value) :
    s.Rebinds [name] { s with frame := s.frame.assign name v } where
  vars _ outside := Bindings.get?_insert_of_ne _ (List.ne_of_not_mem_cons outside) v
  table := rfl
  parent := rfl
  shared := rfl
  lists := .refl _
  objects := .refl _
  classes := .refl _
  functions := .refl _
  tables _ b found := ⟨b, found, fun _ _ => rfl⟩

end Rebinds

/-- The script is as it was but for what it shares: of what the names are bound to, the functions are
marked and the variables are listed. -/
structure Shares (names : List String) (s t : State) : Prop where
  frame : t.frame = s.frame
  lists : t.machine.heap.lists = s.machine.heap.lists
  objects : t.machine.heap.objects = s.machine.heap.objects
  classes : t.machine.heap.classes = s.machine.heap.classes
  tables : t.machine.heap.tables = s.machine.heap.tables
  marks : ∀ (r : FunctionRef) (f : Function), s.machine.heap.functions[r.index]? = some f →
    ∃ g, t.machine.heap.functions[r.index]? = some g ∧ g.decl = f.decl ∧ g.scope = f.scope ∧
      (g.shared = true ↔ f.shared = true ∨
        ∃ name ∈ names, s.frame.function? s.machine.heap name = some r)
  listed : ∀ name, t.machine.shared.contains name = true ↔
    s.machine.shared.contains name = true ∨
      name ∈ names ∧ s.frame.function? s.machine.heap name = none

namespace Shares

variable {s t u : State} {names more : List String}

theorem none (s : State) : s.Shares [] s where
  frame := rfl
  lists := rfl
  objects := rfl
  classes := rfl
  tables := rfl
  marks _ f found := ⟨f, found, rfl, rfl, by simp⟩
  listed name := by simp

theorem function? (shares : s.Shares names t) (name : String) :
    t.frame.function? t.machine.heap name = s.frame.function? s.machine.heap name := by
  unfold Frame.function? Heap.table
  rw [shares.frame, shares.tables]

theorem trans (first : s.Shares names t) (next : t.Shares more u) :
    s.Shares (names ++ more) u where
  frame := next.frame.trans first.frame
  lists := next.lists.trans first.lists
  objects := next.objects.trans first.objects
  classes := next.classes.trans first.classes
  tables := next.tables.trans first.tables
  marks r f found := by
    obtain ⟨g, found', decl, scope, shared⟩ := first.marks r f found
    obtain ⟨g', found'', decl', scope', shared'⟩ := next.marks r g found'
    have either : g'.shared = true ↔ f.shared = true ∨
        ∃ name ∈ names ++ more, s.frame.function? s.machine.heap name = some r := by
      simp only [first.function?] at shared'
      simp only [shared', shared, or_assoc, List.mem_append, or_and_right, exists_or]
    exact ⟨g', found'', decl'.trans decl, scope'.trans scope, either⟩
  listed name := by
    rw [next.listed, first.listed, first.function?, List.mem_append]
    tauto

theorem mark {name : String} {r : FunctionRef}
    (found : s.frame.function? s.machine.heap name = some r) :
    s.Shares [name] { s with machine :=
      { s.machine with heap := s.machine.heap.markShared r } } where
  frame := rfl
  lists := rfl
  objects := rfl
  classes := rfl
  tables := rfl
  marks q f here := by
    change ∃ g, (s.machine.heap.functions.modify _ _)[q.index]? = some g ∧ _
    rw [Array.getElem?_modify, here]
    split
    · rename_i same
      have bound : r = q := congrArg FunctionRef.mk same
      exact ⟨_, rfl, rfl, rfl, by simp [found, bound]⟩
    · rename_i differ
      have other : r ≠ q := fun is => differ (congrArg FunctionRef.index is)
      exact ⟨f, rfl, rfl, rfl, by simp [found, other]⟩
  listed other := by
    constructor
    · exact .inl
    · rintro (known | ⟨member, absent⟩)
      · exact known
      · rw [List.mem_singleton.1 member, found] at absent
        cases absent

theorem list {name : String} (absent : s.frame.function? s.machine.heap name = .none) :
    s.Shares [name] { s with machine :=
      { s.machine with shared := s.machine.shared.insert name () } } where
  frame := rfl
  lists := rfl
  objects := rfl
  classes := rfl
  tables := rfl
  marks _ f here := ⟨f, here, rfl, rfl, by simp [absent]⟩
  listed other := by
    change ((s.machine.shared.insert name ()).get? other).isSome = true ↔ _
    by_cases same : other = name
    · subst same
      simp [Bindings.get?_insert_self, absent]
    · rw [Bindings.get?_insert_of_ne _ same]
      simp [same, Bindings.contains]

end Shares

end State

/-! One name after another. -/

section Names

variable {m : Module} {file name : String} {span : Span} {names : List String} {s t : State}
  {halt : Halt}

theorem bind_rebinds (bound : m.bind file span names s = .ok () t) : s.Rebinds names t := by
  induction names generalizing s with
  | nil =>
    cases bound
    exact .of_intact ⟨rfl, rfl, .refl _⟩
  | cons name names ih =>
    cases function : m.function? s.machine.heap name with
    | some r =>
      rw [bind_function function] at bound
      exact (State.Rebinds.pass m s (name, r)).trans (ih bound)
    | none =>
      cases value : m.frame.get? name with
      | some v =>
        rw [bind_value function value] at bound
        exact (State.Rebinds.assign s name v).trans (ih bound)
      | none =>
        rw [bind_neither function value] at bound
        cases bound

/-- What fails is the first name that the module does not offer, with all before it bound. -/
theorem bind_stops (failed : m.bind file span names s = .error halt t) :
    ∃ done name rest, names = done ++ name :: rest ∧ m.bind file span done s = .ok () t ∧
      m.function? t.machine.heap name = none ∧ m.frame.get? name = none ∧
      halt = .fault ⟨.notShared name file, span⟩ := by
  induction names generalizing s with
  | nil => cases failed
  | cons name names ih =>
    cases function : m.function? s.machine.heap name with
    | some r =>
      rw [bind_function function] at failed
      obtain ⟨done, other, rest, rfl, bound, last⟩ := ih failed
      exact ⟨name :: done, other, rest, rfl, (bind_function function).trans bound, last⟩
    | none =>
      cases value : m.frame.get? name with
      | some v =>
        rw [bind_value function value] at failed
        obtain ⟨done, other, rest, rfl, bound, last⟩ := ih failed
        exact ⟨name :: done, other, rest, rfl, (bind_value function value).trans bound, last⟩
      | none =>
        rw [bind_neither function value] at failed
        cases failed
        exact ⟨[], name, names, rfl, rfl, function, value, rfl⟩

variable {frame : Frame} {a n : Machine}

theorem share_function {r : FunctionRef} (found : frame.function? a.heap name = some r) :
    frame.share span (name :: names) a =
      frame.share span names { a with heap := a.heap.markShared r } := by
  simp only [Frame.share, bind, EStateM.bind, Eval.heap, get, getThe, MonadStateOf.get, EStateM.get,
    Pure.pure, EStateM.pure, found]
  rfl

theorem share_variable (absent : frame.function? a.heap name = none)
    (known : frame.vars.contains name = true) :
    frame.share span (name :: names) a =
      frame.share span names { a with shared := a.shared.insert name () } := by
  simp only [Frame.share, bind, EStateM.bind, Eval.heap, get, getThe, MonadStateOf.get, EStateM.get,
    Pure.pure, EStateM.pure, absent, known]
  rfl

theorem share_neither (absent : frame.function? a.heap name = none)
    (unknown : frame.vars.contains name = false) :
    frame.share span (name :: names) a = .error (.fault ⟨.cannotShare name, span⟩) a := by
  simp only [Frame.share, bind, EStateM.bind, Eval.heap, get, getThe, MonadStateOf.get, EStateM.get,
    Pure.pure, EStateM.pure, absent, unknown]
  rfl

theorem share_shares (shared : frame.share span names a = .ok () n) :
    State.Shares names ⟨frame, a⟩ ⟨frame, n⟩ := by
  induction names generalizing a with
  | nil =>
    cases shared
    exact .none _
  | cons name names ih =>
    cases function : frame.function? a.heap name with
    | some r =>
      rw [share_function function] at shared
      exact (State.Shares.mark (s := ⟨frame, a⟩) function).trans (ih shared)
    | none =>
      cases known : frame.vars.contains name with
      | true =>
        rw [share_variable function known] at shared
        exact (State.Shares.list (s := ⟨frame, a⟩) function).trans (ih shared)
      | false =>
        rw [share_neither function known] at shared
        cases shared

/-- What fails is the first name that is bound to nothing, with all before it shared. -/
theorem share_stops (failed : frame.share span names a = .error halt n) :
    ∃ done name rest, names = done ++ name :: rest ∧ frame.share span done a = .ok () n ∧
      frame.function? n.heap name = none ∧ frame.vars.contains name = false ∧
      halt = .fault ⟨.cannotShare name, span⟩ := by
  induction names generalizing a with
  | nil => cases failed
  | cons name names ih =>
    cases function : frame.function? a.heap name with
    | some r =>
      rw [share_function function] at failed
      obtain ⟨done, other, rest, rfl, shared, last⟩ := ih failed
      exact ⟨name :: done, other, rest, rfl, (share_function function).trans shared, last⟩
    | none =>
      cases known : frame.vars.contains name with
      | true =>
        rw [share_variable function known] at failed
        obtain ⟨done, other, rest, rfl, shared, last⟩ := ih failed
        exact ⟨name :: done, other, rest, rfl, (share_variable function known).trans shared, last⟩
      | false =>
        rw [share_neither function known] at failed
        cases failed
        exact ⟨[], name, names, rfl, rfl, function, known, rfl⟩

end Names

/-! Statements. -/

/-- How a statement about modules leaves the script `s` as `t` when it fails. One that has nothing to
hand on leaves all as it was. Of a list of names the first stops it that is not offered, or is not
known, and the script is left as by the same statement with the names before that one alone. -/
def Stops (host : Host) (s : State) (halt : Halt) (t : State) : Stmt → Prop
  | .load _ _ _ => s.Intact t
  | .imports _ .all _ => s.Intact t
  | .imports file (.names names) span =>
    s.Intact t ∧ (∃ n, Module.ofFile host .importing file span s.machine = .error halt n) ∨
      ∃ m n done name rest, Module.ofFile host .importing file span s.machine = .ok m n ∧
        names = done ++ name :: rest ∧ m.function? t.machine.heap name = none ∧
        m.frame.get? name = none ∧ halt = .fault ⟨.notShared name file, span⟩ ∧
        host.execute (.imports file (.names done) span) s = .ok .done t ∧ s.Rebinds done t
  | .share names span =>
    ∃ done name rest, names = done ++ name :: rest ∧
      s.frame.function? s.machine.heap name = none ∧ s.frame.vars.contains name = false ∧
      halt = .fault ⟨.cannotShare name, span⟩ ∧
      host.execute (.share done span) s = .ok .done t ∧ s.Shares done t
  | _ => True

section Statements

variable {limit : Nat} {c : Context} {s t : State} {halt : Halt} {file : String} {span : Span}

theorem load_intact {name : String}
    (failed : (Host.of limit c).execute (.load file name span) s = .error halt t) : s.Intact t := by
  obtain ⟨frame, a⟩ := s
  have intact : State.Intact ⟨frame, a⟩
      ⟨frame, endState (Module.ofFile (.of limit c) .loading file span a)⟩ := ofFile_intact frame
  cases ran : Module.ofFile (.of limit c) .loading file span a with
  | error e n =>
    unfold Host.execute Host.loadFile at failed
    simp only [bind, EStateM.bind, Exec.eval, ran] at failed
    rw [ran] at intact
    cases failed
    exact intact
  | ok m n =>
    -- nothing can fail once the module has run through
    rw [load_eq ran] at failed
    cases failed

theorem imports_ok {items : Selection} {m : Module} {n : Machine}
    (ran : Module.ofFile (.of limit c) .importing file span s.machine = .ok m n)
    (handed : m.hand file items span ⟨s.frame, n⟩ = .ok () t) :
    (Host.of limit c).execute (.imports file items span) s = .ok .done t := by
  unfold Host.execute
  rw [importFile_eq]
  simp only [bind, EStateM.bind, Exec.eval, ran, handed]
  rfl

theorem imports_error {items : Selection}
    (failed : (Host.of limit c).execute (.imports file items span) s = .error halt t) :
    (s.Intact t ∧ ∃ n, Module.ofFile (.of limit c) .importing file span s.machine = .error halt n) ∨
      ∃ m n, Module.ofFile (.of limit c) .importing file span s.machine = .ok m n ∧
        s.Intact ⟨s.frame, n⟩ ∧ m.hand file items span ⟨s.frame, n⟩ = .error halt t := by
  obtain ⟨frame, a⟩ := s
  have intact : State.Intact ⟨frame, a⟩
      ⟨frame, endState (Module.ofFile (.of limit c) .importing file span a)⟩ := ofFile_intact frame
  unfold Host.execute at failed
  rw [importFile_eq] at failed
  simp only [bind, EStateM.bind, Exec.eval] at failed
  cases ran : Module.ofFile (.of limit c) .importing file span a with
  | error e n =>
    rw [ran] at failed intact
    cases failed
    exact .inl ⟨intact, n, rfl⟩
  | ok m n =>
    rw [ran] at failed intact
    dsimp only at failed
    cases handed : m.hand file items span ⟨frame, n⟩ with
    | error e u =>
      rw [handed] at failed
      cases failed
      exact .inr ⟨m, n, rfl, intact, handed⟩
    | ok u v =>
      rw [handed] at failed
      cases failed

theorem share_ok {names : List String} {n : Machine}
    (shared : s.frame.share span names s.machine = .ok () n) (host : Host) :
    host.execute (.share names span) s = .ok .done ⟨s.frame, n⟩ := by
  unfold Host.execute
  simp only [bind, EStateM.bind, Exec.eval, shared]
  rfl

theorem share_error {names : List String} {host : Host}
    (failed : host.execute (.share names span) s = .error halt t) :
    ∃ n, s.frame.share span names s.machine = .error halt n ∧ t = ⟨s.frame, n⟩ := by
  unfold Host.execute at failed
  simp only [bind, EStateM.bind, Exec.eval] at failed
  cases shared : s.frame.share span names s.machine with
  | error e n =>
    rw [shared] at failed
    cases failed
    exact ⟨n, rfl, rfl⟩
  | ok u n =>
    rw [shared] at failed
    cases failed

end Statements

/-- Statements about modules are not undone when they fail. But no module reaches what its script has,
and names are taken one by one. So a failing one leaves no more behind than the names before the
first that is at fault. -/
theorem failing_stops {limit : Nat} {c : Context} {s t : State} {halt : Halt} {x : Stmt}
    (failed : (Host.of limit c).execute x s = .error halt t) : Stops (.of limit c) s halt t x := by
  cases x with
  | load file name span => exact load_intact failed
  | imports file items span =>
    rcases imports_error failed with ⟨intact, n, ran⟩ | ⟨m, n, ran, intact, handed⟩
    · cases items with
      | all => exact intact
      | names names => exact .inl ⟨intact, n, ran⟩
    · cases items with
      | all =>
        rw [hand_all] at handed
        cases handed
      | names names =>
        obtain ⟨done, name, rest, split, bound, function, value, fault⟩ := bind_stops handed
        have rebinds := (State.Rebinds.of_intact intact).trans (bind_rebinds bound)
        exact .inr ⟨m, n, done, name, rest, ran, split, function, value, fault, imports_ok ran bound,
          rebinds⟩
  | share names span =>
    obtain ⟨n, failed', rfl⟩ := share_error failed
    obtain ⟨done, name, rest, split, shared, function, variable', fault⟩ := share_stops failed'
    have shares := share_shares shared
    have function' := (shares.function? name).symm.trans function
    exact ⟨done, name, rest, split, function', variable', fault, share_ok shared _, shares⟩
  | _ => trivial

/-! An import and a share that stop halfway. -/

/-- The state in which a computation halts. -/
def haltedIn {σ : Type} : EStateM.Result Halt σ α → Option σ
  | .ok .. => none
  | .error _ t => some t

theorem error_of_haltedIn {σ β : Type} {r : EStateM.Result Halt σ α} {view : σ → β} {b : β}
    (halts : (haltedIn r).map view = some b) : ∃ e t, r = .error e t ∧ view t = b := by
  cases r with
  | ok a t => cases halts
  | error e t => exact ⟨e, t, rfl, Option.some.inj halts⟩

/-- A module with one variable. -/
def shelfFiles : Files where
  home := []
  nodes := [(["m.es"], .text "a = 1")]

def halfImport : Stmt :=
  .imports "m.es" (.names ["a", "b"]) default

theorem halfImport_halts :
    ∃ halt t, (Host.of 9 (.inMemory shelfFiles .working)).execute halfImport State.start =
      .error halt t ∧ t.frame.get? "a" = some (.int 1) :=
  error_of_haltedIn (by decide +kernel)

theorem halfImport_stops :
    ∃ halt t, (Host.of 9 (.inMemory shelfFiles .working)).execute halfImport State.start =
        .error halt t ∧
      Stops (.of 9 (.inMemory shelfFiles .working)) State.start halt t halfImport := by
  obtain ⟨halt, t, failed, -⟩ := halfImport_halts
  exact ⟨halt, t, failed, failing_stops failed⟩

/-- A failing import leaves a variable behind, and a failing share a shared variable. -/
theorem halfway_left_behind :
    (∃ halt t, (Host.of 9 (.inMemory shelfFiles .working)).execute halfImport State.start =
        .error halt t ∧
      State.start.frame.get? "a" = none ∧ t.frame.get? "a" = some (.int 1)) ∧
    ∃ s halt t, (Host.of 9 (.inMemory shelfFiles .working)).execute (.share ["x", "y"] default) s =
        .error halt t ∧
      s.machine.shared.contains "x" = false ∧ t.machine.shared.contains "x" = true := by
  obtain ⟨halt, t, failed, bound⟩ := halfImport_halts
  let s : State := { State.start with frame := State.start.frame.assign "x" .null }
  have shared : ∃ halt t, (Host.of 9 (.inMemory shelfFiles .working)).execute
      (.share ["x", "y"] default) s = .error halt t ∧ t.machine.shared.contains "x" = true :=
    error_of_haltedIn (by decide +kernel)
  obtain ⟨halt', t', failed', listed⟩ := shared
  exact ⟨⟨halt, t, failed, rfl, bound⟩, s, halt', t', failed', rfl, listed⟩

end Script
