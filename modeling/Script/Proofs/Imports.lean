import Mathlib
import Script.Proofs.Growth
import Script.Proofs.Lookup
import Script.Proofs.Layout.Statements

/-! What imports bind. A script that imports a function gets a copy of it that carries the frame of the
module it was imported from, whatever scope the function had there. So a function that is handed on
from module to module ends up in the scope of the last of them, not in that of its own module. -/

namespace Script

/-- The frame of a module is not among those that were there before it ran. -/
theorem ofFile_fresh {limit : Nat} {c : Context} {access : Access} {file : String} {span : Span}
    {a n : Machine} {m : Module} (ran : Module.ofFile (.of limit c) access file span a = .ok m n) :
    a.heap.tables.size ≤ m.frame.table.index := by
  -- the frame is among what the module owns
  have ended := World.ofFile_beside limit c access file span a
  rw [ran] at ended
  exact ended.1.2.table

/-- The heap once a function is copied from a module to a table. -/
def Module.pass (m : Module) (t : TableRef) (h : Heap) (e : String × FunctionRef) : Heap :=
  let copy := h.newFunction { h.function e.2 with scope := some m.frame }
  copy.2.define t e.1 copy.1

theorem define_eq (m : Module) (t : TableRef) (fs : List (String × FunctionRef)) (a : Machine) :
    m.define t fs a = .ok () { a with heap := fs.foldl (m.pass t) a.heap } := by
  induction fs generalizing a with
  | nil => rfl
  | cons f fs ih => exact ih { a with heap := m.pass t a.heap f }

/-- A table binds a name to a function that is `f`. -/
def Heap.Binds (h : Heap) (t : TableRef) (name : String) (f : Function) : Prop :=
  ∃ r, (h.table t).get? name = some r ∧ h.functions[r.index]? = some f

section

variable {m : Module} {t : TableRef} {h : Heap} {name : String} {f : Function}

theorem pass_function {i : Nat} (found : h.functions[i]? = some f) (e : String × FunctionRef) :
    (m.pass t h e).functions[i]? = some f := by
  obtain ⟨below, -⟩ := Array.getElem?_eq_some_iff.1 found
  change (h.functions.push _)[i]? = some f
  rw [Array.getElem?_push, if_neg (by omega), found]

theorem pass_tables (e : String × FunctionRef) :
    (m.pass t h e).tables.size = h.tables.size := by
  simp [Module.pass, Heap.define, Heap.newFunction]

theorem pass_other {t' : TableRef} (ne : t' ≠ t) (e : String × FunctionRef) :
    (m.pass t h e).table t' = h.table t' :=
  Heap.table_define_of_ne ne _ _

theorem pass_binds (there : t.index < h.tables.size) {r : FunctionRef}
    (found : h.functions[r.index]? = some f) :
    (m.pass t h (name, r)).Binds t name { f with scope := some m.frame } := by
  refine ⟨⟨h.functions.size⟩, ?_, ?_⟩
  · unfold Module.pass
    dsimp only
    rw [Heap.table_define_self]
    · exact Bindings.get?_insert_self _ name _
    · exact there
  · change (h.functions.push _)[h.functions.size]? = _
    rw [Array.getElem?_push, if_pos rfl, Heap.function_of_getElem? found]

theorem Heap.Binds.pass (there : t.index < h.tables.size) (bound : h.Binds t name f)
    {e : String × FunctionRef} (ne : name ≠ e.1) : (m.pass t h e).Binds t name f := by
  obtain ⟨r, named, found⟩ := bound
  refine ⟨r, ?_, pass_function found e⟩
  unfold Module.pass
  dsimp only
  rw [Heap.table_define_self]
  · exact (Bindings.get?_insert_of_ne _ ne _).trans named
  · exact there

/-- A module offers `f` under a name to a script with the functions in `t`. -/
structure Module.Offers (m : Module) (h : Heap) (t : TableRef) (name : String) (r : FunctionRef)
    (f : Function) : Prop where
  there : t.index < h.tables.size
  apart : m.frame.table ≠ t
  named : m.frame.function? h name = some r
  found : h.functions[r.index]? = some f
  shared : f.shared = true

variable {r : FunctionRef}

theorem Module.Offers.pass (offers : m.Offers h t name r f) (e : String × FunctionRef) :
    m.Offers (m.pass t h e) t name r f where
  there := by
    rw [pass_tables]
    exact offers.there
  apart := offers.apart
  named := by
    unfold Frame.function?
    rw [pass_other offers.apart]
    exact offers.named
  found := pass_function offers.found e
  shared := offers.shared

theorem Module.Offers.function? (offers : m.Offers h t name r f) : m.function? h name = some r := by
  unfold Module.function?
  rw [offers.named, Option.filter_some, Heap.function_of_getElem? offers.found, offers.shared]
  rfl

/-- All functions passed on, a name is bound if it was among them or was bound before. -/
theorem Module.Offers.passAll (offers : m.Offers h t name r f) {fs : List (String × FunctionRef)}
    (only : ∀ e ∈ fs, e.1 = name → e.2 = r)
    (start : (name, r) ∈ fs ∨ h.Binds t name { f with scope := some m.frame }) :
    (fs.foldl (m.pass t) h).Binds t name { f with scope := some m.frame } := by
  induction fs generalizing h with
  | nil =>
    rcases start with member | bound
    · cases member
    · exact bound
  | cons e fs ih =>
    obtain ⟨first, others⟩ := List.forall_mem_cons.1 only
    apply ih (offers.pass e) others
    by_cases same : e.1 = name
    · right
      have here : e = (name, r) := Prod.ext same (first same)
      rw [here]
      exact pass_binds offers.there offers.found
    · rcases start with member | bound
      · left
        rcases List.mem_cons.1 member with rfl | rest
        · exact absurd rfl same
        · exact rest
      · right
        exact bound.pass offers.there (Ne.symm same)

section

variable {file other : String} {span : Span} {names : List String} {s u : State}

theorem bind_function {q : FunctionRef} (function : m.function? s.machine.heap other = some q) :
    m.bind file span (other :: names) s = m.bind file span names { s with machine :=
      { s.machine with heap := m.pass s.frame.table s.machine.heap (other, q) } } := by
  simp only [Module.bind, bind, EStateM.bind, get, getThe, MonadStateOf.get, EStateM.get, function]
  rfl

theorem bind_value {v : Value} (function : m.function? s.machine.heap other = none)
    (value : m.frame.get? other = some v) :
    m.bind file span (other :: names) s =
      m.bind file span names { s with frame := s.frame.assign other v } := by
  simp only [Module.bind, bind, EStateM.bind, get, getThe, MonadStateOf.get, EStateM.get, function,
    value]
  rfl

theorem bind_neither (function : m.function? s.machine.heap other = none)
    (value : m.frame.get? other = none) :
    m.bind file span (other :: names) s = .error (.fault ⟨.notShared other file, span⟩) s := by
  simp only [Module.bind, bind, EStateM.bind, get, getThe, MonadStateOf.get, EStateM.get, function,
    value]
  rfl

theorem bind_binds (offers : m.Offers s.machine.heap s.frame.table name r f)
    (bound : m.bind file span names s = .ok () u)
    (start : name ∈ names ∨
      s.machine.heap.Binds s.frame.table name { f with scope := some m.frame }) :
    u.machine.heap.Binds u.frame.table name { f with scope := some m.frame } := by
  induction names generalizing s with
  | nil =>
    cases bound
    rcases start with member | holds
    · cases member
    · exact holds
  | cons other names ih =>
    by_cases same : other = name
    · subst same
      rw [bind_function offers.function?] at bound
      exact ih (offers.pass _) bound (.inr (pass_binds offers.there offers.found))
    · have later : name ∈ other :: names → name ∈ names := fun member =>
        (List.mem_cons.1 member).resolve_left (Ne.symm same)
      cases function : m.function? s.machine.heap other with
      | some q =>
        rw [bind_function function] at bound
        apply ih (offers.pass _) bound
        exact start.imp later fun holds => holds.pass offers.there (Ne.symm same)
      | none =>
        cases value : m.frame.get? other with
        | some v =>
          rw [bind_value function value] at bound
          refine ih ?_ bound (start.imp later id)
          exact offers
        | none =>
          rw [bind_neither function value] at bound
          cases bound

end

end

/-! Scripts at work. -/

/-- A script is running: it began with a frame of its own and has run statements since, which may
have failed. -/
inductive Running : State → Prop
  | fresh (h : Heap) (output : String) :
    Running ⟨(Frame.new h).1, (Frame.new h).2, output, .empty⟩
  | next {s : State} (limit : Nat) (c : Context) (b : Block) :
    Running s → Running (endState (run limit c b s))

theorem Running.there {s : State} (running : Running s) :
    s.frame.table.index < s.machine.heap.tables.size := by
  induction running with
  | fresh h output => simp [Frame.new, Heap.newTable]
  | next limit c b running ih =>
    obtain ⟨table, grows⟩ := grows_law.run limit c b _
    rw [table]
    exact Nat.lt_of_lt_of_le ih grows.tables

def Selection.Selects (name : String) : Selection → Prop
  | .all => True
  | .names listed => name ∈ listed

/-- A script in state `s` imports a name from a module, which ends as `m` on the machine `n`, and is
in state `t` then. -/
inductive Imports (name : String) (m : Module) (n : Machine) (s t : State) : Prop
  | intro {limit : Nat} {c : Context} {file : String} {items : Selection} {span : Span}
    (ran : Module.ofFile (.of limit c) .importing file span s.machine = .ok m n)
    (imported : (Host.of limit c).importFile file items span s = .ok () t)
    (selected : items.Selects name)

theorem Imports.binds {name : String} {m : Module} {n : Machine} {s t : State} {r : FunctionRef}
    {f : Function} (imports : Imports name m n s t)
    (offers : m.Offers n.heap s.frame.table name r f) :
    t.machine.heap.Binds t.frame.table name { f with scope := some m.frame } := by
  obtain ⟨ran, imported, selected⟩ := imports
  rename_i limit c file items span
  cases items with
  | names names =>
    have rest : (Host.of limit c).importFile file (.names names) span s =
        m.bind file span names ⟨s.frame, n⟩ := by
      simp only [Host.importFile, bind, EStateM.bind, Exec.eval, ran]
    rw [rest] at imported
    exact bind_binds offers imported (.inl selected)
  | all =>
    have rest : (Host.of limit c).importFile file .all span s =
        .ok () ⟨{ s.frame with vars := s.frame.vars.overlay m.frame.vars },
          { n with heap := (m.functions n.heap).foldl (m.pass s.frame.table) n.heap }⟩ := by
      have read (a : Machine) : Eval.heap a = .ok a.heap a := rfl
      simp only [Host.importFile, bind, EStateM.bind, Exec.eval, ran, modify, modifyGet,
        MonadStateOf.modifyGet, EStateM.modifyGet, read, define_eq]
    rw [rest] at imported
    cases imported
    apply offers.passAll
    · intro e member same
      have found : (n.heap.table m.frame.table).get? name = some e.2 :=
        Bindings.get?_of_mem (same ▸ (List.mem_filter.1 member).1)
      exact Option.some.inj (found.symm.trans offers.named)
    · left
      exact List.mem_filter.2 ⟨Bindings.mem_of_lookup offers.named, by
        rw [Heap.function_of_getElem? offers.found, offers.shared]⟩

theorem hostStays_of (limit : Nat) (c : Context) : HostStays Heap.Grows (.of limit c) :=
  fun c b => grows_law.run limit c b

theorem Imports.table {name : String} {m : Module} {n : Machine} {s t : State}
    (imports : Imports name m n s t) : t.frame.table = s.frame.table := by
  obtain ⟨ran, imported, -⟩ := imports
  rename_i limit c file items span
  have stays := grows_law.importFile (hostStays_of limit c) file items span s
  rw [imported] at stays
  exact stays.1

theorem Imports.fresh {name : String} {m : Module} {n : Machine} {s t : State}
    (imports : Imports name m n s t) (running : Running s) :
    s.frame.table.index < m.frame.table.index := by
  obtain ⟨ran, -, -⟩ := imports
  exact Nat.lt_of_lt_of_le running.there (ofFile_fresh ran)

theorem Imports.offers {name : String} {m : Module} {n : Machine} {s t : State} {r : FunctionRef}
    (imports : Imports name m n s t) (running : Running s)
    (function : m.function? n.heap name = some r) :
    m.Offers n.heap s.frame.table name r (n.heap.function r) := by
  obtain ⟨named, shared⟩ := Option.filter_eq_some_iff.1 function
  refine ⟨?_, ?_, named, ?_, shared⟩
  · obtain ⟨ran, -, -⟩ := imports
    rename_i limit c file items span
    have grows := grows_law.ofFile (hostStays_of limit c) .importing file span s.machine
    rw [ran] at grows
    exact Nat.lt_of_lt_of_le running.there grows.tables
  · intro same
    have fresh := imports.fresh running
    rw [same] at fresh
    omega
  · -- only what is on the heap can be shared
    unfold Heap.function at shared ⊢
    cases found : n.heap.functions[r.index]? with
    | none =>
      rw [found] at shared
      cases shared
    | some f => rfl

/-! Functions handed on from module to module. -/

/-- In state `s`, a script has under a name the function `f` that module `b` defines. It came over
`k` imports, the last of them from module `m`. It is there right after an import, later on if the
script still has it, and in a script that imports it from one that had it when it ended. -/
inductive Handed (name : String) (b : Module) (f : Function) : Nat → Module → State → Prop
  | direct {n : Machine} {s t : State} {r : FunctionRef} (running : Running s)
    (imports : Imports name b n s t) (function : b.function? n.heap name = some r)
    (defined : n.heap.function r = f) (own : f.scope = none) : Handed name b f 1 b t
  | later {k : Nat} {m : Module} {s : State} {r : FunctionRef} (limit : Nat) (c : Context)
    (block : Block) (before : Handed name b f k m s)
    (had : s.frame.function? s.machine.heap name = some r)
    (has : (endState (run limit c block s)).frame.function?
      (endState (run limit c block s)).machine.heap name = some r) :
    Handed name b f k m (endState (run limit c block s))
  | again {k : Nat} {m m' : Module} {n : Machine} {s t u : State} (before : Handed name b f k m u)
    (frame : m'.frame = u.frame) (heap : n.heap = u.machine.heap) (running : Running s)
    (imports : Imports name m' n s t) : Handed name b f (k + 1) m' t

/-- What is true of a function that is handed on. Scripts are older than the modules they run, so
their tables come first. -/
structure Passed (name : String) (b : Module) (f : Function) (k : Nat) (m : Module) (s : State) :
    Prop where
  shared : f.shared = true
  bound : s.machine.heap.Binds s.frame.table name { f with scope := some m.frame }
  older : s.frame.table.index < b.frame.table.index
  last : k = 1 ∧ m.frame = b.frame ∨ 1 < k ∧ m.frame.table.index < b.frame.table.index

theorem Handed.passed {name : String} {b m : Module} {f : Function} {k : Nat} {s : State}
    (handed : Handed name b f k m s) : Passed name b f k m s := by
  induction handed with
  | direct running imports function defined own =>
    have offers := imports.offers running function
    rw [defined] at offers
    refine ⟨offers.shared, imports.binds offers, ?_, .inl ⟨rfl, rfl⟩⟩
    rw [imports.table]
    exact imports.fresh running
  | later limit c block before had has ih =>
    obtain ⟨table, grows⟩ := grows_law.run limit c block _
    obtain ⟨r, named, found⟩ := ih.bound
    have same := Option.some.inj (named.symm.trans had)
    subst same
    obtain ⟨g, found', becomes⟩ := grows.functions _ _ found
    have kept := becomes.eq ih.shared
    refine ⟨ih.shared, ⟨r, has, ?_⟩, ?_, ih.last⟩
    · rw [found', kept]
    · rw [table]
      exact ih.older
  | @again k m m' n s t u before frame heap running imports ih =>
    obtain ⟨r, named, found⟩ := ih.bound
    rw [← frame, ← heap] at named
    rw [← heap] at found
    have function : m'.function? n.heap name = some r := by
      apply Option.filter_eq_some_iff.2
      rw [Heap.function_of_getElem? found]
      exact ⟨named, ih.shared⟩
    have offers := imports.offers running function
    rw [Heap.function_of_getElem? found] at offers
    have older : m'.frame.table.index < b.frame.table.index := frame ▸ ih.older
    have bound := imports.binds offers
    refine ⟨ih.shared, bound, ?_, .inr ⟨?_, older⟩⟩
    · rw [imports.table]
      exact Nat.lt_trans (imports.fresh running) older
    · rcases ih.last with ⟨one, -⟩ | ⟨more, -⟩ <;> omega

/-- A call of `f` in the scope of a module with the given frame. -/
def Host.callIn (host : Host) (scope : Frame) (f : Function) (caller : Frame) (args : List Value)
    (span : Span) : Eval Value := do
  checkArity f args span
  host.body f ((caller.callee.enter scope).assignAll f.decl.params args)

theorem call_of_scope {host : Host} {scope : Frame} {f : Function} {r : FunctionRef} {a : Machine}
    (found : a.heap.function r = { f with scope := some scope }) (caller : Frame)
    (args : List Value) (span : Span) :
    host.call caller r args span a = host.callIn scope f caller args span a := by
  have read : Eval.heap a = .ok a.heap a := rfl
  simp only [Host.call, bind, EStateM.bind, read, found]
  rfl

/-- A host that gives away the functions that a body sees. -/
def tableHost : Host where
  context := .inMemory ⟨[], []⟩ .working
  steps := 0
  nested _ _ s := .ok (.gave (.list ⟨s.frame.table.index⟩)) s

theorem tableHost_callIn (scope : Frame) (f : Function) (caller : Frame) (span : Span)
    (a : Machine) :
    tableHost.callIn scope f caller (List.replicate f.decl.params.length .null) span a =
      .ok (.list ⟨scope.table.index⟩) a := by
  have arity : Host.checkArity f (List.replicate f.decl.params.length .null) span a = .ok () a := by
    simp [Host.checkArity, pure, EStateM.pure]
  simp only [Host.callIn, Host.body, bind, EStateM.bind, arity, Exec.inside, tableHost, Frame.table_assignAll]
  rfl

/-- A name that is no function of the scope, and no variable or parameter either, cannot be called. -/
theorem unknown_in_scope {scope caller : Frame} {params : List String} {args : List Value}
    {a : Machine} {p : String} (function : scope.function? a.heap p = none)
    (variable' : scope.get? p = none) (outside : caller.get? p = none) (param : p ∉ params)
    (host : Host) (es : List Expr) (span : Span) :
    host.evaluate ((caller.callee.enter scope).assignAll params args) (.call p es span) a =
      .error (.fault ⟨.running (.unboundFunction p), span⟩) a := by
  have unbound : ((caller.callee.enter scope).assignAll params args).get? p = none := by
    rw [Frame.get?_assignAll_of_notMem param]
    exact (Bindings.get?_overlay_of_none variable').trans outside
  have undefined :
      ((caller.callee.enter scope).assignAll params args).function? a.heap p = none := by
    unfold Frame.function?
    rw [Frame.table_assignAll]
    exact function
  have read : Eval.heap a = .ok a.heap a := rfl
  simp only [Host.evaluate, Frame.called, bind, EStateM.bind, read, unbound, undefined]
  rfl

/-- Handed on from module to module, a function is called in the scope of the module that it was
last imported from. Whatever its body does, that is a call in the scope of the module that defines
it, exactly if it was imported from there directly. Else the body cannot call what is private to the
module that defines it. -/
theorem handed_scope {name : String} {b m : Module} {f : Function} {k : Nat} {s : State}
    (handed : Handed name b f k m s) :
    ∃ r, s.frame.function? s.machine.heap name = some r ∧
      (∀ (host : Host) (caller : Frame) (args : List Value) (span : Span),
        host.call caller r args span s.machine =
          host.callIn m.frame f caller args span s.machine) ∧
      ((∀ (host : Host) (caller : Frame) (args : List Value) (span : Span),
        host.call caller r args span s.machine =
          host.callIn b.frame f caller args span s.machine) ↔ k = 1) ∧
      ∀ (host : Host) (caller : Frame) (args : List Value) (p : String) (es : List Expr)
        (span : Span), m.frame.function? s.machine.heap p = none → m.frame.get? p = none →
        caller.get? p = none → p ∉ f.decl.params →
        host.evaluate ((caller.callee.enter m.frame).assignAll f.decl.params args) (.call p es span)
          s.machine = .error (.fault ⟨.running (.unboundFunction p), span⟩) s.machine := by
  obtain ⟨-, ⟨r, named, found⟩, -, last⟩ := handed.passed
  have calls (host : Host) (caller : Frame) (args : List Value) (span : Span) :
      host.call caller r args span s.machine =
        host.callIn m.frame f caller args span s.machine :=
    call_of_scope (Heap.function_of_getElem? found) caller args span
  refine ⟨r, named, calls, ⟨?_, ?_⟩, ?_⟩
  · intro law
    rcases last with ⟨one, -⟩ | ⟨-, below⟩
    · exact one
    · have same := calls tableHost s.frame (.replicate f.decl.params.length .null) default
      rw [law, tableHost_callIn, tableHost_callIn] at same
      simp only [EStateM.Result.ok.injEq, Value.list.injEq, ListRef.mk.injEq] at same
      omega
  · intro one
    rcases last with ⟨-, frames⟩ | ⟨more, -⟩
    · rw [← frames]
      exact calls
    · omega
  · intro host caller args p es span function variable' outside param
    exact unknown_in_scope function variable' outside param host es span

/-! A module that only hands on. -/

/-- A module that is one import ends in the state after that import. -/
theorem ofFile_import {limit : Nat} {c : Context} {access : Access} {file inner text : String}
    {span place : Span} {items : Selection} {path : Path} {a : Machine} {t : State}
    (resolved : c.files.resolve (c.locate file) = some path)
    (acyclic : c.chain.contains path = false) (content : c.files.read path = .ok text)
    (parsed : parse text = .ok [.imports inner items place])
    (imported : (Host.of limit (c.module path)).importFile inner items place
      ⟨(Frame.new a.heap).1, (Frame.new a.heap).2, a.output, .empty⟩ = .ok () t) :
    Module.ofFile (.of (limit + 1) c) access file span a =
      .ok ⟨t.frame, t.machine.shared⟩ { t.machine with shared := a.shared } := by
  have ran : runSource (run (limit + 1) (c.module path)) text
      ⟨(Frame.new a.heap).1, (Frame.new a.heap).2, a.output, .empty⟩ = .ok () t := by
    have order : [Stmt.imports inner items place].filter Stmt.isImport ++
        [Stmt.imports inner items place].filter (!·.isImport) = [.imports inner items place] := rfl
    unfold runSource runProgram
    rw [parsed]
    dsimp only
    rw [order]
    unfold Host.of at imported
    simp only [topLevel, run, Host.executeBlock, Host.execute, bind, EStateM.bind, imported]
    rfl
  unfold Module.ofFile Host.of
  dsimp only
  rw [resolved]
  dsimp only
  rw [acyclic, content]
  simp only [Bool.false_eq_true, if_false, Module.run, ran]

/-- A module whose function calls another that it keeps private, and one that hands it on. -/
def relayFiles : Files where
  home := []
  nodes := [
    (["b.es"], .text "f priv() return 1 endf f h() return priv() endf share(h)"),
    (["a.es"], .text "from \"b.es\" use {h}")]

/-- What a run printed, and the message of the fault that ended it. -/
def shown : EStateM.Result Halt State Unit → String × Option String
  | .ok _ s => (s.machine.output, none)
  | .error (.fault e) s => (s.machine.output, some e.message)
  | .error .exhausted s => (s.machine.output, none)

theorem relay_loses_private :
    shown (runSource (run 9 (.inMemory relayFiles .working))
        "from \"b.es\" use {h}\nprint(h())" State.start) = ("1\n", none) ∧
      shown (runSource (run 9 (.inMemory relayFiles .working))
        "from \"a.es\" use {h}\nprint(h())" State.start) =
          ("", some "Function 'priv' is not defined") := by
  decide +kernel

def succeeded {σ α : Type} : EStateM.Result Halt σ α → Bool
  | .ok .. => true
  | .error .. => false

theorem ok_of_succeeded {σ α : Type} {r : EStateM.Result Halt σ α} (h : succeeded r = true) :
    ∃ a s, r = .ok a s := by
  cases r with
  | ok a s => exact ⟨a, s, rfl⟩
  | error e s => cases h

/-- The functions that a module defines itself and shares under a name. -/
def ownFunction (name : String) : EStateM.Result Halt Machine Module → Option FunctionRef
  | .ok m n => (m.function? n.heap name).filter fun r => (n.heap.function r).scope.isNone
  | .error .. => none

theorem relay_handed :
    ∃ (b m : Module) (f : Function) (s : State) (r : FunctionRef), Handed "h" b f 2 m s ∧
      s.frame.function? s.machine.heap "h" = some r ∧
      ¬ ∀ (host : Host) (caller : Frame) (args : List Value) (span : Span),
        host.call caller r args span s.machine =
          host.callIn b.frame f caller args span s.machine := by
  -- the state in which the module that hands on does its import, and what it imports
  let c : Context := .inMemory relayFiles .working
  let h := State.start.machine.heap
  let inside : State := ⟨(Frame.new h).1, (Frame.new h).2, "", .empty⟩
  have own : ownFunction "h" (Module.ofFile (.of 8 (c.module ["a.es"])) .importing "b.es"
      ⟨0, 19, 1, 1⟩ inside.machine) = some ⟨1⟩ := by decide +kernel
  have first : succeeded ((Host.of 8 (c.module ["a.es"])).importFile "b.es" (.names ["h"])
      ⟨0, 19, 1, 1⟩ inside) = true := by decide +kernel
  have second : succeeded ((Host.of 9 c).importFile "a.es" (.names ["h"]) default State.start)
      = true := by decide +kernel
  have parsed : parse "from \"b.es\" use {h}" =
      .ok [.imports "b.es" (.names ["h"]) ⟨0, 19, 1, 1⟩] := by cbv
  obtain ⟨⟨⟩, t, imported⟩ := ok_of_succeeded first
  obtain ⟨⟨⟩, u, imported'⟩ := ok_of_succeeded second
  cases ran : Module.ofFile (.of 8 (c.module ["a.es"])) .importing "b.es" ⟨0, 19, 1, 1⟩
      inside.machine with
  | error e n =>
    rw [ran] at own
    cases own
  | ok b n =>
    rw [ran] at own
    obtain ⟨function, scope⟩ := Option.filter_eq_some_iff.1 own
    have direct : Handed "h" b (n.heap.function ⟨1⟩) 1 b t :=
      .direct (.fresh h "") ⟨ran, imported, List.mem_singleton.2 rfl⟩ function rfl
        (Option.isNone_iff_eq_none.1 scope)
    have relayed : Module.ofFile (.of 9 c) .importing "a.es" default State.start.machine =
        .ok ⟨t.frame, t.machine.shared⟩ { t.machine with shared := .empty } :=
      ofFile_import (by decide +kernel) rfl (by cbv) parsed imported
    have imports : Imports "h" ⟨t.frame, t.machine.shared⟩ { t.machine with shared := .empty }
        State.start u := ⟨relayed, imported', List.mem_singleton.2 rfl⟩
    have running : Running State.start := .fresh .empty ""
    have handed : Handed "h" b (n.heap.function ⟨1⟩) 2 ⟨t.frame, t.machine.shared⟩ u := by
      refine direct.again ?_ ?_ running imports
      · rfl
      · rfl
    obtain ⟨r, named, -, law, -⟩ := handed_scope handed
    exact ⟨b, _, _, u, r, handed, named, fun same => absurd (law.1 same) (by decide)⟩

end Script
