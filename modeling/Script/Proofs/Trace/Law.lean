import Script.Proofs.Contexts
import Script.Proofs.Imports
import Script.Proofs.Parts
import Script.Proofs.Trace.Log

/-! What holds all through a run. Functions are made, shared and handed on by few statements, so
what those keep is kept by every run; and a run executes nothing but what its blocks, the bodies on
the heap and the files that it reads are made of. -/

namespace Script

variable {σ α β : Type}

/-- Another machine with the same functions and the same shared variables. -/
structure Machine.Same (m n : Machine) : Prop where
  functions : n.heap.functions = m.heap.functions
  tables : n.heap.tables = m.heap.tables
  shared : n.shared = m.shared

theorem Machine.same_law : ValueLaw Machine.Same where
  refl _ := ⟨rfl, rfl, rfl⟩
  trans first next := ⟨next.functions.trans first.functions, next.tables.trans first.tables,
    next.shared.trans first.shared⟩
  newList _ _ := ⟨rfl, rfl, rfl⟩
  updateList _ _ _ := ⟨rfl, rfl, rfl⟩
  newObject _ _ := ⟨rfl, rfl, rfl⟩
  setKey _ _ _ _ := ⟨rfl, rfl, rfl⟩
  printed _ _ := ⟨rfl, rfl, rfl⟩

/-- What a script does with a module that it imports from. -/
def Module.hand (m : Module) (file : String) (items : Selection) (span : Span) : Exec Unit :=
  match items with
  | .all => do
    modify fun s =>
      { s with frame := { s.frame with vars := s.frame.vars.overlay m.frame.vars } }
    Exec.eval fun frame => do m.define frame.table (m.functions (← Eval.heap))
  | .names names => m.bind file span names

theorem importFile_eq (h : Host) (file : String) (items : Selection) (span : Span) :
    h.importFile file items span =
      Exec.eval (fun _ => Module.ofFile h .importing file span) >>= fun m =>
        m.hand file items span := by
  cases items <;> rfl

/-- The heap with a new function that a table binds. -/
def Heap.bindNew (h : Heap) (t : TableRef) (name : String) (f : Function) : Heap :=
  (h.newFunction f).2.define t name (h.newFunction f).1

theorem endState_effect (f : Frame → Eval α) (b : β) (s : State) :
    endState ((Exec.eval f >>= fun _ => Pure.pure b) s) =
      ⟨s.frame, endState (f s.frame s.machine)⟩ := by
  simp only [bind, EStateM.bind, Exec.eval]
  cases f s.frame s.machine <;> rfl

/-- What sharing names keeps, given that each of them does. -/
theorem share_keeps {P : Machine → Prop} {frame : Frame} {names : List String} (span : Span)
    (marks : ∀ m, ∀ name ∈ names, ∀ r, frame.function? m.heap name = some r → P m →
      P { m with heap := m.heap.markShared r })
    (lists : ∀ m, ∀ name ∈ names, P m → P { m with shared := m.shared.insert name () })
    {m : Machine} (start : P m) : P (endState (frame.share span names m)) := by
  induction names generalizing m with
  | nil => exact start
  | cons name names ih =>
    have later {a : Machine} (before : P a) : P (endState (frame.share span names a)) :=
      ih (fun m other member => marks m other (List.mem_cons_of_mem _ member))
        (fun m other member => lists m other (List.mem_cons_of_mem _ member)) before
    simp only [Frame.share, bind, EStateM.bind, Eval.heap, get, getThe, MonadStateOf.get,
      EStateM.get, Pure.pure, EStateM.pure]
    cases found : frame.function? m.heap name with
    | some r => exact later (marks m name List.mem_cons_self r found start)
    | none =>
      dsimp only
      split
      · exact later (lists m name List.mem_cons_self start)
      · exact start

theorem hand_all (m : Module) (file : String) (span : Span) (frame : Frame) (n : Machine) :
    m.hand file .all span ⟨frame, n⟩ =
      .ok () ⟨{ frame with vars := frame.vars.overlay m.frame.vars },
        { n with heap := (m.functions n.heap).foldl (m.pass frame.table) n.heap }⟩ := by
  have read (a : Machine) : Eval.heap a = .ok a.heap a := rfl
  simp only [Module.hand, bind, EStateM.bind, Exec.eval, modify, modifyGet,
    MonadStateOf.modifyGet, EStateM.modifyGet, read, define_eq]

/-- What handing on functions and variables of a module keeps. -/
theorem hand_keeps {P : Machine → Prop} {m : Module} {file : String} {items : Selection}
    {span : Span} {frame : Frame} {n : Machine}
    (passes : ∀ a e, items.Selects e.1 →
      (e ∈ m.functions n.heap ∨ m.function? a.heap e.1 = some e.2) → P a →
        P { a with heap := m.pass frame.table a.heap e })
    (start : P n) :
    (endState (m.hand file items span ⟨frame, n⟩)).frame.table = frame.table ∧
      P (endState (m.hand file items span ⟨frame, n⟩)).machine := by
  cases items with
  | all =>
    rw [hand_all]
    have bound (fs : List (String × FunctionRef)) (sub : ∀ e ∈ fs, e ∈ m.functions n.heap)
        {a : Machine} (before : P a) :
        P { a with heap := fs.foldl (m.pass frame.table) a.heap } := by
      induction fs generalizing a with
      | nil => exact before
      | cons e fs ih =>
        obtain ⟨first, others⟩ := List.forall_mem_cons.1 sub
        exact ih others (passes a e trivial (.inl first) before)
    exact ⟨rfl, bound _ (fun _ => id) start⟩
  | names names =>
    have bound (names' : List String) (sub : ∀ name ∈ names', name ∈ names) {s : State}
        (table : s.frame.table = frame.table) (before : P s.machine) :
        (endState (m.bind file span names' s)).frame.table = frame.table ∧
          P (endState (m.bind file span names' s)).machine := by
      induction names' generalizing s with
      | nil => exact ⟨table, before⟩
      | cons name names' ih =>
        obtain ⟨first, others⟩ := List.forall_mem_cons.1 sub
        cases function : m.function? s.machine.heap name with
        | some r =>
          rw [bind_function function, table]
          exact ih others table (passes s.machine (name, r) first (.inr function) before)
        | none =>
          cases value : m.frame.get? name with
          | some v =>
            rw [bind_value function value]
            exact ih others table before
          | none =>
            rw [bind_neither function value]
            exact ⟨table, before⟩
    exact bound names (fun _ => id) rfl start

/-- An invariant of the machine for each context of a known script, what may be executed there, and
what is known of the moments of a run. -/
structure Watch where
  known : Context → Prop
  may : Context → Stmt → Prop
  within : Context → Machine → Prop
  noted : Moment → Prop

namespace Watch

/-- A statement that may be executed, at a moment within the invariant. -/
structure Held (w : Watch) (k : Moment) : Prop where
  may : w.may k.host.context k.statement
  within : w.within k.host.context k.state.machine
  host : k.host = .of k.host.steps k.host.context

/-- What makes functions, shares them or hands them on keeps the invariant. -/
structure Law (w : Watch) : Prop where
  same : ∀ {c m n}, w.within c m → m.Same n → w.within c n
  newTable : ∀ {c m}, w.within c m → w.within c { m with heap := m.heap.newTable.2 }
  members : ∀ {c m x d}, w.within c m → w.may c x → d ∈ x.decls →
    w.within c { m with heap := (m.heap.newFunction ⟨d, none, false⟩).2 }
  copies : ∀ {c m} (r frame), w.within c m →
    w.within c { m with heap :=
      (m.heap.newFunction { m.heap.function r with scope := some frame }).2 }
  declares : ∀ {c m d span} (t), w.may c (.function d span) → w.within c m →
    w.within c { m with heap := m.heap.bindNew t d.name ⟨d, none, false⟩ }
  marks : ∀ {host names span s m name r}, w.noted ⟨host, .share names span, s⟩ → name ∈ names →
    s.frame.function? m.heap name = some r → w.within host.context m →
      w.within host.context { m with heap := m.heap.markShared r }
  lists : ∀ {host names span s m name}, w.noted ⟨host, .share names span, s⟩ → name ∈ names →
    w.within host.context m → w.within host.context { m with shared := m.shared.insert name () }
  hands : ∀ {host file items span s m n}, w.Held ⟨host, .imports file items span, s⟩ →
    w.noted ⟨host, .imports file items span, s⟩ →
    Module.ofFile host .importing file span s.machine = .ok m n → w.within host.context n →
      w.within host.context (endState (m.hand file items span ⟨s.frame, n⟩)).machine
  enter : ∀ {c p m}, w.within c m → w.within (c.module p) { m with shared := .empty }
  leave : ∀ {c p m n}, w.within c m → w.within (c.module p) n →
    w.within c { n with shared := m.shared }
  bodies : ∀ {c m}, w.known c → w.within c m →
    ∀ r, ∀ x ∈ blockParts (m.heap.function r).decl.body, w.may c x
  modules : ∀ {c p}, w.known c → c.Runs p → w.known (c.module p)
  texts : ∀ {c p text b}, w.known c → c.Runs p → c.files.read p = .ok text → parse text = .ok b →
    ∀ x ∈ blockParts b, w.may (c.module p) x

variable {w : Watch} {c : Context} {view : σ → Machine}

/-- Within the invariant, and with such moments, `x` stays within it and executes what may be. -/
def Keeps (w : Watch) (c : Context) (view : σ → Machine) (x : EStateM Halt σ α) (l : Log σ) :
    Prop :=
  ∀ s, w.within c (view s) → (∀ k ∈ l s, w.noted k) →
    w.within c (view (endState (x s))) ∧ ∀ k ∈ l s, w.Held k

abbrev EvalKeeps (w : Watch) (c : Context) (x : Eval α) (l : Log Machine) : Prop :=
  w.Keeps c (fun m => m) x l

abbrev ExecKeeps (w : Watch) (c : Context) (x : Exec α) (l : Log State) : Prop :=
  w.Keeps c State.machine x l

namespace Keeps

variable {x : EStateM Halt σ α} {l : Log σ}

theorem silent (h : ∀ s, w.within c (view s) → w.within c (view (endState (x s)))) :
    w.Keeps c view x .silent :=
  fun s start _ => ⟨h s start, List.forall_mem_nil _⟩

theorem pure (a : α) : w.Keeps c view (Pure.pure a) .silent := silent fun _ => id

theorem throw (e : Halt) : w.Keeps c view (throw e : EStateM Halt σ α) .silent := silent fun _ => id

theorem chain {f : α → EStateM Halt σ β} {l' : α → Log σ} (first : w.Keeps c view x l)
    (next : ∀ a, w.Keeps c view (f a) (l' a)) : w.Keeps c view (x >>= f) (.chain x l l') := by
  intro s start noted
  change w.within c (view (endState (EStateM.bind x f s))) ∧ _
  unfold Log.chain at noted ⊢
  unfold EStateM.bind
  obtain ⟨noted, noted'⟩ := List.forall_mem_append.1 noted
  obtain ⟨mid, held⟩ := first s start noted
  cases run : x s with
  | ok a t =>
    rw [run] at mid noted'
    obtain ⟨final, held'⟩ := next a t mid noted'
    exact ⟨final, List.forall_mem_append.2 ⟨held, held'⟩⟩
  | error e t =>
    rw [run] at mid
    exact ⟨mid, List.forall_mem_append.2 ⟨held, List.forall_mem_nil _⟩⟩

theorem after {f : α → EStateM Halt σ β} {l' : α → Log σ} (first : w.Keeps c view x .silent)
    (next : ∀ a, w.Keeps c view (f a) (l' a)) : w.Keeps c view (x >>= f) (.after x l') :=
  first.chain next

/-- Nothing is executed at the end. -/
theorem ended {f : α → EStateM Halt σ β} (first : w.Keeps c view x l)
    (next : ∀ a, w.Keeps c view (f a) .silent) : w.Keeps c view (x >>= f) l := by
  have whole := first.chain next
  have same : Log.chain x l (fun _ => .silent) = l := by
    funext s
    unfold Log.chain
    cases x s <;> exact List.append_nil _
  rwa [same] at whole

theorem ite {p : Prop} [Decidable p] {y : EStateM Halt σ α} {l' : Log σ}
    (yes : w.Keeps c view x l) (no : w.Keeps c view y l') :
    w.Keeps c view (if p then x else y) (if p then l else l') := by
  split
  · exact yes
  · exact no

theorem eval {f : Frame → Eval α} {l : Frame → Log Machine}
    (h : ∀ frame, w.EvalKeeps c (f frame) (l frame)) :
    w.ExecKeeps c (Exec.eval f) (.eval l) := by
  rintro ⟨frame, m⟩ start noted
  have ended := h frame m start noted
  unfold Exec.eval
  dsimp only
  cases run : f frame m with
  | ok a n =>
    rw [run] at ended
    exact ended
  | error e n =>
    rw [run] at ended
    exact ended

theorem inside {x : Exec α} {l : Log State} (h : w.ExecKeeps c x l) (frame : Frame) :
    w.EvalKeeps c (Exec.inside frame x) (.inside frame l) := by
  intro m start noted
  have ended := h ⟨frame, m⟩ start noted
  unfold Exec.inside
  cases run : x ⟨frame, m⟩ with
  | ok a s =>
    rw [run] at ended
    exact ended
  | error e s =>
    rw [run] at ended
    exact ended

section Statements

variable {host : Host} {x : Stmt} {y : Exec α} (made : host = .of host.steps host.context)
  (allowed : w.may host.context x)

include made allowed

/-- A statement is noted before what it executes. -/
theorem note {l : Log State} (h : w.ExecKeeps host.context y l) :
    w.ExecKeeps host.context y (host.note x l) := by
  intro s start noted
  obtain ⟨-, noted⟩ := List.forall_mem_cons.1 noted
  obtain ⟨final, held⟩ := h s start noted
  exact ⟨final, List.forall_mem_cons.2 ⟨⟨allowed, start, made⟩, held⟩⟩

/-- What a statement does by itself. -/
theorem lone (h : ∀ s, w.noted ⟨host, x, s⟩ → w.within host.context s.machine →
      w.within host.context (endState (y s)).machine) :
    w.ExecKeeps host.context y (host.note x .silent) :=
  fun s start noted => ⟨h s (noted _ List.mem_cons_self) start,
    List.forall_mem_singleton.2 ⟨allowed, start, made⟩⟩

end Statements

end Keeps

/-- The host of a run keeps the invariant with blocks of what may be executed in a known context. -/
structure HostKeeps (w : Watch) (host : Host) (nested : Context → Block → Log State) : Prop where
  made : host = .of host.steps host.context
  blocks : ∀ c b, w.known c → (∀ x ∈ blockParts b, w.may c x) →
    w.ExecKeeps c (host.nested c b) (nested c b)

namespace Law

variable {host : Host} {nested : Context → Block → Log State}

section Calls

variable (law : w.Law)

include law

/-- What changes neither functions nor shared variables. -/
theorem still {x : Eval α} (h : Stays Machine.Same x) : w.EvalKeeps c x .silent :=
  Keeps.silent fun m start => law.same start (h m)

omit law in
theorem assign (name : String) (v : Value) : w.ExecKeeps c (Exec.assign name v) .silent :=
  Keeps.silent fun _ start => start

variable (bodies : w.HostKeeps host nested) (known : w.known host.context)

/-! Calls. -/

include known in
/-- Bodies on the heap may be executed. -/
theorem read {f : Heap → Eval α} {l : Heap → Log Machine}
    (next : ∀ heap : Heap,
      (∀ r, ∀ x ∈ blockParts (heap.function r).decl.body, w.may host.context x) →
        w.EvalKeeps host.context (f heap) (l heap)) :
    w.EvalKeeps host.context (Eval.heap >>= f) (.after Eval.heap l) :=
  fun m start noted => next m.heap (law.bodies known start) m start noted

include bodies known

theorem body {f : Function} (inner : ∀ x ∈ blockParts f.decl.body, w.may host.context x)
    (frame : Frame) :
    w.EvalKeeps host.context (host.body f frame) (host.bodyLog nested f frame) := by
  have blocks := bodies.blocks host.context f.decl.body known inner
  refine (Keeps.inside blocks frame).ended fun flow => ?_
  cases flow with
  | done => exact .pure _
  | gave v => exact .pure v
  | left => exact law.still (Machine.same_law.fail _ _)

theorem call (caller : Frame) (r : FunctionRef) (args : List Value) (s : Span) :
    w.EvalKeeps host.context (host.call caller r args s) (host.callLog nested caller r args s) :=
  law.read known fun _ inner =>
    (law.still (Machine.same_law.checkArity _ args s)).after fun _ =>
      law.body bodies known (inner r) _

theorem callMethod (caller : Frame) (r : FunctionRef) (self : Value) (args : List Value)
    (s : Span) :
    w.EvalKeeps host.context (host.callMethod caller r self args s)
      (host.callMethodLog nested caller r self args s) :=
  law.read known fun _ inner =>
    (law.still (Machine.same_law.checkArity _ args s)).after fun _ =>
      law.body bodies known (inner r) _

theorem construct (caller : Frame) (cls : Class) (r : FunctionRef) (self : Value)
    (args : List Value) (s : Span) :
    w.EvalKeeps host.context (host.construct caller cls r self args s)
      (host.constructLog nested caller cls r self args) := by
  refine law.read known fun heap inner => Keeps.ite ?_ ?_
  · exact law.still fun m => Machine.same_law.refl m
  · exact (law.body bodies known (inner r) _).ended fun _ => .pure _

theorem create (caller : Frame) (r : ClassRef) (args : List Value) (s : Span) :
    w.EvalKeeps host.context (host.create caller r args s)
      (host.createLog nested caller r args) := by
  refine law.read known fun heap _ => ?_
  refine (law.still (Machine.same_law.object _)).after fun self => ?_
  dsimp only
  cases (heap.cls r).constructor with
  | some f =>
    exact (law.construct bodies known caller _ f self args s).ended fun _ => .pure self
  | none =>
    exact law.still (Stays.ite (Machine.same_law.bind (Machine.same_law.fail _ s) fun _ =>
      Machine.same_law.pure self) (Machine.same_law.pure self))

theorem callOn (caller : Frame) (v : Value) (name : String) (callee : Callee) (args : List Value)
    (s : Span) :
    w.EvalKeeps host.context (host.callOn caller v name callee args s)
      (host.callOnLog nested caller v callee args s) := by
  cases callee with
  | method r => exact law.callMethod bodies known caller r v args s
  | function r => exact law.call bodies known caller r args s
  | cls r => exact law.create bodies known caller r args s
  | builtin => exact law.still (Machine.same_law.callBuiltin v name args _ s)

end Calls

/-! Expressions. -/

theorem truth (law : w.Law) {x : Eval Value} {l : Log Machine} (h : w.EvalKeeps c x l) :
    w.EvalKeeps c (Eval.truth x) l :=
  h.ended fun _ => law.still (Machine.same_law.bind Machine.same_law.heap fun _ =>
    Machine.same_law.pure _)

mutual

theorem evaluate (law : w.Law) (bodies : w.HostKeeps host nested)
    (known : w.known host.context) (frame : Frame) (e : Expr) :
    w.EvalKeeps host.context (host.evaluate frame e) (host.evaluateLog nested frame e) := by
  have lifted {x : Heap → Except RunFault Value} (s : Span) :
      w.EvalKeeps host.context (Eval.heap >>= fun h => Eval.lift (x h) s) .silent :=
    law.still (Machine.same_law.bind Machine.same_law.heap fun _ => Machine.same_law.lift _ s)
  cases e with
  | literal v s => exact .pure _
  | name x s => exact law.still (Machine.same_law.lookup frame x s)
  | binary op l r s =>
    exact (evaluate law bodies known frame l).chain fun u =>
      (evaluate law bodies known frame r).ended fun v => lifted s
  | negate e s =>
    exact (evaluate law bodies known frame e).ended fun v => law.still (Machine.same_law.lift _ s)
  | logic op l r s =>
    refine (law.truth (evaluate law bodies known frame l)).chain fun b => Keeps.ite (.pure _) ?_
    exact (law.truth (evaluate law bodies known frame r)).ended fun _ => .pure _
  | call x args s =>
    refine (law.still (Machine.same_law.called frame x s)).after fun r => ?_
    exact (evaluateAll law bodies known frame args).chain fun vs =>
      law.call bodies known frame r vs s
  | method e x args s =>
    refine (evaluate law bodies known frame e).chain fun v => ?_
    refine (law.still (Machine.same_law.callee v x s)).after fun callee => ?_
    exact (evaluateAll law bodies known frame args).chain fun vs =>
      law.callOn bodies known frame v x callee vs s
  | property e x s =>
    exact (evaluate law bodies known frame e).ended fun v =>
      law.still (Machine.same_law.property v x s)
  | index e i s =>
    exact (evaluate law bodies known frame e).chain fun v =>
      (evaluate law bodies known frame i).ended fun key => lifted s
  | group e s => exact evaluate law bodies known frame e
  | list items s =>
    exact (evaluateAll law bodies known frame items).ended fun vs =>
      law.still (Machine.same_law.list _)
  | object entries s =>
    exact (evaluateEntries law bodies known frame entries .empty).ended fun o =>
      law.still (Machine.same_law.object o)
  | create path args s =>
    refine law.read known fun heap _ => ?_
    refine (law.still (Machine.same_law.lift _ s)).after fun r => ?_
    exact (evaluateAll law bodies known frame args).chain fun vs =>
      law.create bodies known frame r vs s

theorem evaluateAll (law : w.Law) (bodies : w.HostKeeps host nested)
    (known : w.known host.context) (frame : Frame) (es : List Expr) :
    w.EvalKeeps host.context (host.evaluateAll frame es) (host.evaluateAllLog nested frame es) := by
  cases es with
  | nil => exact .pure _
  | cons e es =>
    exact (evaluate law bodies known frame e).chain fun v =>
      (evaluateAll law bodies known frame es).ended fun _ => .pure _

theorem evaluateEntries (law : w.Law) (bodies : w.HostKeeps host nested)
    (known : w.known host.context) (frame : Frame) (es : List (String × Expr)) (o : Object Value) :
    w.EvalKeeps host.context (host.evaluateEntries frame es o)
      (host.evaluateEntriesLog nested frame es o) := by
  match es with
  | [] => exact .pure o
  | (key, e) :: rest =>
    exact (evaluate law bodies known frame e).chain fun v =>
      evaluateEntries law bodies known frame rest _

end

/-! Loops. -/

section Loops

variable {body : Exec Flow} {l : Log State}

theorem onward {rest : Exec Flow} (h : w.ExecKeeps c rest l) (flow : Flow) :
    w.ExecKeeps c
      (match flow with
        | .done => rest
        | .left => return .done
        | .gave v => return .gave v)
      (Log.onward l flow) := by
  cases flow with
  | done => exact h
  | left => exact .pure _
  | gave v => exact .pure _

theorem repeatWhile {test : Exec Bool} {tests : Log State} (asks : w.ExecKeeps c test tests)
    (runs : w.ExecKeeps c body l) (n : Nat) :
    w.ExecKeeps c (Exec.repeatWhile test body n) (.repeatWhile test tests body l n) := by
  induction n with
  | zero => exact .throw _
  | succ n ih =>
    refine asks.chain fun holds => ?_
    cases holds with
    | true => exact runs.chain fun flow => onward ih flow
    | false => exact .pure _

theorem visit (runs : w.ExecKeeps c body l) (rounds : List (List (String × Value))) :
    w.ExecKeeps c (Exec.visit body rounds) (.visit body l rounds) := by
  have assigned (bindings : List (String × Value)) :
      w.ExecKeeps c (bindings.forM fun b => Exec.assign b.1 b.2) .silent := by
    induction bindings with
    | nil => exact .pure _
    | cons b bindings ih => exact (assign b.1 b.2).after fun _ => ih
  induction rounds with
  | nil => exact .pure _
  | cons bindings rounds ih =>
    exact (assigned bindings).after fun _ => runs.chain fun flow => onward ih flow

theorem count (name : String) (runs : w.ExecKeeps c body l) (n : Nat) (i : Int) :
    w.ExecKeeps c (Exec.count name body n i) (.count name body l n i) := by
  induction n generalizing i with
  | zero => exact .pure _
  | succ n ih =>
    exact (assign name _).after fun _ => runs.chain fun flow => onward (ih (i + 1)) flow

end Loops

/-! Modules. -/

section Programs

variable {run : Block → Exec Flow} {l : Block → Log State}

theorem topLevel {b : Block} (runs : ∀ x ∈ b, w.ExecKeeps c (run [x]) (l [x])) :
    w.ExecKeeps c (topLevel run b) (.topLevel run l b) := by
  induction b with
  | nil => exact .pure _
  | cons x b ih =>
    obtain ⟨first, others⟩ := List.forall_mem_cons.1 runs
    refine first.chain fun flow => ?_
    cases flow with
    | done => exact ih others
    | left => exact .throw _
    | gave v => exact .throw _

theorem program {b : Block} (runs : ∀ x ∈ b, w.ExecKeeps c (run [x]) (l [x])) :
    w.ExecKeeps c (runProgram run b) (.program run l b) := by
  refine topLevel fun x member => runs x ?_
  rcases List.mem_append.1 member with first | later
  · exact (List.mem_filter.1 first).1
  · exact (List.mem_filter.1 later).1

theorem source {text : String} (runs : ∀ b, parse text = .ok b →
      ∀ x ∈ b, w.ExecKeeps c (run [x]) (l [x])) :
    w.ExecKeeps c (runSource run text) (.source run l text) := by
  unfold runSource Log.source
  cases parsed : parse text with
  | ok b => exact program (runs b parsed)
  | error e => exact .throw _

end Programs

/-- A module leaves its machine, but for the shared variables, which are those from before. -/
theorem endState_run (access : Access) (file : String) (s : Span) (x : Exec Unit) (m : Machine) :
    endState (Module.run access file s x m) =
      { (endState (x ⟨(Frame.new m.heap).1, (Frame.new m.heap).2, m.output, .empty⟩)).machine with
        shared := m.shared } := by
  unfold Module.run
  dsimp only
  cases x ⟨(Frame.new m.heap).1, (Frame.new m.heap).2, m.output, .empty⟩ with
  | ok a t => rfl
  | error e t => cases e <;> rfl

/-- How the text of a module ends that runs through. -/
theorem ran_through {access : Access} {file : String} {s : Span} {x : Exec Unit} {a n : Machine}
    {m : Module} (ran : Module.run access file s x a = .ok m n) :
    x ⟨(Frame.new a.heap).1, (Frame.new a.heap).2, a.output, .empty⟩ =
      .ok () ⟨m.frame, { n with shared := m.shared }⟩ := by
  unfold Module.run at ran
  dsimp only at ran
  cases ended : x ⟨(Frame.new a.heap).1, (Frame.new a.heap).2, a.output, .empty⟩ with
  | ok u t =>
    rw [ended] at ran
    cases ran
    rfl
  | error e t =>
    rw [ended] at ran
    cases e <;> cases ran

theorem module (law : w.Law) (p : Path) {x : Exec Unit} {l : Log State}
    (h : w.ExecKeeps (c.module p) x l) (access : Access) (file : String) (s : Span) :
    w.EvalKeeps c (Module.run access file s x) (.module l) := by
  intro m start noted
  have ended := h ⟨(Frame.new m.heap).1, (Frame.new m.heap).2, m.output, .empty⟩
    (law.newTable (law.enter start)) noted
  rw [endState_run]
  exact ⟨law.leave start ended.1, ended.2⟩

/-- A file is not run, or else its text is, in a context of its own. -/
theorem ofFile_cases (host : Host) (nested : Context → Block → Log State) (access : Access)
    (file : String) (s : Span) :
    (∃ f, Module.ofFile host access file s = Eval.raise f s ∧
      host.ofFileLog nested file = .silent) ∨
    ∃ p text, host.context.files.resolve (host.context.locate file) = some p ∧
      host.context.Runs p ∧ host.context.files.read p = .ok text ∧
      Module.ofFile host access file s =
        Module.run access file s (runSource (host.nested (host.context.module p)) text) ∧
      host.ofFileLog nested file = .module
        (.source (host.nested (host.context.module p)) (nested (host.context.module p)) text) := by
  unfold Module.ofFile Host.ofFileLog
  dsimp only
  cases found : host.context.files.resolve (host.context.locate file) with
  | none => exact .inl ⟨_, rfl, rfl⟩
  | some p =>
    dsimp only
    by_cases running : host.context.chain.contains p
    · rw [if_pos running, if_pos running]
      exact .inl ⟨_, rfl, rfl⟩
    rw [if_neg running, if_neg running]
    cases read : host.context.files.read p with
    | error reason => exact .inl ⟨_, rfl, rfl⟩
    | ok text =>
      have runs : host.context.Runs p :=
        ⟨fun member => running (List.contains_iff_mem.2 member), file, text, found, read⟩
      exact .inr ⟨p, text, rfl, runs, read, rfl, rfl⟩

section Files

variable (law : w.Law) (bodies : w.HostKeeps host nested) (known : w.known host.context)

include law bodies known

theorem moduleText {p : Path} {text : String} (runs : host.context.Runs p)
    (read : host.context.files.read p = .ok text) :
    w.ExecKeeps (host.context.module p) (runSource (host.nested (host.context.module p)) text)
      (.source (host.nested (host.context.module p)) (nested (host.context.module p)) text) := by
  refine source fun b parsed x member => ?_
  refine bodies.blocks _ _ (law.modules known runs) fun y part => ?_
  have part : y ∈ x.parts := by simpa [blockParts] using part
  exact law.texts known runs read parsed y (blockParts_of_mem member part)

theorem ofFile (access : Access) (file : String) (s : Span) :
    w.EvalKeeps host.context (Module.ofFile host access file s) (host.ofFileLog nested file) := by
  rcases ofFile_cases host nested access file s with
    ⟨f, faults, silent⟩ | ⟨p, text, -, runs, read, ran, logged⟩
  · rw [faults, silent]
    exact .throw _
  · rw [ran, logged]
    exact law.module p (law.moduleText bodies known runs read) access file s

/-- A module ends within the invariant for its own context. -/
theorem ofFile_ended {access : Access} {file : String} {s : Span} {a n : Machine} {m : Module}
    (ran : Module.ofFile host access file s a = .ok m n) (start : w.within host.context a)
    (noted : ∀ k ∈ host.ofFileLog nested file a, w.noted k) :
    ∃ p, host.context.files.resolve (host.context.locate file) = some p ∧
      w.within (host.context.module p) { n with shared := m.shared } := by
  rcases ofFile_cases host nested access file s with
    ⟨f, faults, -⟩ | ⟨p, text, found, runs, read, whole, logged⟩
  · rw [faults] at ran
    cases ran
  · rw [whole] at ran
    rw [logged] at noted
    have ended := (law.moduleText bodies known runs read
      ⟨(Frame.new a.heap).1, (Frame.new a.heap).2, a.output, .empty⟩
      (law.newTable (law.enter start)) noted).1
    rw [ran_through ran] at ended
    exact ⟨p, found, ended⟩

end Files

theorem collect (law : w.Law) (m : Module) (fs : List (String × FunctionRef)) (o : Object Value) :
    w.EvalKeeps c (m.collect fs o) .silent := by
  induction fs generalizing o with
  | nil => exact .pure o
  | cons f fs ih =>
    have copied : w.EvalKeeps c (m.exported f.2) .silent :=
      Keeps.silent fun a start => law.copies f.2 m.frame start
    exact copied.ended fun copy => ih _

/-! Statements. -/

section Statements

variable (law : w.Law) (bodies : w.HostKeeps host nested) (known : w.known host.context)

include law bodies known

theorem evaluated (e : Expr) :
    w.ExecKeeps host.context (Exec.eval fun frame => host.evaluate frame e)
      (.eval fun frame => host.evaluateLog nested frame e) :=
  Keeps.eval fun frame => law.evaluate bodies known frame e

theorem tested (e : Expr) :
    w.ExecKeeps host.context (Exec.eval fun frame => Eval.truth (host.evaluate frame e))
      (.eval fun frame => host.evaluateLog nested frame e) :=
  Keeps.eval fun frame => law.truth (law.evaluate bodies known frame e)

theorem bound (e : Expr) :
    w.ExecKeeps host.context (host.bound e)
      (.eval fun frame => host.evaluateLog nested frame e) := by
  refine Keeps.eval fun frame => (law.evaluate bodies known frame e).ended fun v => ?_
  cases v with
  | int n => exact .pure n
  | _ => exact law.still (Machine.same_law.fail _ _)

theorem iterate (header : Header) (s : Span) {body : Exec Flow} {l : Log State}
    (runs : w.ExecKeeps host.context body l) :
    w.ExecKeeps host.context (host.iterate header s body)
      (host.iterateLog nested header s body l) := by
  have listed {α : Type} (e : Expr) (view : Heap → Value → Except RunFault α) (frame : Frame) :
      w.EvalKeeps host.context (do
          let v ← host.evaluate frame e
          Eval.lift (view (← Eval.heap) v) s)
        (host.evaluateLog nested frame e) :=
    (law.evaluate bodies known frame e).ended fun v => law.still <|
      Machine.same_law.bind Machine.same_law.heap fun _ => Machine.same_law.lift _ s
  cases header with
  | range x a b =>
    exact (law.bound bodies known a).chain fun i => (law.bound bodies known b).chain fun j =>
      count x runs _ _
  | each x e => exact (Keeps.eval (listed e Heap.items)).chain fun vs => visit runs _
  | pairs x y e => exact (Keeps.eval (listed e Heap.pairs)).chain fun ps => visit runs _

theorem assignTo (target : Target) (v : Value) (s : Span) :
    w.ExecKeeps host.context (host.assign target v s) (host.assignLog nested target) := by
  unfold Host.assign Host.assignLog
  cases target with
  | name x => exact assign x v
  | index e i =>
    refine Keeps.eval fun frame => (law.evaluate bodies known frame e).chain fun o => ?_
    refine (law.evaluate bodies known frame i).ended fun key => law.still ?_
    exact Machine.same_law.bind Machine.same_law.heap fun h =>
      Machine.same_law.changeBy (fun f answer => Machine.same_law.setIndexed answer) s
  | property e x =>
    refine Keeps.eval fun frame => (law.evaluate bodies known frame e).ended fun o => law.still ?_
    exact Machine.same_law.changeBy (fun f answer => Machine.same_law.setProperty answer) s

theorem addMembers (detached : Frame) {x : Stmt} (allowed : w.may host.context x)
    {ms : List Member} (own : ∀ m ∈ ms, ∀ d ∈ m.decl?, d ∈ x.decls) (cls : Class) :
    w.EvalKeeps host.context (host.addMembers detached ms cls)
      (host.membersLog nested detached ms) := by
  induction ms generalizing cls with
  | nil => exact .pure cls
  | cons m ms ih =>
    obtain ⟨first, others⟩ := List.forall_mem_cons.1 own
    have made (d : Decl) (is : m.decl? = some d) :
        w.EvalKeeps host.context (Eval.onHeap (·.newFunction ⟨d, none, false⟩)) .silent :=
      Keeps.silent fun a start => law.members start allowed (first d is)
    cases m with
    | property y e s =>
      exact (law.evaluate bodies known detached e).chain fun v => ih others _
    | method d => exact (made d rfl).after fun r => ih others _
    | constructor d => exact (made d rfl).after fun r => ih others _

theorem declaredClass (frame : Frame) {name : String} {parent : Option ClassPath}
    {ms : List Member} {s : Span} (allowed : w.may host.context (.cls name parent ms s)) :
    w.EvalKeeps host.context (host.declaredClass frame name parent ms s)
      (host.classLog nested frame parent ms s) := by
  have own : ∀ m ∈ ms, ∀ d ∈ m.decl?, d ∈ (Stmt.cls name parent ms s).decls :=
    fun m member d is => List.mem_filterMap.2 ⟨m, member, is⟩
  have new : w.EvalKeeps host.context (Eval.onHeap Frame.new) .silent :=
    Keeps.silent fun a start => law.newTable start
  have built (p : Option ClassRef) : w.EvalKeeps host.context (do
      let c := Class.under (← Eval.heap) name p
      let detached ← Eval.onHeap Frame.new
      let c ← host.addMembers detached ms c
      return Value.cls (← Eval.onHeap (·.newClass c)))
      (.after Eval.heap fun _ => .after (Eval.onHeap Frame.new) fun detached =>
        host.membersLog nested detached ms) := by
    refine (law.still Machine.same_law.heap).after fun h => new.after fun detached => ?_
    refine (law.addMembers bodies known detached allowed own _).ended fun cls => law.still ?_
    exact Machine.same_law.bind (fun m => ⟨rfl, rfl, rfl⟩) fun _ => Machine.same_law.pure _
  cases parent with
  | none => exact (Keeps.pure none).after built
  | some path =>
    have resolved : w.EvalKeeps host.context (do
        return some (← Eval.lift ((← Eval.heap).resolveClass frame path) s)) .silent :=
      law.still <| Machine.same_law.bind Machine.same_law.heap fun _ =>
        Machine.same_law.bind (Machine.same_law.lift _ s) fun _ => Machine.same_law.pure _
    exact resolved.after built

theorem construction (frame : Frame) (args : List Expr) (s : Span) :
    w.EvalKeeps host.context (do
        let (self, cls, f) ← frame.parentConstructor s
        let vs ← host.evaluateAll frame args
        host.construct frame cls f self vs s)
      (host.superLog nested frame args s) := by
  refine (law.still (Machine.same_law.parentConstructor frame s)).after ?_
  rintro ⟨self, cls, f⟩
  exact (law.evaluateAll bodies known frame args).chain fun vs =>
    law.construct bodies known frame cls f self vs s

/-- The module is run, and then what it shares is handed on. -/
theorem imports {file : String} {items : Selection} {s : Span}
    (allowed : w.may host.context (.imports file items s)) :
    w.ExecKeeps host.context (host.execute (.imports file items s))
      (host.note (.imports file items s) (host.executeLog nested (.imports file items s))) := by
  intro t start noted
  obtain ⟨own, noted⟩ := List.forall_mem_cons.1 noted
  obtain ⟨mid, held⟩ := law.ofFile bodies known .importing file s t.machine start noted
  refine ⟨?_, List.forall_mem_cons.2 ⟨⟨allowed, start, bodies.made⟩, held⟩⟩
  unfold Host.execute
  rw [importFile_eq]
  simp only [bind, EStateM.bind, Exec.eval]
  cases ran : Module.ofFile host .importing file s t.machine with
  | error e n =>
    rw [ran] at mid
    exact mid
  | ok m n =>
    rw [ran] at mid
    have handed := law.hands ⟨allowed, start, bodies.made⟩ own ran mid
    dsimp only
    cases ended : m.hand file items s ⟨t.frame, n⟩ with
    | ok a u =>
      rw [ended] at handed
      exact handed
    | error e u =>
      rw [ended] at handed
      exact handed

theorem loadFile (file name : String) (s : Span) :
    w.ExecKeeps host.context (host.loadFile file name s)
      (.eval fun _ => host.ofFileLog nested file) := by
  have loaded : w.EvalKeeps host.context (do
        let m ← Module.ofFile host .loading file s
        let o := Object.empty.setAll m.sharedVars
        let o ← m.collect (m.functions (← Eval.heap)) o
        Eval.newObject o)
      (host.ofFileLog nested file) := by
    refine (law.ofFile bodies known .loading file s).ended fun m => ?_
    refine (law.still Machine.same_law.heap).ended fun h => ?_
    exact (law.collect m _ _).ended fun o => law.still (Machine.same_law.object o)
  exact (Keeps.eval fun _ => loaded).ended fun v => assign name v

end Statements

mutual

theorem execute (law : w.Law) (bodies : w.HostKeeps host nested) (known : w.known host.context)
    (x : Stmt) (allowed : ∀ y ∈ x.parts, w.may host.context y) :
    w.ExecKeeps host.context (host.execute x) (host.note x (host.executeLog nested x)) := by
  have here := allowed x x.mem_parts
  cases x with
  | expression e s =>
    exact Keeps.note bodies.made here ((law.evaluated bodies known e).ended fun _ => .pure _)
  | print e s =>
    have printed (v : Value) : w.EvalKeeps host.context (host.print v s) .silent :=
      law.still (Machine.same_law.print v s)
    have shown (frame : Frame) := (law.evaluate bodies known frame e).ended printed
    exact Keeps.note bodies.made here ((Keeps.eval shown).ended fun _ => .pure _)
  | assign target e s =>
    refine Keeps.note bodies.made here ((law.evaluated bodies known e).chain fun v => ?_)
    exact (law.assignTo bodies known target v s).ended fun _ => .pure _
  | branch bs o s =>
    simp only [Stmt.parts, List.forall_mem_cons, List.forall_mem_append] at allowed
    obtain ⟨-, first, final⟩ := allowed
    have chosen := executeBranches law bodies known bs first
    cases o with
    | none =>
      refine Keeps.note bodies.made here (chosen.chain fun flow => ?_)
      cases flow with
      | some flow => exact .pure flow
      | none => exact .pure _
    | some b =>
      refine Keeps.note bodies.made here (chosen.chain fun flow => ?_)
      cases flow with
      | some flow => exact .pure flow
      | none => exact executeBlock law bodies known b final
  | loop e b s =>
    simp only [Stmt.parts, List.forall_mem_cons] at allowed
    exact Keeps.note bodies.made here (repeatWhile (law.tested bodies known e)
      (executeBlock law bodies known b allowed.2) _)
  | iterate header b s =>
    simp only [Stmt.parts, List.forall_mem_cons] at allowed
    exact Keeps.note bodies.made here (law.iterate bodies known header s
      (executeBlock law bodies known b allowed.2))
  | leave s => exact Keeps.note bodies.made here (.pure _)
  | give value s =>
    cases value with
    | none => exact Keeps.note bodies.made here (.pure _)
    | some e =>
      exact Keeps.note bodies.made here ((law.evaluated bodies known e).ended fun _ => .pure _)
  | function d s =>
    exact Keeps.lone bodies.made here fun t _ start => law.declares t.frame.table here start
  | init d s =>
    exact Keeps.note bodies.made here (Keeps.eval fun _ => law.still (Machine.same_law.fail _ s))
  | cls name parent ms s =>
    have declared (frame : Frame) := law.declaredClass bodies known frame here
    exact Keeps.note bodies.made here ((Keeps.eval declared).ended fun v =>
      (assign name v).after fun _ => .pure _)
  | super args s =>
    have built (frame : Frame) := law.construction bodies known frame args s
    exact Keeps.note bodies.made here ((Keeps.eval built).ended fun _ => .pure _)
  | share names s =>
    refine Keeps.lone bodies.made here fun t own start => ?_
    rw [Host.execute, endState_effect]
    exact share_keeps s (fun m name member r found => law.marks own member found)
      (fun m name member => law.lists own member) start
  | imports file items s => exact law.imports bodies known here
  | load file name s =>
    exact Keeps.note bodies.made here
      ((law.loadFile bodies known file name s).ended fun _ => .pure _)

theorem executeBlock (law : w.Law) (bodies : w.HostKeeps host nested)
    (known : w.known host.context) (b : List Stmt)
    (allowed : ∀ y ∈ blockParts b, w.may host.context y) :
    w.ExecKeeps host.context (host.executeBlock b) (host.blockLog nested b) := by
  cases b with
  | nil => exact .pure _
  | cons x b =>
    simp only [blockParts, List.forall_mem_append] at allowed
    refine (execute law bodies known x allowed.1).chain fun flow => ?_
    cases flow with
    | done => exact executeBlock law bodies known b allowed.2
    | left => exact .pure _
    | gave v => exact .pure _

theorem executeBranches (law : w.Law) (bodies : w.HostKeeps host nested)
    (known : w.known host.context) (bs : List (Expr × List Stmt))
    (allowed : ∀ y ∈ branchParts bs, w.may host.context y) :
    w.ExecKeeps host.context (host.executeBranches bs) (host.branchesLog nested bs) := by
  match bs with
  | [] => exact .pure _
  | (e, b) :: rest =>
    simp only [branchParts, List.forall_mem_append] at allowed
    refine (law.tested bodies known e).chain fun holds => ?_
    cases holds with
    | true => exact (executeBlock law bodies known b allowed.1).ended fun _ => .pure _
    | false => exact executeBranches law bodies known rest allowed.2

end

/-- A run, however deep it nests, keeps the invariant. -/
theorem run (law : w.Law) (limit : Nat) (known : w.known c) {b : Block}
    (allowed : ∀ x ∈ blockParts b, w.may c x) :
    w.ExecKeeps c (Script.run limit c b) (runLog limit c b) := by
  induction limit generalizing c b with
  | zero => exact .throw _
  | succ n ih =>
    have bodies : w.HostKeeps (.of n c) (runLog n) := ⟨rfl, fun c b known => ih known⟩
    exact law.executeBlock bodies known b allowed

theorem hosts (law : w.Law) (limit : Nat) : w.HostKeeps (.of limit c) (runLog limit) :=
  ⟨rfl, fun _ _ known => law.run limit known⟩

theorem programRuns (law : w.Law) (known : w.known c) {b : Block}
    (allowed : ∀ x ∈ blockParts b, w.may c x) (limit : Nat) :
    ∀ x ∈ b, w.ExecKeeps c (Script.run limit c [x]) (runLog limit c [x]) := by
  refine fun x member => law.run limit known fun y part => ?_
  have part : y ∈ x.parts := by simpa [blockParts] using part
  exact allowed y (blockParts_of_mem member part)

/-- A source text in a context, as a step of a session. -/
theorem step (law : w.Law) (known : w.known c) {text : String}
    (allowed : ∀ b, parse text = .ok b → ∀ x ∈ blockParts b, w.may c x) :
    w.ExecKeeps c (Session.step c text) (Session.stepLog c text) :=
  source fun b parsed => law.programRuns known (allowed b parsed) _

/-- An entry that is no lone expression is run as a program. -/
theorem entry_program {c : Context} {b : Block} (other : ∀ e s, b ≠ [.expression e s]) :
    Repl.runEntry c b = runProgram (Script.run Session.unlimited c) b ∧
      Repl.entryLog c b = .program (Script.run Session.unlimited c)
        (runLog Session.unlimited c) b := by
  constructor
  · unfold Repl.runEntry
    split
    · exact absurd rfl (other _ _)
    · rfl
  · unfold Repl.entryLog
    split
    · exact absurd rfl (other _ _)
    · rfl

/-- The same as an entry of an interactive session. -/
theorem entry (law : w.Law) (known : w.known c) {b : Block}
    (allowed : ∀ x ∈ blockParts b, w.may c x) :
    w.ExecKeeps c (Repl.runEntry c b) (Repl.entryLog c b) := by
  by_cases lone : ∃ e s, b = [.expression e s]
  · obtain ⟨e, s, rfl⟩ := lone
    have bodies : w.HostKeeps (.of Session.unlimited c) _ := law.hosts Session.unlimited
    have printed (v : Value) :
        w.EvalKeeps c ((Host.of Session.unlimited c).print v e.span) .silent :=
      law.still (Machine.same_law.print v e.span)
    have here : w.may c (.expression e s) := allowed _ (by simp [blockParts, Stmt.parts])
    unfold Repl.runEntry Repl.entryLog
    refine Keeps.note bodies.made here (Keeps.eval fun frame => ?_)
    refine (law.evaluate bodies known frame e).ended fun v => ?_
    cases v with
    | null => exact .pure _
    | _ => exact printed _
  · obtain ⟨ran, logged⟩ := entry_program (c := c) fun e s same => lone ⟨e, s, same⟩
    rw [ran, logged]
    exact program (law.programRuns known allowed _)

end Law

end Watch

end Script
