import Script.Proofs.HeapLaw
import Script.Proofs.Lookup

/-! What a statement can bind. A variable of the running frame that a statement does not name as one
to be bound stays as it is, however the statement ends. Calls see a copy of the frame. -/

namespace Script

def Target.writes : Target → List String
  | .name x => [x]
  | .index .. | .property .. => []

def Header.writes : Header → List String
  | .range x _ _ | .each x _ => [x]
  | .pairs x y _ => [x, y]

def Selection.writes : Selection → List String
  | .all => []
  | .names listed => listed

mutual

/-- The variables that a statement names as ones to be bound, in its own blocks but not in the bodies
of functions, methods and constructors. -/
def Stmt.writes : Stmt → List String
  | .assign target _ _ => target.writes
  | .branch branches otherwise _ =>
    branchWrites branches ++
      match otherwise with
      | some b => blockWrites b
      | none => []
  | .loop _ body _ => blockWrites body
  | .iterate header body _ => header.writes ++ blockWrites body
  | .cls name .. => [name]
  | .imports _ items _ => items.writes
  | .load _ name _ => [name]
  | _ => []

def blockWrites : List Stmt → List String
  | [] => []
  | s :: rest => s.writes ++ blockWrites rest

def branchWrites : List (Expr × List Stmt) → List String
  | [] => []
  | (_, b) :: rest => blockWrites b ++ branchWrites rest

end

mutual

/-- Whether a statement imports all that a module binds, in its own blocks. -/
def Stmt.importsAll : Stmt → Bool
  | .imports _ .all _ => true
  | .branch branches otherwise _ =>
    branchImportsAll branches ||
      match otherwise with
      | some b => blockImportsAll b
      | none => false
  | .loop _ body _ | .iterate _ body _ => blockImportsAll body
  | _ => false

def blockImportsAll : List Stmt → Bool
  | [] => false
  | s :: rest => s.importsAll || blockImportsAll rest

def branchImportsAll : List (Expr × List Stmt) → Bool
  | [] => false
  | (_, b) :: rest => blockImportsAll b || branchImportsAll rest

end

/-- Both states have one frame. -/
def SameFrame (s t : State) : Prop :=
  t.frame = s.frame

theorem SameFrame.progress : Progress SameFrame :=
  ⟨fun _ => rfl, fun first next => next.trans first⟩

/-- Evaluations only read the frame. -/
theorem SameFrame.eval {α : Type} (f : Frame → Eval α) : Stays SameFrame (Exec.eval f) := by
  rintro ⟨frame, m⟩
  unfold SameFrame Exec.eval
  dsimp only
  cases f frame m with
  | ok a n => rfl
  | error e n => rfl

/-- The name means the same in both frames. -/
def Untouched (name : String) (s t : State) : Prop :=
  t.frame.get? name = s.frame.get? name

namespace Untouched

variable {α : Type} {name : String}

theorem progress (name : String) : Progress (Untouched name) :=
  ⟨fun _ => rfl, fun first next => next.trans first⟩

theorem eval (f : Frame → Eval α) : Stays (Untouched name) (Exec.eval f) :=
  fun s => congrArg (Frame.get? · name) (SameFrame.eval f s)

theorem assign {x : String} (other : name ≠ x) (v : Value) :
    Stays (Untouched name) (Exec.assign x v) :=
  fun s => Bindings.get?_insert_of_ne s.frame.vars other v

theorem pure (a : α) : Stays (Untouched name) (Pure.pure a) := (progress name).pure a

/-! Loops. -/

theorem next {rest : Exec Flow} (h : Stays (Untouched name) rest) (flow : Flow) :
    Stays (Untouched name)
      (match flow with
        | .done => rest
        | .left => return .done
        | .gave v => return .gave v) := by
  cases flow with
  | done => exact h
  | left => exact pure _
  | gave v => exact pure _

theorem repeatWhile {test : Exec Bool} {body : Exec Flow} (tests : Stays (Untouched name) test)
    (bodies : Stays (Untouched name) body) (n : Nat) :
    Stays (Untouched name) (Exec.repeatWhile test body n) := by
  induction n with
  | zero => exact (progress name).throw _
  | succ n ih =>
    apply (progress name).bind tests
    intro b
    exact Stays.ite ((progress name).bind bodies fun flow => next ih flow) (pure _)

/-- The rounds bind variables other than `name`. -/
theorem visit {body : Exec Flow} (bodies : Stays (Untouched name) body)
    {rounds : List (List (String × Value))} (others : ∀ bs ∈ rounds, ∀ b ∈ bs, name ≠ b.1) :
    Stays (Untouched name) (Exec.visit body rounds) := by
  have assigned (bs : List (String × Value)) (others : ∀ b ∈ bs, name ≠ b.1) :
      Stays (Untouched name) (bs.forM fun b => Exec.assign b.1 b.2) := by
    induction bs with
    | nil => exact pure _
    | cons b bs ih =>
      obtain ⟨first, others⟩ := List.forall_mem_cons.1 others
      exact (progress name).bind (assign first b.2) fun _ => ih others
  induction rounds with
  | nil => exact pure _
  | cons bs rounds ih =>
    obtain ⟨first, others⟩ := List.forall_mem_cons.1 others
    apply (progress name).bind (assigned bs first)
    intro _
    exact (progress name).bind bodies fun flow => next (ih others) flow

theorem count {x : String} (other : name ≠ x) {body : Exec Flow}
    (bodies : Stays (Untouched name) body) (n : Nat) (i : Int) :
    Stays (Untouched name) (Exec.count x body n i) := by
  induction n generalizing i with
  | zero => exact pure _
  | succ n ih =>
    apply (progress name).bind (assign other _)
    intro _
    exact (progress name).bind bodies fun flow => next (ih (i + 1)) flow

theorem iterate {host : Host} {header : Header} (outside : name ∉ header.writes) (s : Span)
    {body : Exec Flow} (bodies : Stays (Untouched name) body) :
    Stays (Untouched name) (host.iterate header s body) := by
  cases header with
  | range x a b =>
    have other : name ≠ x := List.ne_of_not_mem_cons outside
    apply (progress name).bind (eval _)
    intro m
    exact (progress name).bind (eval _) fun n => count other bodies _ _
  | each x e =>
    have other : name ≠ x := List.ne_of_not_mem_cons outside
    apply (progress name).bind (eval _)
    intro vs
    apply visit bodies
    intro bs member b inside
    obtain ⟨v, -, rfl⟩ := List.mem_map.1 member
    cases List.mem_singleton.1 inside
    exact other
  | pairs x y e =>
    have first : name ≠ x := List.ne_of_not_mem_cons outside
    have second : name ≠ y := List.ne_of_not_mem_cons (List.not_mem_of_not_mem_cons outside)
    apply (progress name).bind (eval _)
    intro ps
    apply visit bodies
    intro bs member
    obtain ⟨p, -, rfl⟩ := List.mem_map.1 member
    exact List.forall_mem_cons.2 ⟨first, List.forall_mem_singleton.2 second⟩

/-! Modules. -/

theorem bindAll (m : Module) (file : String) (s : Span) {names : List String}
    (outside : name ∉ names) : Stays (Untouched name) (m.bind file s names) := by
  induction names with
  | nil => exact pure _
  | cons x names ih =>
    obtain ⟨other, outside⟩ := not_or.1 fun h => outside (List.mem_cons.2 h)
    apply (progress name).bind (progress name).get
    intro t
    split
    · exact (progress name).bind (eval _) fun _ => ih outside
    · exact (progress name).bind (assign other _) fun _ => ih outside
    · exact (progress name).bind ((progress name).throw _) fun _ => ih outside

theorem importFile {host : Host} {names : List String} (outside : name ∉ names) (file : String)
    (s : Span) : Stays (Untouched name) (host.importFile file (.names names) s) :=
  (progress name).bind (eval _) fun m => bindAll m file s outside

theorem loadFile {host : Host} {x : String} (other : name ≠ x) (file : String) (s : Span) :
    Stays (Untouched name) (host.loadFile file x s) :=
  (progress name).bind (eval _) fun v => assign other v

/-! Statements. -/

theorem effect (f : Frame → Eval α) :
    Stays (Untouched name) (Exec.eval f >>= fun _ => Pure.pure Flow.done) :=
  (progress name).bind (eval f) fun _ => pure _

theorem target {host : Host} {target : Target} (outside : name ∉ target.writes) (v : Value)
    (s : Span) : Stays (Untouched name) (host.assign target v s) := by
  unfold Host.assign
  cases target with
  | name x => exact assign (List.ne_of_not_mem_cons outside) v
  | index e i => exact eval _
  | property e x => exact eval _

variable {host : Host}

mutual

theorem execute (x : Stmt) (outside : name ∉ x.writes) (selective : x.importsAll = false) :
    Stays (Untouched name) (host.execute x) := by
  cases x with
  | assign t e s =>
    simp only [Stmt.writes] at outside
    apply (progress name).bind (eval _)
    intro v
    exact (progress name).bind (target outside v s) fun _ => pure _
  | branch bs o s =>
    cases o with
    | none =>
      simp only [Stmt.writes, List.mem_append, not_or] at outside
      simp only [Stmt.importsAll, Bool.or_eq_false_iff] at selective
      apply (progress name).bind (executeBranches bs outside.1 selective.1)
      intro flow
      cases flow with
      | some flow => exact pure flow
      | none => exact pure _
    | some b =>
      simp only [Stmt.writes, List.mem_append, not_or] at outside
      simp only [Stmt.importsAll, Bool.or_eq_false_iff] at selective
      apply (progress name).bind (executeBranches bs outside.1 selective.1)
      intro flow
      cases flow with
      | some flow => exact pure flow
      | none => exact executeBlock b outside.2 selective.2
  | loop e b s =>
    simp only [Stmt.writes] at outside
    simp only [Stmt.importsAll] at selective
    exact repeatWhile (eval _) (executeBlock b outside selective) _
  | iterate header b s =>
    simp only [Stmt.writes, List.mem_append, not_or] at outside
    simp only [Stmt.importsAll] at selective
    exact iterate outside.1 s (executeBlock b outside.2 selective)
  | give value s =>
    cases value with
    | none => exact pure _
    | some e => exact (progress name).bind (eval _) fun _ => pure _
  | cls x parent ms s =>
    simp only [Stmt.writes, List.mem_singleton] at outside
    apply (progress name).bind (eval _)
    intro v
    exact (progress name).bind (assign outside v) fun _ => pure _
  | imports file items s =>
    cases items with
    | all =>
      simp only [Stmt.importsAll] at selective
      cases selective
    | names names =>
      simp only [Stmt.writes] at outside
      exact (progress name).bind (importFile outside file s) fun _ => pure _
  | load file x s =>
    simp only [Stmt.writes, List.mem_singleton] at outside
    exact (progress name).bind (loadFile outside file s) fun _ => pure _
  | leave s => exact pure _
  | init d s =>
    have refused : Stays (Untouched name) (Exec.eval fun _ => Eval.fail .strayInit s : Exec Flow) :=
      eval _
    exact refused
  | _ => exact effect _

theorem executeBlock (b : List Stmt) (outside : name ∉ blockWrites b)
    (selective : blockImportsAll b = false) : Stays (Untouched name) (host.executeBlock b) := by
  cases b with
  | nil => exact pure _
  | cons x b =>
    simp only [blockWrites, List.mem_append, not_or] at outside
    simp only [blockImportsAll, Bool.or_eq_false_iff] at selective
    apply (progress name).bind (execute x outside.1 selective.1)
    intro flow
    cases flow with
    | done => exact executeBlock b outside.2 selective.2
    | left => exact pure _
    | gave v => exact pure _

theorem executeBranches (bs : List (Expr × List Stmt)) (outside : name ∉ branchWrites bs)
    (selective : branchImportsAll bs = false) :
    Stays (Untouched name) (host.executeBranches bs) := by
  match bs with
  | [] => exact pure _
  | (e, b) :: rest =>
    simp only [branchWrites, List.mem_append, not_or] at outside
    simp only [branchImportsAll, Bool.or_eq_false_iff] at selective
    apply (progress name).bind (eval _)
    intro c
    apply Stays.ite
    · exact (progress name).bind (executeBlock b outside.1 selective.1) fun _ => pure _
    · exact executeBranches rest outside.2 selective.2

end

end Untouched

/-- However a statement ends, it leaves all variables of the running frame as they are but those that
it names as ones to be bound, if it does not import all that a module binds. Evaluations, with
whatever calls there are in them, and `super` leave the frame of the caller as it is. -/
theorem only_writes_bind (host : Host) (s : State) :
    (∀ x : Stmt, x.importsAll = false → ∀ name, name ∉ x.writes →
      (endState (host.execute x s)).frame.get? name = s.frame.get? name) ∧
    (∀ e : Expr, (endState (Exec.eval (fun frame => host.evaluate frame e) s)).frame = s.frame) ∧
    ∀ args span, (endState (host.execute (.super args span) s)).frame = s.frame := by
  refine ⟨fun x selective name outside => Untouched.execute x outside selective s,
    fun e => SameFrame.eval _ s, fun args span => ?_⟩
  have law := SameFrame.progress
  exact law.bind (SameFrame.eval _) (fun _ => law.pure Flow.done) s

/-- A loop that calls a function, which has a variable of the same name. -/
theorem loop_keeps_variable :
    let c : Context := .inMemory ⟨[], []⟩ .working
    let s := endState (runSource (run 9 c) "x = 1 f g() x = 2 return x endf" State.start)
    let loop : Stmt := .loop (.literal (.bool true) default)
      [.assign (.name "y") (.call "g" [] default) default, .leave default] default
    let t := endState ((Host.of 9 c).execute loop s)
    t.frame.get? "y" = some (.int 2) ∧ loop.importsAll = false ∧ "x" ∉ loop.writes ∧
      t.frame.get? "x" = some (.int 1) := by
  intro c s loop t
  have selective : loop.importsAll = false := rfl
  have outside : "x" ∉ loop.writes := by decide
  have kept := (only_writes_bind (.of 9 c) s).1 loop selective "x" outside
  have before : s.frame.get? "x" = some (.int 1) := by decide +kernel
  exact ⟨by decide +kernel, selective, outside, kept.trans before⟩

end Script
