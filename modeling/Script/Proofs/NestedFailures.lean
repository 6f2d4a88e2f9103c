import Mathlib
import Script.Proofs.Cycles
import Script.Proofs.Limits

/-! Failures of modules that modules run. Each statement on the way to a failure says what it was
doing, so that the text of the failure has the whole way to where the last module failed. -/

namespace Script

/-- What is said about a module ahead of the text of what it failed with, at a place there. -/
def Access.lead (access : Access) (file : String) (place : Span) : String :=
  access.text ++ s!" '{file}': {file}:" ++ Nat.repr place.line ++ ":" ++
    Nat.repr place.column ++ ": "

/-- What a statement that runs a module says ahead of the text of what that failed with. -/
def Stmt.lead : Stmt → Span → String
  | .imports file _ _, place => Access.importing.lead file place
  | .load file _ _, place => Access.loading.lead file place
  | _, _ => ""

/-- The second error is what the statement makes of the first, which its module failed with. -/
structure Stmt.Reports (x : Stmt) (e e' : Error) : Prop where
  stage : e'.stage = .loading
  help : e'.help = none
  span : e'.span = x.span
  message : e'.message = x.lead e.span ++ e.message

/-- The state that a module starts in: a frame of its own, and nothing shared. -/
def Machine.entry (m : Machine) : State :=
  ⟨(Frame.new m.heap).1, ⟨(Frame.new m.heap).2, m.output, .empty⟩⟩

/-- A run of a text comes to a statement at its top level, where it is in the second state. -/
def Reaches (run : Block → Exec Flow) (text : String) (s : State) (x : Stmt) (t : State) : Prop :=
  ∃ b before after, parse text = .ok b ∧
    b.filter Stmt.isImport ++ b.filter (!·.isImport) = before ++ x :: after ∧
    topLevel run before s = .ok () t

/-- A script fails with an error of the last of a row of modules: it reaches the first statement,
which runs a file that is not being run yet, the script there reaches the next, and so on. -/
inductive FailsThrough : Nat → Context → String → State → List Stmt → Error → Prop
  | last {n : Nat} {c : Context} {text : String} {s t : State} {e : Error}
    (failed : runSource (run n c) text s = .error (.fault e) t) : FailsThrough n c text s [] e
  | through {n : Nat} {c : Context} {text inner file : String} {s t : State} {p : Path} {x : Stmt}
    {xs : List Stmt} {e : Error} (reached : Reaches (run (n + 1) c) text s x t)
    (runs : x.file? = some file) (found : c.files.resolve (c.locate file) = some p)
    (fresh : p ∉ c.chain) (readable : c.files.read p = .ok inner)
    (rest : FailsThrough n (c.module p) inner t.machine.entry xs e) :
    FailsThrough (n + 1) c text s (x :: xs) e

/-! One module. -/

theorem error_bind {σ α β : Type} {x : EStateM Halt σ α} {f : α → EStateM Halt σ β} {halt : Halt}
    {s t : σ} (failed : x s = .error halt t) : (x >>= f) s = .error halt t := by
  rw [bind_apply, failed]

theorem error_eval {α : Type} {f : Frame → Eval α} {s : State} {halt : Halt} {m : Machine}
    (failed : f s.frame s.machine = .error halt m) :
    Exec.eval f s = .error halt ⟨s.frame, m⟩ := by
  unfold Exec.eval
  dsimp only
  rw [failed]

section Modules

variable {n : Nat} {c : Context} {inner file : String} {p : Path} {e : Error} {x : Stmt}
  {s t u : State}

theorem ofFile_fails {m : Machine} (found : c.files.resolve (c.locate file) = some p)
    (fresh : p ∉ c.chain) (readable : c.files.read p = .ok inner)
    (failed : runSource (run n (c.module p)) inner m.entry = .error (.fault e) u) (access : Access)
    (span : Span) :
    Module.ofFile (.of n c) access file span m =
      .error (.fault ⟨.module access file e.fault e.span, span⟩)
        { u.machine with shared := m.shared } := by
  have listed : c.chain.contains p = false := by
    rw [← Bool.not_eq_true, List.contains_iff_mem]
    exact fresh
  unfold Module.ofFile Host.of
  dsimp only
  rw [found]
  dsimp only
  rw [listed, if_neg Bool.false_ne_true, readable]
  unfold Machine.entry at failed
  unfold Module.run
  dsimp only
  rw [failed]

/-- A statement whose module fails reports that. -/
theorem execute_reports (runs : x.file? = some file)
    (found : c.files.resolve (c.locate file) = some p) (fresh : p ∉ c.chain)
    (readable : c.files.read p = .ok inner)
    (failed : runSource (run n (c.module p)) inner s.machine.entry = .error (.fault e) u) :
    ∃ e' t, (Host.of n c).execute x s = .error (.fault e') t ∧ x.Reports e e' := by
  have fails := ofFile_fails found fresh readable failed
  let t : State := ⟨s.frame, { u.machine with shared := s.machine.shared }⟩
  cases x with
  | imports written items span =>
    cases runs
    refine ⟨⟨.module .importing file e.fault e.span, span⟩, t, ?_, rfl, rfl, rfl, rfl⟩
    unfold Host.execute Host.importFile
    exact error_bind (error_bind (error_eval (fails .importing span)))
  | load written name span =>
    cases runs
    refine ⟨⟨.module .loading file e.fault e.span, span⟩, t, ?_, rfl, rfl, rfl, rfl⟩
    unfold Host.execute Host.loadFile
    exact error_bind (error_bind (error_eval (error_bind (fails .loading span))))
  | _ => cases runs

/-- A script fails as soon as a statement that it reaches does. -/
theorem Reaches.fails {e' : Error} {text : String} (reached : Reaches (run (n + 1) c) text s x t)
    (failed : (Host.of n c).execute x t = .error (.fault e') u) :
    runSource (run (n + 1) c) text s = .error (.fault e') u := by
  obtain ⟨b, before, after, parsed, order, ran⟩ := reached
  have here : run (n + 1) c [x] t = .error (.fault e') u := by
    rw [run, Host.executeBlock]
    exact error_bind failed
  have whole (pre : Block) (s : State) (ran : topLevel (run (n + 1) c) pre s = .ok () t) :
      topLevel (run (n + 1) c) (pre ++ x :: after) s = .error (.fault e') u := by
    induction pre generalizing s with
    | nil =>
      cases ran
      exact error_bind here
    | cons y pre ih =>
      obtain ⟨flow, v, first, rest⟩ := ran_of_bind ran
      rw [List.cons_append, topLevel, ran_bind first]
      cases flow with
      | done => exact ih v rest
      | left | gave => cases rest
  unfold runSource runProgram
  rw [parsed]
  dsimp only
  rw [order]
  exact whole before s ran

end Modules

/-- A script that fails through modules fails where it runs the first of them. The text has what
each of the statements was doing, from the outermost on, each with the place of the next of them,
and the last with the place of the error itself. -/
theorem failure_keeps_path {n : Nat} {c : Context} {text : String} {s : State} {x : Stmt}
    {xs : List Stmt} {e : Error} (fails : FailsThrough n c text s (x :: xs) e) :
    ∃ e' t, runSource (run n c) text s = .error (.fault e') t ∧
      e'.stage = .loading ∧ e'.help = none ∧ e'.span = x.span ∧
      e'.message =
        String.join (List.zipWith Stmt.lead (x :: xs) (xs.map Stmt.span ++ [e.span])) ++
          e.message := by
  induction xs generalizing n c text s x with
  | nil =>
    cases fails with
    | through reached runs found fresh readable rest =>
      cases rest with
      | last failed =>
        obtain ⟨e', t, failed', reports⟩ := execute_reports runs found fresh readable failed
        refine ⟨e', t, reached.fails failed', reports.stage, reports.help, reports.span, ?_⟩
        rw [reports.message, List.map_nil, List.nil_append, List.zipWith_cons_cons,
          List.zipWith_nil_left, String.join_cons, String.join_nil, String.append_empty]
  | cons y xs ih =>
    cases fails with
    | through reached runs found fresh readable rest =>
      obtain ⟨inner, t, failed, -, -, span, message⟩ := ih rest
      obtain ⟨e', t', failed', reports⟩ := execute_reports runs found fresh readable failed
      refine ⟨e', t', reached.fails failed', reports.stage, reports.help, reports.span, ?_⟩
      rw [reports.message, message, span, List.map_cons, List.cons_append, List.zipWith_cons_cons,
        String.join_cons, String.append_assoc]

/-- A module that loads one that fails. -/
def bridgeFiles : Files where
  home := []
  nodes := [(["b.es"], .text "x = True\n  load \"c.es\" as c"), (["c.es"], .text "y = -null")]

theorem bridge_fails :
    let c : Context := .atPath bridgeFiles .working ["a.es"]
    let text := "from \"b.es\" use *"
    let bridge : List Stmt :=
      [.imports "b.es" .all ⟨0, 17, 1, 1⟩, .load "c.es" "c" ⟨11, 27, 2, 3⟩]
    FailsThrough 9 c text State.start bridge ⟨.running (.negation .null), ⟨4, 9, 1, 5⟩⟩ ∧
      ∃ e' t, runSource (run 9 c) text State.start = .error (.fault e') t ∧
        e'.span = ⟨0, 17, 1, 1⟩ ∧
        e'.message = "Error importing from 'b.es': b.es:2:3: " ++
          "Error loading file 'c.es': c.es:1:5: Can't use '-' on a value of type 'null'" := by
  intro c text bridge
  have outer : parse text = .ok [.imports "b.es" .all ⟨0, 17, 1, 1⟩] := by cbv
  let first : Stmt := .assign (.name "x") (.literal (.bool true) ⟨4, 8, 1, 5⟩) ⟨0, 8, 1, 1⟩
  have middle : parse "x = True\n  load \"c.es\" as c" =
      .ok [first, .load "c.es" "c" ⟨11, 27, 2, 3⟩] := by cbv
  have inner : parse "y = -null" =
      .ok [.assign (.name "y") (.negate (.literal .null ⟨5, 9, 1, 6⟩) ⟨4, 9, 1, 5⟩)
        ⟨0, 9, 1, 1⟩] := by cbv
  let t : State := ⟨State.start.machine.entry.frame.assign "x" (.bool true),
    State.start.machine.entry.machine⟩
  have failed : runSource (run 7 ((c.module ["b.es"]).module ["c.es"])) "y = -null"
      t.machine.entry =
        .error (.fault ⟨.running (.negation .null), ⟨4, 9, 1, 5⟩⟩) t.machine.entry := by
    unfold runSource
    rw [inner]
    rfl
  have bridged : FailsThrough 9 c text State.start bridge
      ⟨.running (.negation .null), ⟨4, 9, 1, 5⟩⟩ :=
    .through ⟨_, [], [], outer, rfl, rfl⟩ rfl (by decide +kernel) (by decide) (by cbv)
      (.through ⟨_, [first], [], middle, rfl, rfl⟩ rfl (by decide +kernel) (by decide) (by cbv)
        (.last failed))
  obtain ⟨e', u, failed', -, -, span, message⟩ := failure_keeps_path bridged
  exact ⟨bridged, e', u, failed', span, message.trans (by decide +kernel)⟩

end Script
