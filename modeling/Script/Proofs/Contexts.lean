import Script.Eval.Statement

/-! The contexts that a run enters. The bodies of functions run in the context of their caller;
another context is entered only to run the module in a file that is found, is not being run already
and can be read. What would be done in any other context makes no difference to a run. -/

namespace Script

/-- A script in this context runs the module at `p` when it names the file. -/
def Context.Runs (c : Context) (p : Path) : Prop :=
  p ∉ c.chain ∧ ∃ file text, c.files.resolve (c.locate file) = some p ∧ c.files.read p = .ok text

/-- Two ways to run nested blocks that agree where a script in the context needs them. -/
structure Context.Agree (c : Context) (f g : Context → Block → Exec Flow) : Prop where
  bodies : f c = g c
  modules : ∀ p, c.Runs p → f (c.module p) = g (c.module p)

namespace Context.Agree

variable {c : Context} {n : Nat} {f g : Context → Block → Exec Flow}

/-! Calls. -/

theorem body (agree : c.Agree f g) : Host.body ⟨c, n, f⟩ = Host.body ⟨c, n, g⟩ := by
  funext function frame
  unfold Host.body
  dsimp only
  rw [agree.bodies]

theorem call (agree : c.Agree f g) : Host.call ⟨c, n, f⟩ = Host.call ⟨c, n, g⟩ := by
  funext caller r args s
  simp only [Host.call, agree.body]

theorem construct (agree : c.Agree f g) : Host.construct ⟨c, n, f⟩ = Host.construct ⟨c, n, g⟩ := by
  funext caller cls r self args s
  simp only [Host.construct, agree.body]

theorem create (agree : c.Agree f g) : Host.create ⟨c, n, f⟩ = Host.create ⟨c, n, g⟩ := by
  funext caller r args s
  simp only [Host.create, agree.construct]

theorem callMethod (agree : c.Agree f g) :
    Host.callMethod ⟨c, n, f⟩ = Host.callMethod ⟨c, n, g⟩ := by
  funext caller r self args s
  simp only [Host.callMethod, agree.body]

theorem callOn (agree : c.Agree f g) : Host.callOn ⟨c, n, f⟩ = Host.callOn ⟨c, n, g⟩ := by
  funext caller v name callee args s
  simp only [Host.callOn, agree.callMethod, agree.call, agree.create]

/-! Expressions. -/

mutual

theorem evaluate (agree : c.Agree f g) (frame : Frame) (e : Expr) :
    Host.evaluate ⟨c, n, f⟩ frame e = Host.evaluate ⟨c, n, g⟩ frame e := by
  cases e with
  | literal v s => simp only [Host.evaluate]
  | name x s => simp only [Host.evaluate]
  | binary op l r s => simp only [Host.evaluate, evaluate agree frame l, evaluate agree frame r]
  | negate e s => simp only [Host.evaluate, evaluate agree frame e]
  | logic op l r s => simp only [Host.evaluate, evaluate agree frame l, evaluate agree frame r]
  | call x args s => simp only [Host.evaluate, evaluateAll agree frame args, agree.call]
  | method e x args s =>
    simp only [Host.evaluate, evaluate agree frame e, evaluateAll agree frame args, agree.callOn]
  | property e x s => simp only [Host.evaluate, evaluate agree frame e]
  | index e i s => simp only [Host.evaluate, evaluate agree frame e, evaluate agree frame i]
  | group e s => simp only [Host.evaluate, evaluate agree frame e]
  | list items s => simp only [Host.evaluate, evaluateAll agree frame items]
  | object entries s => simp only [Host.evaluate, evaluateEntries agree frame entries]
  | create path args s => simp only [Host.evaluate, evaluateAll agree frame args, agree.create]

theorem evaluateAll (agree : c.Agree f g) (frame : Frame) (es : List Expr) :
    Host.evaluateAll ⟨c, n, f⟩ frame es = Host.evaluateAll ⟨c, n, g⟩ frame es := by
  cases es with
  | nil => simp only [Host.evaluateAll]
  | cons e es => simp only [Host.evaluateAll, evaluate agree frame e, evaluateAll agree frame es]

theorem evaluateEntries (agree : c.Agree f g) (frame : Frame) (es : List (String × Expr))
    (o : Object Value) :
    Host.evaluateEntries ⟨c, n, f⟩ frame es o = Host.evaluateEntries ⟨c, n, g⟩ frame es o := by
  match es with
  | [] => simp only [Host.evaluateEntries]
  | (key, e) :: rest =>
    simp only [Host.evaluateEntries, evaluate agree frame e, evaluateEntries agree frame rest]

end

/-! Modules. -/

theorem ofFile (agree : c.Agree f g) (access : Access) (file : String) (s : Span) :
    Module.ofFile ⟨c, n, f⟩ access file s = Module.ofFile ⟨c, n, g⟩ access file s := by
  unfold Module.ofFile
  dsimp only
  split
  · rfl
  · rename_i p found
    split
    · rfl
    · rename_i running
      split
      · rfl
      · rename_i text content
        have fresh : p ∉ c.chain := fun member => running (List.contains_iff_mem.2 member)
        rw [agree.modules p ⟨fresh, file, text, found, content⟩]

theorem importFile (agree : c.Agree f g) (file : String) (items : Selection) (s : Span) :
    Host.importFile ⟨c, n, f⟩ file items s = Host.importFile ⟨c, n, g⟩ file items s := by
  simp only [Host.importFile, agree.ofFile]

theorem loadFile (agree : c.Agree f g) (file name : String) (s : Span) :
    Host.loadFile ⟨c, n, f⟩ file name s = Host.loadFile ⟨c, n, g⟩ file name s := by
  simp only [Host.loadFile, agree.ofFile]

/-! Statements. -/

theorem bound (agree : c.Agree f g) (e : Expr) :
    Host.bound ⟨c, n, f⟩ e = Host.bound ⟨c, n, g⟩ e := by
  simp only [Host.bound, agree.evaluate]

theorem iterate (agree : c.Agree f g) (header : Header) (s : Span) (body : Exec Flow) :
    Host.iterate ⟨c, n, f⟩ header s body = Host.iterate ⟨c, n, g⟩ header s body := by
  simp only [Host.iterate, agree.bound, agree.evaluate]

theorem assign (agree : c.Agree f g) (target : Target) (v : Value) (s : Span) :
    Host.assign ⟨c, n, f⟩ target v s = Host.assign ⟨c, n, g⟩ target v s := by
  simp only [Host.assign, agree.evaluate]

theorem addMembers (agree : c.Agree f g) (detached : Frame) (ms : List Member) (cls : Class) :
    Host.addMembers ⟨c, n, f⟩ detached ms cls = Host.addMembers ⟨c, n, g⟩ detached ms cls := by
  induction ms generalizing cls with
  | nil => rfl
  | cons m ms ih =>
    cases m with
    | property x e s => simp only [Host.addMembers, agree.evaluate, ih]
    | method d => simp only [Host.addMembers, ih]
    | constructor d => simp only [Host.addMembers, ih]

theorem declaredClass (agree : c.Agree f g) (frame : Frame) (name : String)
    (parent : Option ClassPath) (ms : List Member) (s : Span) :
    Host.declaredClass ⟨c, n, f⟩ frame name parent ms s =
      Host.declaredClass ⟨c, n, g⟩ frame name parent ms s := by
  simp only [Host.declaredClass, agree.addMembers]

mutual

theorem execute (agree : c.Agree f g) (x : Stmt) :
    Host.execute ⟨c, n, f⟩ x = Host.execute ⟨c, n, g⟩ x := by
  cases x with
  | expression e s => simp only [Host.execute, agree.evaluate]
  | print e s => simp only [Host.execute, agree.evaluate, Host.print]
  | assign target e s => simp only [Host.execute, agree.evaluate, agree.assign]
  | branch bs o s =>
    cases o with
    | none => simp only [Host.execute, executeBranches agree bs]
    | some b => simp only [Host.execute, executeBranches agree bs, executeBlock agree b]
  | loop e b s => simp only [Host.execute, agree.evaluate, executeBlock agree b]
  | iterate header b s => simp only [Host.execute, agree.iterate, executeBlock agree b]
  | leave s => simp only [Host.execute]
  | give value s =>
    cases value with
    | none => simp only [Host.execute]
    | some e => simp only [Host.execute, agree.evaluate]
  | function d s => simp only [Host.execute]
  | init d s => simp only [Host.execute]
  | cls x parent ms s => simp only [Host.execute, agree.declaredClass]
  | super args s => simp only [Host.execute, agree.evaluateAll, agree.construct]
  | share names s => simp only [Host.execute]
  | imports file items s => simp only [Host.execute, agree.importFile]
  | load file x s => simp only [Host.execute, agree.loadFile]

theorem executeBlock (agree : c.Agree f g) (b : List Stmt) :
    Host.executeBlock ⟨c, n, f⟩ b = Host.executeBlock ⟨c, n, g⟩ b := by
  cases b with
  | nil => simp only [Host.executeBlock]
  | cons x b => simp only [Host.executeBlock, execute agree x, executeBlock agree b]

theorem executeBranches (agree : c.Agree f g) (bs : List (Expr × List Stmt)) :
    Host.executeBranches ⟨c, n, f⟩ bs = Host.executeBranches ⟨c, n, g⟩ bs := by
  match bs with
  | [] => simp only [Host.executeBranches]
  | (e, b) :: rest =>
    simp only [Host.executeBranches, agree.evaluate, executeBlock agree b,
      executeBranches agree rest]

end

end Context.Agree

/-- The contexts of the scripts that may be running once one runs in `start`: its own, and that of
each module that a script among them runs. The chain of a context lists the files whose modules are
being run. -/
inductive Loading (start : Context) : Context → Prop
  | start : Loading start start
  | module {c : Context} {p : Path} (outer : Loading start c) (runs : c.Runs p) :
    Loading start (c.module p)

open Classical in
/-- A run in which `other` takes the place of a run in every context outside `known`. -/
noncomputable def runWithin (known : Context → Prop) (other : Context → Block → Exec Flow) :
    Nat → Context → Block → Exec Flow
  | 0, c, b => if known c then throw .exhausted else other c b
  | n + 1, c, b =>
    if known c then Host.executeBlock ⟨c, n, runWithin known other n⟩ b else other c b

/-- A run enters no other context than those of the scripts that it loads. -/
theorem runWithin_loading {start c : Context} (inside : Loading start c)
    (other : Context → Block → Exec Flow) (limit : Nat) :
    runWithin (Loading start) other limit c = run limit c := by
  -- what is nested in a run in `c` is in `c` again or in a module that `c` runs
  induction limit generalizing c with
  | zero =>
    funext b
    rw [runWithin, if_pos inside, run]
  | succ n ih =>
    funext b
    rw [runWithin, if_pos inside, run]
    have agree : c.Agree (runWithin (Loading start) other n) (run n) :=
      ⟨ih inside, fun p runs => ih (inside.module runs)⟩
    exact agree.executeBlock b

end Script
