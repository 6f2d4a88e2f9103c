import Script.Proofs.Sound.Heap
import Script.Proofs.Trace.Sessions

/-! Where the paths of modules lead. A path is joined to the directory of the script that runs the
statement. Bodies of functions travel: a script that imports a function runs its body itself, and
looks for the files that the body names beside itself, not beside the script that the body stands
in. All other statements are run by the script that they stand in. -/

namespace Script

/-- What comes before the relative paths in a script: its directory, if it is a file. -/
def Context.folder (c : Context) : String :=
  match c.script with
  | some p => if p.length ≤ 1 then "/" else Path.text p.dropLast ++ "/"
  | none => ""

theorem Context.locate_eq (c : Context) (file : String) :
    c.locate file = if isAbsolute file then file else c.folder ++ file := by
  unfold Context.locate Context.folder
  cases c.script with
  | none => simp
  | some p =>
    dsimp only
    split
    · rfl
    · split <;> rfl

/-- Two scripts find the same file under a path that is absolute, or if they share a directory. -/
theorem Context.locate_same {c c' : Context} {file : String} :
    c.locate file = c'.locate file ↔ isAbsolute file = true ∨ c.folder = c'.folder := by
  rw [Context.locate_eq, Context.locate_eq]
  cases isAbsolute file with
  | true => simp
  | false => simp [String.append_left_inj]

/-- Runs the module in a file that is looked for under a path as written. -/
def Module.atPath (h : Host) (access : Access) (file written : String) (span : Span) :
    Eval Module :=
  match h.context.files.resolve written with
  | none => Eval.raise (.noFile access file written) span
  | some path =>
    if h.context.chain.contains path then Eval.raise (.cycle file) span
    else
      match h.context.files.read path with
      | .error reason => Eval.raise (.unreadable access file reason) span
      | .ok text => run access file span (runSource (h.nested (h.context.module path)) text)

/-- Executes a statement whose file, if it runs one, is looked for under a path. -/
def Stmt.executeAt (h : Host) (written : String) : Stmt → Exec Flow
  | .imports file items span => do
    let m ← Exec.eval fun _ => Module.atPath h .importing file written span
    m.hand file items span
    return .done
  | .load file name span => do
    let v ← Exec.eval fun _ => do
      let m ← Module.atPath h .loading file written span
      let o := Object.empty.setAll m.sharedVars
      let o ← m.collect (m.functions (← Eval.heap)) o
      Eval.newObject o
    Exec.assign name v
    return .done
  | x => h.execute x

/-- A statement runs the file that its script locates. -/
theorem execute_located {h : Host} {x : Stmt} {file : String} (names : x.file? = some file) :
    h.execute x = x.executeAt h (h.context.locate file) := by
  cases x with
  | imports written items span =>
    cases names
    unfold Host.execute
    rw [importFile_eq, bind_assoc]
    rfl
  | load written name span =>
    cases names
    unfold Host.execute Host.loadFile
    rw [bind_assoc]
    rfl
  | _ => cases names

/-- The tree of a script of the session. -/
def Wrote (runs : List (Context × String)) (c : Context) (b : Block) : Prop :=
  ∃ text, Entered runs c text ∧ parse text = .ok b

/-- The statement is in the body of a declaration in the block. -/
def InBody (b : Block) (x : Stmt) : Prop :=
  ∃ y ∈ blockParts b, ∃ d ∈ y.decls, x ∈ blockParts d.body

theorem InBody.part {b : Block} {x : Stmt} (inside : InBody b x) : x ∈ blockParts b := by
  obtain ⟨y, part, d, declared, inner⟩ := inside
  exact blockParts_of_part b part (y.parts_of_decl declared inner)

/-- A script may execute what stands in it, and what stands in a body in any script. -/
def Runnable (runs : List (Context × String)) (c : Context) (x : Stmt) : Prop :=
  ∃ c' b, Wrote runs c' b ∧ x ∈ blockParts b ∧ (c' = c ∨ InBody b x)

/-- What stands in the body is in a body in some script. -/
def Brought (runs : List (Context × String)) (d : Decl) : Prop :=
  ∀ x ∈ blockParts d.body, ∃ c b, Wrote runs c b ∧ InBody b x

variable {runs more : List (Context × String)} {c : Context} {x : Stmt} {d : Decl}

theorem Brought.mono (brought : Brought runs d) (sub : runs ⊆ more) : Brought more d := by
  intro x inner
  obtain ⟨c, b, ⟨text, entered, parsed⟩, inside⟩ := brought x inner
  exact ⟨c, b, ⟨text, entered.mono sub, parsed⟩, inside⟩

theorem Runnable.brought (runnable : Runnable runs c x) (declared : d ∈ x.decls) :
    Brought runs d := by
  intro y inner
  obtain ⟨c', b, wrote, part, -⟩ := runnable
  exact ⟨c', b, wrote, x, part, d, declared, inner⟩

/-- All functions come with bodies from scripts. -/
abbrev Heap.Brings (runs : List (Context × String)) (h : Heap) : Prop :=
  Each (fun _ f => Brought runs f.decl) h.functions

theorem Heap.Brings.function {h : Heap} (brings : h.Brings runs) (r : FunctionRef) :
    Brought runs (h.function r).decl := by
  unfold Heap.function
  cases found : h.functions[r.index]? with
  | none => exact List.forall_mem_nil _
  | some f => exact brings _ f found

/-- One of the texts at work in a session, the modules that it runs, what these may execute, and the
functions that there may be. -/
def scriptWatch (runs : List (Context × String)) (now : Context × String) : Watch where
  known c := ∃ text, Entered [now] c text
  may c x := (∃ text, Entered [now] c text) ∧ Runnable runs c x
  within _ m := m.heap.Brings runs
  noted _ := True

theorem scriptWatch_law {now : Context × String} (member : now ∈ runs) :
    (scriptWatch runs now).Law where
  same := by
    intro c m n brings same
    change Each _ n.heap.functions
    rw [same.functions]
    exact brings
  newTable brings := brings
  members brings allowed declared := brings.push (allowed.2.brought declared)
  copies r _ brings := brings.push (brings.function r)
  declares t allowed brings := brings.push (allowed.2.brought List.mem_cons_self)
  marks _ _ _ brings := brings.modify fun _ => id
  lists _ _ brings := brings
  hands _ _ _ brings :=
    (hand_keeps (fun a e _ _ grown => grown.push (grown.function e.2)) brings).2
  enter brings := brings
  leave _ brings := brings
  bodies := by
    intro c m known brings r x inner
    obtain ⟨c', b, wrote, inside⟩ := brings.function r x inner
    exact ⟨known, c', b, wrote, inside.part, .inr inside⟩
  modules := by
    rintro c p ⟨text, entered⟩ names
    obtain ⟨file, text', found, read⟩ := names.2
    exact ⟨text', entered.module names read⟩
  texts := by
    rintro c p text b ⟨outer, entered⟩ names read parsed x part
    have inner : Entered [now] (c.module p) text := entered.module names read
    have whole := inner.mono fun _ only => List.mem_singleton.1 only ▸ member
    exact ⟨⟨text, inner⟩, c.module p, b, ⟨text, whole, parsed⟩, part, .inl rfl⟩

/-- A text of the session, run where all functions come from its scripts. -/
theorem Way.brings (w : Way) {text : String} (member : (c, text) ∈ runs) {s : State}
    (brings : s.machine.heap.Brings runs) :
    (endState (w.run c text s)).machine.heap.Brings runs ∧
      ∀ k ∈ w.log c text s, (scriptWatch runs (c, text)).Held k := by
  have entered : Entered [(c, text)] c text := .ran List.mem_cons_self
  have keeps : (scriptWatch runs (c, text)).ExecKeeps c (w.run c text) (w.log c text) :=
    (scriptWatch_law member).way w ⟨text, entered⟩ fun b parsed x part =>
      ⟨⟨text, entered⟩, c, b, ⟨text, .ran member, parsed⟩, part, .inl rfl⟩
  exact keeps s brings fun _ _ => trivial

theorem Performed.brings {s : State} (performed : Performed runs s) :
    s.machine.heap.Brings runs := by
  induction performed with
  | start =>
    intro i f found
    cases found
  | @run runs s earlier w c text ih =>
    have grown : (Session.quiet s).machine.heap.Brings ((c, text) :: runs) :=
      ih.mono fun _ _ brought => brought.mono (List.subset_cons_self _ _)
    exact (w.brings List.mem_cons_self grown).1

/-- A statement that runs a file looks for it beside the script that is running, which is the text
that was run or a module that it runs. The statement stands in that script, or else in the body of a
declaration in some script of the session; the path leads where it does from there exactly if it is
absolute or the two scripts share a directory. -/
theorem file_beside_running {s : State} {c : Context} {text file : String} {w : Way} {k : Moment}
    (performed : Performed runs s) (executed : k ∈ w.log c text (Session.quiet s))
    (names : k.statement.file? = some file) :
    k.host.execute k.statement =
        k.statement.executeAt k.host
          (if isAbsolute file then file else k.host.context.folder ++ file) ∧
      (∃ text', Entered [(c, text)] k.host.context text') ∧
      ∃ c' b, Wrote ((c, text) :: runs) c' b ∧ k.statement ∈ blockParts b ∧
        (c' = k.host.context ∨ InBody b k.statement) ∧
        (k.host.context.locate file = c'.locate file ↔
          isAbsolute file = true ∨ k.host.context.folder = c'.folder) := by
  have brings : (Session.quiet s).machine.heap.Brings ((c, text) :: runs) :=
    performed.brings.mono fun _ _ brought => brought.mono (List.subset_cons_self _ _)
  obtain ⟨running, c', b, wrote, part, place⟩ :=
    ((w.brings List.mem_cons_self brings).2 k executed).may
  refine ⟨?_, running, c', b, wrote, part, place, Context.locate_same⟩
  rw [← Context.locate_eq]
  exact execute_located names

/-! A function that is called from another directory. -/

/-- A module whose function looks for a file beside it when it is called. -/
def goFiles : Files where
  home := []
  nodes := [
    (["main.es"], .text "from \"lib/m.es\" use {go}\nprint(go())"),
    (["lib", "m.es"], .text "f go()\nload \"x.es\" as x\nreturn x.v\nendf\nshare(go)"),
    (["lib", "x.es"], .text "v = 1\nshare(v)")]

def goContext : Context := .atPath goFiles .working ["main.es"]

def goText : String := "from \"lib/m.es\" use {go}\nprint(go())"

def goLog : List Moment := Way.step.log goContext goText (Session.quiet State.start)

/-- The message of the fault that ended an execution. -/
def messageOf {σ α : Type} : EStateM.Result Halt σ α → Option String
  | .error (.fault e) _ => some e.message
  | _ => none

theorem goLog_loads :
    ∃ k ∈ goLog, k.statement.file? = some "x.es" ∧ k.host.context.script = some ["main.es"] ∧
      messageOf (k.host.execute k.statement k.state) =
        some "Error loading file 'x.es': File '/x.es' not found" ∧
      messageOf (k.statement.executeAt k.host "/lib/x.es" k.state) = none := by
  have ended : ((goLog.find? fun k => k.statement.file? = some "x.es").map fun k =>
      (k.host.context.script, messageOf (k.host.execute k.statement k.state),
        messageOf (k.statement.executeAt k.host "/lib/x.es" k.state))) =
      some (some ["main.es"], some "Error loading file 'x.es': File '/x.es' not found", none) := by
    decide +kernel
  obtain ⟨k, found, seen⟩ := Option.map_eq_some_iff.1 ended
  have names : k.statement.file? = some "x.es" := by simpa using List.find?_some found
  simp only [Prod.mk.injEq] at seen
  exact ⟨k, List.mem_of_find?_eq_some found, names, seen.1, seen.2.1, seen.2.2⟩

theorem go_beside_caller :
    ∃ k ∈ goLog, k.statement.file? = some "x.es" ∧
      k.host.execute k.statement = k.statement.executeAt k.host "/x.es" := by
  obtain ⟨k, executed, names, script, -⟩ := goLog_loads
  obtain ⟨located, -⟩ := file_beside_running .start executed names
  have folder : k.host.context.folder = "/" := by
    unfold Context.folder
    rw [script]
    rfl
  rw [folder] at located
  exact ⟨k, executed, names, located⟩

/-- Only what is there as a text can be read. -/
theorem Files.mem_of_read {fs : Files} {p : Path} {text : String}
    (read : fs.read p = .ok text) : (p, .text text) ∈ fs.nodes := by
  have there : fs.node? p = some (.text text) := by
    unfold Files.read at read
    split at read <;> cases read
    assumption
  rcases Option.or_eq_some_iff.1 there with found | ⟨-, directory⟩
  · obtain ⟨before, after, parts, -⟩ := List.lookup_eq_some_iff.1 found
    rw [parts]
    exact List.mem_append_right before List.mem_cons_self
  · split at directory <;> cases directory

/-- The scripts of a session of files have their texts from there. -/
theorem Entered.text_read {runs : List (Context × String)} {fs : Files}
    (start : ∀ r ∈ runs, r.1.files = fs ∧ ∃ p, r.1.script = some p ∧ fs.read p = .ok r.2)
    {c : Context} {text : String} (entered : Entered runs c text) :
    c.files = fs ∧ ∃ p, c.script = some p ∧ fs.read p = .ok text := by
  induction entered with
  | ran member => exact start _ member
  | module script names read ih => exact ⟨ih.1, _, rfl, ih.1 ▸ read⟩

/-- The file that a text names, as is found by parsing it. -/
def namesIn (text file : String) : Bool :=
  match parse text with
  | .ok b => decide (file ∈ blockReferences b)
  | .error _ => false

/-- Only the module in `lib` names the other one. -/
theorem goFiles_names {c : Context} {b : Block} (wrote : Wrote [(goContext, goText)] c b)
    (names : "x.es" ∈ blockReferences b) : c.folder = "/lib/" := by
  obtain ⟨text, entered, parsed⟩ := wrote
  have start : ∀ r ∈ [(goContext, goText)],
      r.1.files = goFiles ∧ ∃ p, r.1.script = some p ∧ goFiles.read p = .ok r.2 :=
    List.forall_mem_singleton.2 ⟨rfl, ["main.es"], rfl, rfl⟩
  obtain ⟨-, p, script, read⟩ := entered.text_read start
  have named : namesIn text "x.es" = true := by
    unfold namesIn
    rw [parsed]
    exact decide_eq_true names
  have place : p = ["lib", "m.es"] := by
    have among := Files.mem_of_read read
    simp only [goFiles, List.mem_cons, Prod.mk.injEq, Node.text.injEq, List.not_mem_nil,
      or_false] at among
    rcases among with ⟨rfl, rfl⟩ | ⟨rfl, rfl⟩ | ⟨rfl, rfl⟩
    · exact absurd named (by decide +kernel)
    · rfl
    · exact absurd named (by decide +kernel)
  unfold Context.folder
  rw [script, place]
  rfl

/-- The function looks beside the script that calls it, where there is no such file, and not beside
any script that the statement stands in. -/
theorem go_not_beside_own :
    ∃ k ∈ goLog, k.statement.file? = some "x.es" ∧ isAbsolute "x.es" = false ∧
      (∃ c b, Wrote [(goContext, goText)] c b ∧ k.statement ∈ blockParts b) ∧
      ∀ c b, Wrote [(goContext, goText)] c b → k.statement ∈ blockParts b →
        k.host.execute k.statement k.state ≠
          k.statement.executeAt k.host (c.folder ++ "x.es") k.state := by
  obtain ⟨k, executed, names, -, missing, present⟩ := goLog_loads
  have bare : (Session.quiet State.start).machine.heap.Brings [(goContext, goText)] :=
    fun i f found => nomatch found
  obtain ⟨-, c, b, wrote, part, -⟩ := ((Way.step.brings List.mem_cons_self bare).2 k executed).may
  refine ⟨k, executed, names, rfl, ⟨c, b, wrote, part⟩, fun c b wrote part same => ?_⟩
  have folder := goFiles_names wrote (blockReferences_of_part b part names)
  rw [folder] at same
  rw [same] at missing
  exact absurd (missing.symm.trans present) (by decide)

end Script
