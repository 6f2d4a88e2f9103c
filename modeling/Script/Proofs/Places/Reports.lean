import Script.Proofs.HeapLaw
import Script.Proofs.Places.Running
import Script.Proofs.Places.Sources
import Script.Repl

/-! Where reported errors point. A source text is run after others, whose functions it may call, and
so are the modules that all these name. An error is at a place in the text, unless it was met in the
body of a function that another text declares: then it is a place in that text. -/

namespace Script

/-- The ways to run a source text: as a step of a session, and as an entry of an interactive one. -/
inductive Way
  | step
  | entry

def Way.run (w : Way) (c : Context) (text : String) : Exec Unit :=
  match w with
  | .step => Session.step c text
  | .entry =>
    match parse text with
    | .ok b => Repl.runEntry c b
    | .error e => throw (.fault e)

/-- The states that texts, run one after another with the files there were, lead to. Each may fail
and each may find other files. The latest is the first of the row. -/
inductive Reached : List (Files × String) → State → Prop
  | start : Reached [] State.start
  | run {runs : List (Files × String)} {s : State} (earlier : Reached runs s) (w : Way)
    (c : Context) (text : String) :
    Reached ((c.files, text) :: runs) (endState (w.run c text (Session.quiet s)))

/-- The texts that may have been run: those of the row, and those in files that such a text names,
wherever the script stands that looks for them. -/
inductive Known (runs : List (Files × String)) : String → Prop
  | ran {fs : Files} {text : String} (member : (fs, text) ∈ runs) : Known runs text
  | named {text entry file content : String} {b : Block} {c : Context} {p : Path}
    (outer : Known runs text) (parsed : parse text = .ok b) (names : file ∈ blockReferences b)
    (member : (c.files, entry) ∈ runs) (found : c.files.resolve (c.locate file) = some p)
    (read : c.files.read p = .ok content) : Known runs content

/-- The place is in a declaration of a known text. -/
def DeclaredIn (runs : List (Files × String)) (p : Span) : Prop :=
  ∃ text b, Known runs text ∧ parse text = .ok b ∧ p ∈ blockDeclared b

/-- The file is named in a known text. -/
def NamedIn (runs : List (Files × String)) (file : String) : Prop :=
  ∃ text b, Known runs text ∧ parse text = .ok b ∧ file ∈ blockReferences b

variable {runs more : List (Files × String)}

theorem Known.mono {text : String} (known : Known runs text) (sub : runs ⊆ more) :
    Known more text := by
  induction known with
  | ran member => exact .ran (sub member)
  | named outer parsed names member found read ih =>
    exact .named ih parsed names (sub member) found read

theorem DeclaredIn.mono {p : Span} (declared : DeclaredIn runs p) (sub : runs ⊆ more) :
    DeclaredIn more p := by
  obtain ⟨text, b, known, parsed, member⟩ := declared
  exact ⟨text, b, known.mono sub, parsed, member⟩

theorem NamedIn.mono {file : String} (named : NamedIn runs file) (sub : runs ⊆ more) :
    NamedIn more file := by
  obtain ⟨text, b, known, parsed, member⟩ := named
  exact ⟨text, b, known.mono sub, parsed, member⟩

/-- The tree of a known text. -/
theorem Known.placed {text : String} {b : Block} {Q : Span → Prop} (known : Known runs text)
    (parsed : parse text = .ok b) (inside : ∀ p ∈ blockSpans b, Q p) :
    ∀ x ∈ b, x.Placed Q (DeclaredIn runs) (NamedIn runs) :=
  blockPlaced inside (fun _ member => ⟨text, b, known, parsed, member⟩)
    fun _ member => ⟨text, b, known, parsed, member⟩

theorem filesPlaced {fs : Files} {entry : String} (member : (fs, entry) ∈ runs) :
    FilesPlaced (DeclaredIn runs) (NamedIn runs) fs := by
  rintro file ⟨text, b, known, parsed, names⟩ c p content inner rfl found read parsed'
  have known' : Known runs content := .named known parsed names member found read
  exact known'.placed parsed' fun _ _ => trivial

theorem Heap.Stores.mono {P P' : Span → Prop} {M M' : String → Prop} {h : Heap}
    (stores : h.Stores P M) (places : ∀ p, P p → P' p) (files : ∀ file, M file → M' file) :
    h.Stores P' M' := by
  intro i f found
  have stored := stores i f found
  refine ⟨fun proper => places _ (stored.span proper), fun x member => ?_⟩
  have placed := stored.body x member
  exact ⟨fun p inside => places p (placed.spans p inside),
    fun p inside => places p (placed.declared p inside),
    fun file named => files file (placed.files file named)⟩

section Runs

variable (c : Context) {P Q : Span → Prop} {M : String → Prop} {b : Block}
  (files : FilesPlaced P M c.files) (wide : ∀ p, P p → Q p) (placed : ∀ x ∈ b, x.Placed Q P M)

include files wide placed

theorem program_points : Points.ExecPlaced P M Q (runProgram (run Session.unlimited c) b) := by
  apply Points.runProgram
  · intro x member
    have single : ∀ y ∈ [x], y.Placed Q P M := List.forall_mem_singleton.2 (placed x member)
    exact (Points.run files Session.unlimited wide rfl single).forget
  · intro x member
    exact (placed x member).spans _ x.span_mem

theorem entry_points : Points.ExecPlaced P M Q (Repl.runEntry c b) := by
  have bodies : HostPlaced P M (.of Session.unlimited c) :=
    fun Q wide c' b same inside => Points.run files Session.unlimited wide same inside
  unfold Repl.runEntry
  split
  · rename_i e span
    have spans := (List.forall_mem_singleton.1 placed).spans
    have inner := (List.forall_mem_cons.1 spans).2
    apply Safe.eval
    intro frame
    apply Safe.bind (Points.evaluate wide bodies frame e inner)
    intro v _
    split
    · exact Safe.pure trivial
    · exact Points.print _ (inner _ e.span_mem)
  · exact program_points c files wide placed

end Runs

/-- A text, run in either way, fails at a place in it or in a declaration of a known text. -/
theorem Way.run_points (w : Way) (c : Context) (text : String) :
    Points.ExecPlaced (DeclaredIn ((c.files, text) :: runs)) (NamedIn ((c.files, text) :: runs))
      (fun p => p.In text.toList ∨ DeclaredIn ((c.files, text) :: runs) p) (w.run c text) := by
  have latest : (c.files, text) ∈ (c.files, text) :: runs := List.mem_cons_self
  obtain ⟨trees, faults⟩ := parse_placed text
  cases parsed : parse text with
  | error e =>
    have refused : Halt.Points
        (fun p => p.In text.toList ∨ DeclaredIn ((c.files, text) :: runs) p) (.fault e) := by
      rintro e ⟨⟩
      exact .inl (faults e parsed)
    cases w with
    | step =>
      simp only [Way.run, Session.step, runSource, parsed]
      exact Safe.throw refused
    | entry =>
      simp only [Way.run, parsed]
      exact Safe.throw refused
  | ok b =>
    have inside (p : Span) (member : p ∈ blockSpans b) :
        p.In text.toList ∨ DeclaredIn ((c.files, text) :: runs) p := .inl (trees b parsed p member)
    have placed := (Known.ran latest).placed parsed inside
    cases w with
    | step =>
      simp only [Way.run, Session.step, runSource, parsed]
      exact program_points c (filesPlaced latest) (fun _ => .inr) placed
    | entry =>
      simp only [Way.run, parsed]
      exact entry_points c (filesPlaced latest) (fun _ => .inr) placed

theorem Reached.stores {s : State} (reached : Reached runs s) :
    s.machine.heap.Stores (DeclaredIn runs) (NamedIn runs) := by
  induction reached with
  | start =>
    intro i f found
    cases found
  | @run runs s earlier w c text ih =>
    have sub : runs ⊆ (c.files, text) :: runs := List.subset_cons_self _ _
    have grown := ih.mono (fun _ declared => declared.mono sub) fun _ named => named.mono sub
    have ended := w.run_points c text (Session.quiet s) grown
    cases ran : w.run c text (Session.quiet s) with
    | ok a t =>
      rw [ran] at ended
      exact ended.2
    | error halt t =>
      rw [ran] at ended
      exact ended.2

/-- An error points into the text that was run, or into a declaration of a text that was run before
or is in a file that one of these names. -/
theorem reports_point {s t : State} {c : Context} {text : String} {w : Way} {e : Error}
    (reached : Reached runs s) (failed : w.run c text (Session.quiet s) = .error (.fault e) t) :
    e.span.In text.toList ∨
      ∃ other b, Known ((c.files, text) :: runs) other ∧ parse other = .ok b ∧
        e.span ∈ blockDeclared b ∧ e.span.In other.toList := by
  have sub : runs ⊆ (c.files, text) :: runs := List.subset_cons_self _ _
  have stores := reached.stores.mono (fun _ declared => declared.mono sub)
    fun _ named => named.mono sub
  have ended := w.run_points c text (Session.quiet s) stores
  rw [failed] at ended
  rcases ended.1 e rfl with inside | ⟨other, b, known, parsed, declared⟩
  · exact .inl inside
  · have within := (parse_placed other).1 b parsed _ (blockDeclared_sub b declared)
    exact .inr ⟨other, b, known, parsed, declared, within⟩

/-- The fault that ended a run. -/
def faultOf : EStateM.Result Halt State Unit → Option Error
  | .error (.fault e) _ => some e
  | _ => none

theorem error_of_faultOf {r : EStateM.Result Halt State Unit} {e : Error}
    (ended : faultOf r = some e) : ∃ t, r = .error (.fault e) t := by
  cases r with
  | ok a t => cases ended
  | error halt t =>
    cases halt with
    | fault e =>
      cases ended
      exact ⟨t, rfl⟩
    | exhausted => cases ended

/-- A call of a function from an earlier entry points into that entry. -/
theorem earlier_entry_pointed :
    ∃ s e t, Reached [(⟨[], []⟩, "f half(n)\n  return n / 0\nendf")] s ∧
      Way.entry.run (.inMemory ⟨[], []⟩ .working) "half(1)" (Session.quiet s) =
        .error (.fault e) t ∧
      ∃ other b,
        Known [(⟨[], []⟩, "half(1)"), (⟨[], []⟩, "f half(n)\n  return n / 0\nendf")] other ∧
        parse other = .ok b ∧ e.span ∈ blockDeclared b ∧ e.span.In other.toList := by
  let c : Context := .inMemory ⟨[], []⟩ .working
  let s := endState (Way.entry.run c "f half(n)\n  return n / 0\nendf" (Session.quiet .start))
  have reached : Reached [(c.files, _)] s := .run .start .entry c _
  have ended : faultOf (Way.entry.run c "half(1)" (Session.quiet s)) =
      some ⟨.running .divisionByZero, ⟨19, 24, 2, 10⟩⟩ := by decide +kernel
  obtain ⟨t, failed⟩ := error_of_faultOf ended
  rcases reports_point reached failed with inside | elsewhere
  · exact absurd inside.line (by decide +kernel)
  · exact ⟨s, _, t, reached, failed, elsewhere⟩

/-- A module whose function fails when it is called. -/
def halfFiles : Files where
  home := []
  nodes := [(["lib.es"], .text "\n\nf half(n)\n  return n / 0\nendf\nshare(half)")]

/-- A text of two lines whose error is on the fourth line, which is one of the module. -/
theorem half_points_elsewhere :
    ∃ e t, Reached [] State.start ∧
      Way.step.run (.inMemory halfFiles .working) "from \"lib.es\" use {half}\nhalf(1)"
        (Session.quiet State.start) = .error (.fault e) t ∧
      ¬ e.span.In "from \"lib.es\" use {half}\nhalf(1)".toList := by
  have ended : faultOf (Way.step.run (.inMemory halfFiles .working)
      "from \"lib.es\" use {half}\nhalf(1)" (Session.quiet State.start)) =
        some ⟨.running .divisionByZero, ⟨21, 26, 4, 10⟩⟩ := by decide +kernel
  obtain ⟨t, failed⟩ := error_of_faultOf ended
  exact ⟨_, t, .start, failed, fun inside => absurd inside.line (by decide +kernel)⟩

end Script
