import Script.Proofs.Places.Reports
import Script.Proofs.Trace.Law

/-! Sessions, as rows of texts that are run one after another, and the scripts that they run. -/

namespace Script

/-- What a source text executes, run in either way. -/
def Way.log (w : Way) (c : Context) (text : String) : Log State :=
  match w with
  | .step => Session.stepLog c text
  | .entry =>
    match parse text with
    | .ok b => Repl.entryLog c b
    | .error _ => .silent

/-- The states that texts, run one after another in contexts of their own, lead to. Each may fail.
The latest is the first of the row. -/
inductive Performed : List (Context × String) → State → Prop
  | start : Performed [] State.start
  | run {runs : List (Context × String)} {s : State} (earlier : Performed runs s) (w : Way)
    (c : Context) (text : String) :
    Performed ((c, text) :: runs) (endState (w.run c text (Session.quiet s)))

/-- The scripts of a session, each with its context and its text: those that are run, and the
modules that these may run. -/
inductive Entered (runs : List (Context × String)) : Context → String → Prop
  | ran {c : Context} {text : String} (member : (c, text) ∈ runs) : Entered runs c text
  | module {c : Context} {p : Path} {outer text : String} (script : Entered runs c outer)
    (names : c.Runs p) (read : c.files.read p = .ok text) : Entered runs (c.module p) text

theorem Entered.mono {runs more : List (Context × String)} {c : Context} {text : String}
    (entered : Entered runs c text) (sub : runs ⊆ more) : Entered more c text := by
  induction entered with
  | ran member => exact .ran (sub member)
  | module script names read ih => exact ih.module names read

namespace Watch.Law

variable {w : Watch} {c : Context} (law : w.Law)

include law

/-- A source text in a context, run in either way. -/
theorem way (way : Way) {text : String} (known : w.known c)
    (allowed : ∀ b, parse text = .ok b → ∀ x ∈ blockParts b, w.may c x) :
    w.ExecKeeps c (way.run c text) (way.log c text) := by
  cases way with
  | step => exact law.step known allowed
  | entry =>
    unfold Way.run Way.log
    dsimp only
    cases parsed : parse text with
    | ok b => exact law.entry known (allowed b parsed)
    | error e => exact .throw _

end Watch.Law

end Script
