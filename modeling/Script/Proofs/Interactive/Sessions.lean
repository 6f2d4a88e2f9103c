import Script.Proofs.Continuation.Entries
import Script.Proofs.HeapLaw
import Script.Proofs.Interactive.Pieces
import Script.Proofs.Limits

/-! Interactive sessions. One goes through the entries of its input, and runs each of them as it would
be run as a script of its own, from the state that the one before it left. -/

namespace Script

/-! A lone call statement. -/

namespace Host

/-- Evaluates an expression for what it does. -/
def perform (h : Host) (e : Expr) : Exec Unit := do
  let _ ← Exec.eval fun frame => h.evaluate frame e

theorem perform_eq (h : Host) (e : Expr) (s : State) :
    h.perform e s =
      match h.evaluate s.frame e s.machine with
      | .ok _ m => .ok () ⟨s.frame, m⟩
      | .error halt m => .error halt ⟨s.frame, m⟩ := by
  rw [perform, bind_apply, Exec.eval]
  cases h.evaluate s.frame e s.machine <;> rfl

theorem topLevel_expression (h : Host) (e : Expr) (span : Span) :
    topLevel h.executeBlock [.expression e span] = h.perform e := by
  simp only [topLevel, executeBlock, execute, perform, bind_assoc, pure_bind]

end Host

namespace Session

/-- The state that a text leaves, however its run ends. -/
def leaves (c : Context) (s : State) (text : String) : State :=
  endState (step c text (quiet s))

variable {c : Context} {text : String} {s : State}

theorem step_of_error {e : Error} (failed : parse text = .error e) :
    step c text s = .error (.fault e) s := by
  unfold step runSource
  rw [failed]
  rfl

theorem step_of_ok {b : Block} (parsed : parse text = .ok b) :
    step c text = runProgram (run unlimited c) b := by
  unfold step runSource
  rw [parsed]

/-- As a script of its own, a lone call statement runs within a bound that is smaller by one. -/
theorem step_expression {e : Expr} {span : Span} (parsed : parse text = .ok [.expression e span])
    (ended : Ended (step c text s)) :
    step c text s = (Host.of unlimited c).perform e s := by
  obtain ⟨n, bound⟩ : ∃ n, unlimited = n + 1 := ⟨_, rfl⟩
  have inner : step c text = Host.perform ⟨c, n, run n⟩ e := by
    rw [step_of_ok parsed, bound]
    exact Host.topLevel_expression ⟨c, n, run n⟩ e span
  have nested : NestedWidens (run n) (run (n + 1)) := run_widens (Nat.le_succ n)
  have wider : Widens (Host.perform ⟨c, n, run n⟩ e) (Host.perform ⟨c, n + 1, run (n + 1)⟩ e) :=
    (Widens.eval fun frame => nested.evaluate frame e).bind fun _ => .refl _
  rw [inner] at ended ⊢
  rw [wider.eq ended, Host.of, bound]

end Session

namespace Repl

/-! Answers one after another. -/

namespace Answer

/-- The answer after something else has been written. -/
def preceded (a : Answer) (out err : String) : Answer :=
  ⟨a.next, out ++ a.stdout, err ++ a.stderr⟩

/-- Goes on unless the session is over. -/
def andThen (a : Answer) (f : Repl → Answer) : Answer :=
  match a.next with
  | none => a
  | some r => (f r).preceded a.stdout a.stderr

/-- The answer apart from what its session printed last. -/
def quieted (a : Answer) : Answer :=
  { a with next := a.next.map fun r => { r with state := Session.quiet r.state } }

theorem preceded_preceded (a : Answer) (out err out' err' : String) :
    (a.preceded out err).preceded out' err' = a.preceded (out' ++ out) (err' ++ err) := by
  simp [preceded, String.append_assoc]

theorem andThen_assoc (a : Answer) (f g : Repl → Answer) :
    (a.andThen f).andThen g = a.andThen fun r => (f r).andThen g := by
  obtain ⟨next, out, err⟩ := a
  cases next with
  | none => rfl
  | some r =>
    simp only [andThen, preceded]
    cases last : (f r).next <;> simp [last, String.append_assoc]

theorem quieted_preceded (a : Answer) (out err : String) :
    (a.preceded out err).quieted = a.quieted.preceded out err := rfl

end Answer

/-- What a session makes of lines, with its prompts. -/
def readAll (c : Context) : List String → Repl → Answer
  | [], r => ⟨some r, "", ""⟩
  | line :: rest, r => ((read c r line).preceded r.prompt "").andThen (readAll c rest)

/-- What is written at the end of the input. -/
def closing : Option Repl → String
  | none => ""
  | some r => r.prompt ++ "\n"

theorem Answer.closing_quieted (a : Answer) : closing a.quieted.next = closing a.next := by
  obtain ⟨next, out, err⟩ := a
  cases next <;> rfl

variable {c : Context} {s s' : State}

theorem readAll_append (xs ys : List String) (r : Repl) :
    readAll c (xs ++ ys) r = (readAll c xs r).andThen (readAll c ys) := by
  induction xs generalizing r with
  | nil => simp [readAll, Answer.andThen, Answer.preceded]
  | cons line xs ih =>
    simp only [List.cons_append, readAll, Answer.andThen_assoc]
    congr 1
    funext r'
    exact ih r'

theorem talk_eq (lines : List String) (r : Repl) :
    talk c (lines.map some) r =
      ((readAll c lines r).stdout ++ closing (readAll c lines r).next,
        (readAll c lines r).stderr) := by
  induction lines generalizing r with
  | nil => simp [talk, readAll, closing]
  | cons line rest ih =>
    simp only [List.map_cons, talk, readAll, Answer.andThen, Answer.preceded]
    cases (read c r line).next with
    | none => simp [closing]
    | some r' => simp [ih r', String.append_assoc]

/-! Lines of one entry. -/

/-- The prompts that ask for lines of one entry. -/
def asked : List String → String
  | [] => ""
  | _ :: more => "> " ++ String.join (more.map fun _ => ". ")

theorem readAll_single (line : String) (r : Repl) :
    readAll c [line] r = (read c r line).preceded r.prompt "" := by
  simp only [readAll, Answer.andThen, Answer.preceded]
  cases (read c r line).next <;> simp

theorem readAll_of_waits {line entry : String} {r : Repl} (more : List String)
    (reads : read c r line = waits s entry) :
    readAll c (line :: more) r = (readAll c more ⟨s, entry⟩).preceded r.prompt "" := by
  rw [readAll, reads]
  simp [waits, Answer.andThen, Answer.preceded]

/-- Between entries. -/
theorem read_opens {line : String} (opens : Opens line) :
    read c ⟨s, ""⟩ line = enter c s line := by
  unfold read
  rw [if_neg fun blank => opens.1 blank.2, if_neg fun word => opens.2 word.2]
  exact congrArg (enter c s) String.empty_append

/-- Within an entry every line belongs to it. -/
theorem read_pending {pending : String} (some : pending ≠ "") (line : String) :
    read c ⟨s, pending⟩ line = enter c s (pending ++ line) := by
  unfold read
  rw [if_neg fun blank => some blank.1, if_neg fun word => some word.1]

theorem enter_incomplete {text : String} (isOpen : ¬ Complete text) :
    enter c s text = waits s text := by
  obtain ⟨e, failed, incomplete⟩ := not_complete_iff.1 isOpen
  rw [enter_of_error failed, if_pos incomplete]

/-- Lines of one entry, of which none but the last can end it. -/
theorem readAll_lines {pending line : String} {more : List String}
    (reads : read c ⟨s, pending⟩ line = enter c s (pending ++ line))
    (isOpen : ∀ n < (line :: more).length, 0 < n →
      ¬ Complete (pending ++ String.join ((line :: more).take n))) :
    readAll c (line :: more) ⟨s, pending⟩ =
      (enter c s (pending ++ String.join (line :: more))).preceded
        (prompt ⟨s, pending⟩ ++ String.join (more.map fun _ => ". ")) "" := by
  induction more generalizing pending line with
  | nil =>
    rw [readAll_single, reads]
    simp
  | cons line' more ih =>
    have first := isOpen 1 (by simp) Nat.one_pos
    rw [List.take_one, List.head?_cons, Option.toList_some, String.join_cons, String.join_nil,
      String.append_empty] at first
    have some : pending ++ line ≠ "" := fun none => first (none ▸ complete_empty)
    have others := ih (read_pending some line') fun n within _ => by
      have longer := isOpen (n + 1) (Nat.succ_lt_succ within) (Nat.succ_pos n)
      rwa [List.take_succ_cons, String.join_cons, ← String.append_assoc] at longer
    have prompt : Repl.prompt ⟨s, pending ++ line⟩ = ". " := if_neg some
    rw [readAll_of_waits _ (reads.trans (enter_incomplete first)), others,
      Answer.preceded_preceded, prompt]
    simp [String.append_assoc]

theorem readAll_growing {ls : List String} (growing : Growing ls) :
    readAll c ls ⟨s, ""⟩ = (enter c s (String.join ls)).preceded (asked ls) "" := by
  obtain ⟨line, more, rfl, opens⟩ := growing.opens
  have reads : read c ⟨s, ""⟩ line = enter c s ("" ++ line) := by
    rw [read_opens opens, String.empty_append]
  have whole := readAll_lines reads fun n within some => by
    rw [String.empty_append]
    exact growing.open_within n within some
  rwa [String.empty_append] at whole

/-! What is written for an entry. -/

/-- The line that shows a value. Null is not shown, and a value that contains itself has no text. -/
def line? (h : Heap) : Value → Option String
  | .null => some ""
  | v => (h.text? v).map (· ++ "\n")

/-- What is written and what is reported to show the value of an expression, if it has one. -/
def shown (text : String) : EStateM.Result Halt Machine Value → String × String
  | .ok v m =>
    match line? m.heap v with
    | some line => (line, "")
    | none => ("", Session.report .exhausted text "<repl>" false)
  | .error _ _ => ("", "")

/-- A text of one call statement and no others. -/
def IsLone (text : String) : Prop :=
  ∃ e span, parse text = .ok [.expression e span]

/-- The echo of a lone call statement. -/
def echo (c : Context) (s : State) (text : String) : String × String :=
  let s := Session.quiet s
  match parse text with
  | .ok [.expression e _] =>
    shown text ((Host.of Session.unlimited c).evaluate s.frame e s.machine)
  | _ => ("", "")

/-- What an entry makes its session write: what its run as a script prints and makes it report, and
its echo. -/
def written (c : Context) (s : State) (text : String) : String × String :=
  let run := Session.step c text (Session.quiet s)
  let report :=
    match run with
    | .ok _ _ => ""
    | .error halt _ => Session.report halt text "<repl>" false
  ((endState run).machine.output ++ (echo c s text).1, report ++ (echo c s text).2)

/-- An answer that leaves the state of the entry's run as a script, and writes what that writes. -/
def Repeats (c : Context) (s : State) (text : String) (a : Answer) : Prop :=
  ∃ t, Session.quiet t = Session.quiet (Session.leaves c s text) ∧
    a = ⟨some ⟨t, ""⟩, (written c s text).1, (written c s text).2⟩

/-- Prints the line that shows a value. -/
def display (c : Context) (v : Value) (span : Span) : Eval Unit :=
  match v with
  | .null => return ()
  | v => (Host.of Session.unlimited c).print v span

theorem display_apply (works : c.sink = .working) (v : Value) (span : Span) (m : Machine) :
    display c v span m =
      match line? m.heap v with
      | some line => .ok () { m with output := m.output ++ line }
      | none => .error .exhausted m := by
  have printed (v : Value) : (Host.of Session.unlimited c).print v span m =
      match (m.heap.text? v).map (· ++ "\n") with
      | some line => .ok () { m with output := m.output ++ line }
      | none => .error .exhausted m := by
    have heap : Eval.heap m = .ok m.heap m := rfl
    obtain ⟨files, script, chain, sink⟩ := c
    cases works
    rw [Host.print, bind_apply, heap]
    dsimp only
    cases m.heap.text? v with
    | none => rfl
    | some text =>
      exact congrArg (fun output => EStateM.Result.ok () { m with output }) String.append_assoc
  cases v with
  | null =>
    change EStateM.Result.ok () m = .ok () { m with output := m.output ++ "" }
    rw [String.append_empty]
  | _ => exact printed _

theorem runEntry_expression (works : c.sink = .working) (e : Expr) (span : Span) (s : State) :
    runEntry c [.expression e span] s =
      match (Host.of Session.unlimited c).evaluate s.frame e s.machine with
      | .ok v m =>
        match line? m.heap v with
        | some line => .ok () ⟨s.frame, { m with output := m.output ++ line }⟩
        | none => .error .exhausted ⟨s.frame, m⟩
      | .error halt m => .error halt ⟨s.frame, m⟩ := by
  have whole : runEntry c [.expression e span] = Exec.eval (fun frame =>
      (Host.of Session.unlimited c).evaluate frame e >>= fun v => display c v e.span) := rfl
  rw [whole, Exec.eval, bind_apply]
  cases (Host.of Session.unlimited c).evaluate s.frame e s.machine with
  | error halt m => rfl
  | ok v m =>
    dsimp only
    rw [display_apply works]
    cases line? m.heap v <;> rfl

theorem ran_expression {text : String} {e : Expr} {span : Span} (works : c.sink = .working)
    (parsed : parse text = .ok [.expression e span])
    (ended : Ended (Session.step c text (Session.quiet s))) :
    Repeats c s text (ran c s text [.expression e span]) := by
  have steps := Session.step_expression parsed ended
  rw [Host.perform_eq] at steps
  unfold Repeats Session.leaves written echo ran
  rw [parsed, steps, runEntry_expression works]
  dsimp only
  cases (Host.of Session.unlimited c).evaluate (Session.quiet s).frame e (Session.quiet s).machine with
  | error halt m => exact ⟨_, rfl, by simp [endState, shown]⟩
  | ok v m =>
    dsimp only [shown]
    cases line? m.heap v with
    | none => exact ⟨⟨_, m⟩, rfl, by simp [endState]⟩
    | some line => exact ⟨⟨_, { m with output := m.output ++ line }⟩, rfl, by simp [endState]⟩

theorem ran_other {text : String} {b : Block} (parsed : parse text = .ok b)
    (other : ∀ e span, b ≠ [.expression e span]) : Repeats c s text (ran c s text b) := by
  have runs : runEntry c b = Session.step c text := by
    rw [Session.step_of_ok parsed]
    unfold runEntry
    split
    · exact absurd rfl (other _ _)
    · rfl
  have silent : echo c s text = ("", "") := by
    unfold echo
    rw [parsed]
    split
    · rename_i e span same
      exact absurd (Except.ok.inj same) (other e span)
    · rfl
  unfold Repeats Session.leaves written ran
  rw [runs, silent]
  cases Session.step c text (Session.quiet s) with
  | ok _ t => exact ⟨t, rfl, by simp [endState]⟩
  | error halt t => exact ⟨t, rfl, by simp [endState]⟩

theorem rejected_repeats {text : String} {e : Error} (failed : parse text = .error e)
    (same : Session.quiet s' = Session.quiet s) : Repeats c s text (rejected s' text e) := by
  have silent : echo c s text = ("", "") := by
    unfold echo
    rw [failed]
  unfold Repeats Session.leaves written
  rw [silent, Session.step_of_error failed]
  exact ⟨s', same, by simp [rejected, endState, Session.quiet]⟩

theorem enter_complete {text : String} (works : c.sink = .working) (complete : Complete text)
    (same : Session.quiet s' = Session.quiet s)
    (ended : IsLone text → Ended (Session.step c text (Session.quiet s))) :
    Repeats c s text (enter c s' text) := by
  rcases complete with ⟨b, parsed⟩ | ⟨e, failed, final⟩
  · have alike : ran c s' text b = ran c s text b := by
      unfold ran
      rw [same]
    rw [enter_of_ok parsed, alike]
    by_cases lone : ∃ e span, b = [.expression e span]
    · obtain ⟨e, span, rfl⟩ := lone
      exact ran_expression works parsed (ended ⟨e, span, parsed⟩)
    · exact ran_other parsed fun e span whole => lone ⟨e, span, whole⟩
  · rw [enter_of_error failed, if_neg (by simp [final])]
    exact rejected_repeats failed same

/-! Whole inputs. -/

/-- The lone calls of the entries come to their ends. As an entry, one that stops at its bound would
get a little further than it does as a script. -/
def Ends (c : Context) : List Piece → State → Prop
  | [], _ => True
  | .entry ls :: ps, s =>
    (IsLone (String.join ls) → Ended (Session.step c (String.join ls) (Session.quiet s))) ∧
      Ends c ps (Session.leaves c s (String.join ls))
  | _ :: ps, s => Ends c ps s

/-- The course of a session over the pieces of its input. Each entry is run once, as a script, in the
state that the entry before it left. -/
def course (c : Context) : List Piece → State → Answer
  | [], s => ⟨some ⟨s, ""⟩, "", ""⟩
  | .blank _ :: ps, s => (course c ps s).preceded "> " ""
  | .entry ls :: ps, s =>
    (course c ps (Session.leaves c s (String.join ls))).preceded
      (asked ls ++ (written c s (String.join ls)).1) (written c s (String.join ls)).2
  | .farewell _ :: _, _ => ⟨none, "> Goodbye!\n", ""⟩
  | .unfinished ls :: _, s => ⟨some ⟨s, String.join ls⟩, asked ls, ""⟩

theorem readAll_course {lines : List String} {ps : List Piece} (works : c.sink = .working)
    (division : Division lines ps) (same : Session.quiet s' = Session.quiet s) (ends : Ends c ps s) :
    (readAll c lines ⟨s', ""⟩).quieted = (course c ps s).quieted := by
  induction division generalizing s s' with
  | nothing => simp [readAll, course, Answer.quieted, same]
  | @blank line rest ps empty _ ih =>
    have reads : read c ⟨s', ""⟩ line = waits s' "" := if_pos ⟨rfl, empty⟩
    rw [readAll_of_waits rest reads, Answer.quieted_preceded, ih same ends]
    rfl
  | @entry ls rest ps isEntry _ ih =>
    obtain ⟨t, left, answer⟩ := enter_complete works isEntry.complete same ends.1
    rw [readAll_append, readAll_growing isEntry.toGrowing, answer]
    have others := ih left ends.2
    have whole : ((readAll c rest ⟨t, ""⟩).preceded (asked ls ++ (written c s (String.join ls)).1)
        (written c s (String.join ls)).2).quieted = (course c (.entry ls :: ps) s).quieted := by
      rw [Answer.quieted_preceded, others]
      rfl
    simpa [Answer.andThen, Answer.preceded] using whole
  | @farewell line rest word =>
    have reads : read c ⟨s', ""⟩ line = ⟨none, "Goodbye!\n", ""⟩ := by
      unfold read
      rw [if_neg fun blank => word.ne_blank blank.2, if_pos ⟨rfl, word⟩]
    rw [readAll, reads]
    rfl
  | @unfinished ls isOpen =>
    rw [readAll_growing isOpen.toGrowing, enter_incomplete isOpen.incomplete]
    simp [waits, course, Answer.quieted, Answer.preceded, same]

/-- Lines are cut into pieces in one way, and a session over them takes the course of the pieces, in
what it writes as in what it leaves. -/
theorem talk_course (files : Files) (s : State) (lines : List String) :
    let c := Context.inMemory files .working
    ∃! ps, Division lines ps ∧
      (∃ unread, lines = ps.flatMap Piece.lines ++ unread ∧
        (unread ≠ [] → ∃ word, ps.getLast? = some (.farewell word))) ∧
      (Ends c ps s →
        (readAll c lines ⟨s, ""⟩).quieted = (course c ps s).quieted ∧
        talk c (lines.map some) ⟨s, ""⟩ =
          ((course c ps s).stdout ++ closing (course c ps s).next, (course c ps s).stderr)) := by
  intro c
  obtain ⟨ps, division⟩ := Division.exist lines
  refine ⟨ps, ⟨division, division.lines_eq, fun ends => ?_⟩, fun qs other => other.1.unique division⟩
  have whole : (readAll c lines ⟨s, ""⟩).quieted = (course c ps s).quieted :=
    readAll_course rfl division rfl ends
  refine ⟨whole, ?_⟩
  rw [talk_eq, ← Answer.closing_quieted, whole, Answer.closing_quieted]
  exact Prod.ext (congrArg (·.stdout ++ _) whole) (congrArg (·.stderr) whole)

/-- A function over three lines, a lone call of it, and a farewell. -/
theorem talk_twice :
    let c := Context.inMemory ⟨[], []⟩ .working
    let define := ["f twice(n)\n", "return n * 2\n", "endf\n"]
    let lines := define ++ ["\n", "twice(21)\n", "quit\n", "x\n"]
    let ps := [.entry define, .blank "\n", .entry ["twice(21)\n"], .farewell "quit\n"]
    Division lines ps ∧ Ends c ps State.start ∧
      talk c (lines.map some) ⟨State.start, ""⟩ = ("> . . > > 42\n> Goodbye!\n", "") := by
  intro c define lines ps
  have function : IsEntry define :=
    ⟨⟨⟨_, _, rfl, by decide⟩, by decide +kernel⟩, by decide +kernel⟩
  have call : IsEntry ["twice(21)\n"] := ⟨.single (by decide), by decide +kernel⟩
  have division : Division lines ps :=
    .entry function (.blank (by decide) (.entry call (.farewell (by decide))))
  have ends : Ends c ps State.start := by
    refine ⟨fun _ => ?_, fun _ => ?_, trivial⟩
    · decide +kernel
    · decide +kernel
  obtain ⟨qs, ⟨other, -, takes⟩, -⟩ := talk_course ⟨[], []⟩ State.start lines
  cases other.unique division
  exact ⟨division, ends, (takes ends).2.trans (by decide +kernel)⟩

end Repl

end Script
