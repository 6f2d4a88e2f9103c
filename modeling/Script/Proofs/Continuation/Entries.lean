import Script.Repl
import Script.Proofs.Continuation.Rows
import Script.Proofs.Continuation.Scanning
import Script.Proofs.Continuation.Statements
import Script.Proofs.Layout.Independence

/-! Entries of an interactive session. One that some further text completes is run, or waited for,
unless what it lacks is put down to a place before its end: a quote, an operator, or an object's
bracket or comma. -/

namespace Script

/-- Whole lines: no text, or one that a line feed ends. -/
def WholeLines (s : String) : Prop :=
  s.toList = [] ∨ s.toList.getLast? = some '\n'

instance (s : String) : Decidable (WholeLines s) :=
  inferInstanceAs (Decidable (_ ∨ _))

/-- The fault of a text that stops short, put down to a place before its end. -/
def Fault.beforeEnd : Fault → Bool
  | .lexical .openQuote => true
  | .grammar f => f.blamesLast
  | _ => false

namespace Parser

/-- The beginning of a row that spells a program spells one too, or stops short. -/
theorem program_prefix {front more : List Token} {stop stop' : Token} {p : Block}
    (inside : Span → Prop) (proper : ∀ t ∈ front ++ more, t.kind ≠ .eof) (ends : stop.kind = .eof)
    (ends' : stop'.kind = .eof) (placed : ∀ t ∈ front, inside t.span)
    (accepted : program (front ++ more ++ [stop']) = .ok p) :
    (∃ b, program (front ++ [stop]) = .ok b) ∨
      ∃ e f, program (front ++ [stop]) = .error e ∧ e.fault = .grammar f ∧
        if f.blamesLast then inside e.span else e.span = stop.span := by
  rw [List.forall_mem_append] at proper
  rw [program_row (List.forall_mem_append.2 proper) ends', List.filter_append] at accepted
  rw [program_row proper.1 ends]
  cases row : front.filter (·.kind ≠ .comment) with
  | nil => exact .inl ⟨[], rfl⟩
  | cons t ts =>
    rw [row] at accepted
    have among : ∀ u ∈ t :: ts, inside u.span :=
      fun u member => placed u (List.mem_filter.1 (row ▸ member)).1
    let x : Continuation := ⟨stop, more.filter (·.kind ≠ .comment), stop', False, inside, ends, ends',
      False.elim⟩
    have follows : x.Follows ⟨t, t :: ts, stop⟩ :=
      ⟨rfl, (List.forall_mem_cons.1 among).1, among, False.elim⟩
    have enough : x.Enough (t :: ts).length (t :: ts).length
        (t :: ts ++ more.filter (·.kind ≠ .comment)).length :=
      ⟨Nat.le_refl _, Nat.le_of_eq List.length_append.symm⟩
    have forks := statements_forks not_false enough enough _ follows (Nat.le_refl _)
    rw [statements_last _ _ _ t] at accepted ⊢
    obtain ⟨u', run'⟩ := answer_ok accepted
    change statements _ _ (x.extend ⟨t, t :: ts, stop⟩) = .ok p u' at run'
    rw [run'] at forks
    cases run : statements (t :: ts).length (t :: ts).length ⟨t, t :: ts, stop⟩ with
    | ok b u => exact .inl ⟨b, rfl⟩
    | error e u =>
      rw [run] at forks
      cases forks with
      | stops short =>
        obtain ⟨f, fault, place⟩ := short
        exact .inr ⟨e, f, rfl, fault, place⟩

end Parser

namespace Token

/-- The end of a text comes last. -/
theorem split_ends {front ts us : List Token} {stop : Token} (proper : ∀ t ∈ front, t.kind ≠ .eof)
    (ends : stop.kind = .eof) (whole : front ++ ts = us ++ [stop]) :
    ∃ more, ts = more ++ [stop] ∧ us = front ++ more := by
  rcases List.eq_nil_or_concat ts with rfl | ⟨more, last, rfl⟩
  · have member : stop ∈ front := by
      rw [List.append_nil] at whole
      rw [whole]
      simp
    exact absurd ends (proper stop member)
  · rw [List.concat_eq_append, ← List.append_assoc] at whole
    obtain ⟨same, last⟩ := List.append_inj' whole rfl
    cases last
    exact ⟨more, List.concat_eq_append, same.symm⟩

theorem final_start (cs : List Char) : (final (Mark.first.after cs)).span.start = cs.length := by
  have start : Mark.first = .of cs 0 := rfl
  rw [start, Mark.after_of (show List.drop 0 cs = cs ++ [] by simp)]
  exact Nat.zero_add _

/-- The tokens before the end start in the text. -/
theorem Tiling.starts {text : List Char} {front : List Token} {stop : Token}
    (tiles : Tiling text (front ++ [stop])) :
    ∀ t ∈ front, t.span.start < text.length := by
  intro t member
  obtain ⟨us, stop', same, -, -, -, -, proper⟩ := tiles.ends
  obtain ⟨rfl, -⟩ := List.append_inj' same rfl
  have before := (proper t member).2
  have inside := (tiles.placed t (List.mem_append_left _ member)).inside
  omega

end Token

/-- Whole lines that some text completes are a program, or they stop short. -/
theorem parse_prefix {entry rest : String} {p : Block} (whole : WholeLines entry)
    (goes : parse (entry ++ rest) = .ok p) :
    (∃ b, parse entry = .ok b) ∨
      ∃ e, parse entry = .error e ∧ (e.fault = .lexical .openQuote ∨
        ∃ f, e.fault = .grammar f ∧
          if f.blamesLast then e.span.start < entry.length else e.span.start = entry.length) := by
  have cuts : Token.Cuts Mark.first entry.toList rest.toList (Token.scan entry) :=
    Token.scanFrom_cuts Mark.first (whole.imp_right .inl) (Nat.le_of_eq String.length_toList)
  have size : (entry.toList ++ rest.toList).length ≤ (entry ++ rest).length := by
    rw [← String.toList_append, String.length_toList]
  have text : Token.scan (entry ++ rest) =
      Token.scanFrom (entry ++ rest).length Mark.first (entry.toList ++ rest.toList) := by
    unfold Token.scan
    rw [String.toList_append]
  cases scanned : Token.scan entry with
  | error e =>
    rw [scanned] at cuts
    unfold parse at goes ⊢
    rw [scanned]
    cases cuts with
    | openQuote fault => exact .inr ⟨e, rfl, .inl fault⟩
    | fails failed =>
      obtain ⟨e', failed⟩ := failed _ size
      rw [text, failed] at goes
      cases goes
  | ok ts =>
    rw [scanned] at cuts
    have tiles := Token.scan_tiles scanned
    rw [parse_of_scan scanned]
    cases scanned' : Token.scan (entry ++ rest) with
    | error e =>
      unfold parse at goes
      rw [scanned'] at goes
      cases goes
    | ok us =>
      have tiles' := Token.scan_tiles scanned'
      rw [parse_of_scan scanned'] at goes
      cases cuts with
      | @first front proper others =>
        rw [text, others _ size] at scanned'
        cases later : Token.scanFrom rest.toList.length (Mark.first.after entry.toList) rest.toList with
        | error e =>
          rw [later] at scanned'
          cases scanned'
        | ok vs =>
          rw [later] at scanned'
          cases scanned'
          obtain ⟨whole', stop', same, isEnd, -, -, -, others'⟩ := tiles'.ends
          obtain ⟨more, rfl, rfl⟩ := Token.split_ends proper isEnd same
          have goes : Parser.program (front ++ (more ++ [stop'])) = .ok p := goes
          rw [← List.append_assoc] at goes
          have proper' : ∀ t ∈ front ++ more, t.kind ≠ .eof := fun t member => (others' t member).1
          have finalEnds : (Token.final (Mark.first.after entry.toList)).kind = .eof := rfl
          rcases Parser.program_prefix (·.start < entry.toList.length) proper' finalEnds isEnd
            tiles.starts goes with
            accepted | ⟨e, f, failed, fault, place⟩
          · exact .inl accepted
          · refine .inr ⟨e, failed, .inr ⟨f, fault, ?_⟩⟩
            rw [String.length_toList] at place
            split at place
            · rename_i blames
              rwa [if_pos blames]
            · rename_i blames
              rw [if_neg blames, place, Token.final_start, String.length_toList]

namespace Repl

/-- What running the statements of an entry makes of a session. -/
def ran (c : Context) (s : State) (entry : String) (b : Block) : Answer :=
  match runEntry c b (Session.quiet s) with
  | .ok _ s => ⟨some ⟨s, ""⟩, s.machine.output, ""⟩
  | .error halt s => ⟨some ⟨s, ""⟩, s.machine.output, Session.report halt entry "<repl>" false⟩

/-- The session goes on as it was, and the entry with it. -/
def waits (s : State) (entry : String) : Answer :=
  ⟨some ⟨s, entry⟩, "", ""⟩

/-- The session goes on as it was, without the entry. -/
def rejected (s : State) (entry : String) (e : Error) : Answer :=
  ⟨some ⟨s, ""⟩, "", Session.report (.fault e) entry "<repl>" false⟩

variable {c : Context} {s : State} {entry : String}

theorem enter_of_ok {b : Block} (parsed : parse entry = .ok b) :
    enter c s entry = ran c s entry b := by
  unfold enter
  rw [parsed]
  rfl

theorem enter_of_error {e : Error} (failed : parse entry = .error e) :
    enter c s entry = if isIncomplete e entry then waits s entry else rejected s entry e := by
  unfold enter
  rw [failed]
  rfl

theorem isIncomplete_eq {e : Error}
    (short : e.fault = .lexical .openQuote ∨ ∃ f, e.fault = .grammar f ∧
      if f.blamesLast then e.span.start < entry.length else e.span.start = entry.length) :
    isIncomplete e entry = !e.fault.beforeEnd := by
  unfold isIncomplete Error.stage
  rcases short with openQuote | ⟨f, grammar, place⟩
  · rw [openQuote]
    rfl
  · rw [grammar]
    change decide (Stage.parsing = .parsing ∧ _) = !f.blamesLast
    cases blames : f.blamesLast with
    | true =>
      rw [blames, if_pos rfl] at place
      simpa using place
    | false =>
      rw [blames, if_neg Bool.false_ne_true] at place
      simp [place]

/-- An entry that some text completes is run or waited for, unless the fault of its end is put down
to a place before it. -/
theorem enter_completable (c : Context) (s : State) {entry rest : String} {p : Block}
    (whole : WholeLines entry) (goes : parse (entry ++ rest) = .ok p) :
    (∃ b, parse entry = .ok b ∧ enter c s entry = ran c s entry b) ∨
      ∃ e, parse entry = .error e ∧
        enter c s entry = if e.fault.beforeEnd then rejected s entry e else waits s entry := by
  rcases parse_prefix whole goes with ⟨b, parsed⟩ | ⟨e, failed, short⟩
  · exact .inl ⟨b, parsed, enter_of_ok parsed⟩
  · refine .inr ⟨e, failed, ?_⟩
    rw [enter_of_error failed, isIncomplete_eq short]
    cases e.fault.beforeEnd <;> rfl

/-- A function to be ended on a later line. -/
theorem enter_open_function :
    ∃ e, parse "f go()\n" = .error e ∧
      enter (.inMemory ⟨[], []⟩ .working) State.start "f go()\n" =
        if e.fault.beforeEnd then rejected State.start "f go()\n" e
        else waits State.start "f go()\n" := by
  have goes : parse ("f go()\n" ++ "endf\n") =
      .ok [.function ⟨"go", [], [], ⟨0, 11, 1, 1⟩⟩ ⟨0, 11, 1, 1⟩] := by cbv
  have open' : parse "f go()\n" = .error ⟨.grammar (.openBlock "f" ["endf"]), ⟨7, 7, 2, 1⟩⟩ := by cbv
  refine (enter_completable (.inMemory ⟨[], []⟩ .working) State.start (by decide) goes).resolve_left ?_
  rintro ⟨b, parsed, -⟩
  rw [open'] at parsed
  cases parsed

/-- The same with an operand to come. The place is that of the operator. -/
theorem enter_open_operand :
    let entry := "f go()\nx = 1 +\n"
    let answer := enter (.inMemory ⟨[], []⟩ .working) State.start entry
    WholeLines entry ∧ (parse (entry ++ "2\nendf\n")).isOk ∧
      answer.next.map Repl.pending = some "" ∧
      answer.stderr = "[Error]\nFile: <repl>, Position: 2:7\n\n" ++
        "x = 1 +\n      ^\n\n-> Expected expression after '+'\n" := by
  decide +kernel

end Repl

end Script
