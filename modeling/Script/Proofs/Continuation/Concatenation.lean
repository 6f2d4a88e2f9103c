import Script.Proofs.Continuation.Entries
import Script.Proofs.StatementCompleteness

/-! Two programs, one after the other on a new line, are one program: the statements of the first and
those of the second. -/

namespace Script

namespace Parser

variable {x : Continuation} {k n m bound bound' : Nat} {p q : Block}

/-- The statements of a row, and then those of what comes after it. -/
theorem statements_joined (opening : x.opening) (enough : x.Enough k n m)
    (bounds : x.Enough k bound bound') {s t : Stream} (follows : x.Follows s) (left : s.Left k)
    (first : statements bound n s = .ok p t)
    (second : ∀ l j, x.more.length ≤ j → answer (statements bound' j ⟨l, x.more, x.stop'⟩) = .ok q) :
    answer (statements bound' m (x.extend s)) = .ok (p ++ q) := by
  have ended {n m : Nat} {p : Block} {s t : Stream} (empty : s.rest = [])
      (long : x.more.length ≤ m) (first : statements bound n s = .ok p t) :
      answer (statements bound' m (x.extend s)) = .ok (p ++ q) := by
    rw [statements_ended empty] at first
    cases first
    rw [Continuation.extend, empty]
    exact second s.last m long
  induction k generalizing n m s p with
  | zero => exact ended left.empty (Nat.le_trans (Nat.le_add_left _ _) enough.long) first
  | succ k ih =>
    by_cases empty : s.rest = []
    · exact ended empty (Nat.le_trans (Nat.le_add_left _ _) enough.long) first
    obtain ⟨n, m, rfl, rfl, fewer⟩ := enough.succ
    have more : (x.extend s).rest ≠ [] := List.append_ne_nil_of_left_ne_nil empty _
    rw [statements, bind_of_ok (atEnd_no empty), if_neg (by decide)] at first
    rw [statements, bind_of_ok (atEnd_no more), if_neg (by decide)]
    obtain ⟨a, u, one, others⟩ := bind_ok.1 first
    obtain ⟨b, u', others, last⟩ := bind_ok.1 others
    cases last
    -- the statement is the same on the longer row, as what follows it opens another
    have agree := (statement_forks bounds).forks (k + 1) (Nat.le_refl _) s follows left
    rw [one] at agree
    cases along : statement bound' (x.extend s) with
    | error e v =>
      rw [along] at agree
      cases agree with
      | ends closed => exact absurd opening closed
    | ok c v =>
      rw [along] at agree
      cases agree with
      | ends closed => exact absurd opening closed
      | along follows' shorter left' =>
        have rest := ih fewer (bounds.mono (Nat.le_succ k)) follows' left' others
        obtain ⟨w, run⟩ := answer_ok rest
        rw [bind_of_ok along, bind_of_ok run]
        rfl

/-- The bounds do not count where they cover the row. -/
theorem statements_enough {ts : List Token} {l stop : Token} (ends : stop.kind = .eof)
    (accepted : answer (statements ts.length ts.length ⟨l, ts, stop⟩) = .ok p)
    (bounds : ts.length ≤ bound) (enough : ts.length ≤ n) (l' : Token) :
    answer (statements bound n ⟨l', ts, stop⟩) = .ok p := by
  let x : Continuation := ⟨stop, [], stop, True, fun _ => True, ends, ends, fun _ => .inl ends⟩
  have follows : x.Follows ⟨l, ts, stop⟩ :=
    ⟨rfl, trivial, fun _ _ => trivial, fun _ more => absurd rfl more⟩
  have none (l : Token) (j : Nat) : answer (statements bound j ⟨l, [], stop⟩) = .ok [] := by
    rw [statements_ended rfl]
    rfl
  obtain ⟨t, run⟩ := answer_ok accepted
  have joined := statements_joined trivial ⟨Nat.le_refl _, enough⟩ ⟨Nat.le_refl _, bounds⟩ follows
    (Nat.le_refl _) run fun l j _ => none l j
  have same : x.extend ⟨l, ts, stop⟩ = ⟨l, ts, stop⟩ := by
    simp [Continuation.extend, x]
  rw [List.append_nil, same] at joined
  rwa [statements_last _ _ _ l]

/-- The row of a program is empty or starts with a token that opens a statement. -/
theorem program_opens {more : List Token} {stop : Token} (proper : ∀ t ∈ more, t.kind ≠ .eof)
    (ends : stop.kind = .eof) (accepted : program (more ++ [stop]) = .ok p) :
    (((more.filter (·.kind ≠ .comment)).head?.getD stop).kind = .eof ∨
      ((more.filter (·.kind ≠ .comment)).head?.getD stop).Opens) := by
  obtain ⟨good, spelt⟩ := program_spells _ p accepted
  have row : Token.row (more ++ [stop]) = more.filter (·.kind ≠ .comment) :=
    congrArg Stream.rest (Stream.ofTokens_proper proper ends)
  rw [row] at spelt
  rcases block_first good spelt with ⟨-, empty⟩ | ⟨t, ts, first, opens⟩
  · rw [empty]
    exact .inl ends
  · rw [first]
    exact .inr opens

/-- A row without comments that does not stop at a `return`. -/
theorem program_joined {front more : List Token} {stop stop' : Token}
    (proper : ∀ t ∈ front, t.kind ≠ .eof) (proper' : ∀ t ∈ more, t.kind ≠ .eof)
    (ends : stop.kind = .eof) (ends' : stop'.kind = .eof)
    (final : ∀ t ∈ (front.filter (·.kind ≠ .comment)).getLast?, ¬ t.Is .keyword "return")
    (first : program (front ++ [stop]) = .ok p) (second : program (more ++ [stop']) = .ok q) :
    program (front ++ more ++ [stop']) = .ok (p ++ q) := by
  have fresh := program_opens proper' ends' second
  rw [program_row proper ends] at first
  rw [program_row proper' ends'] at second
  rw [program_row (List.forall_mem_append.2 ⟨proper, proper'⟩) ends', List.filter_append]
  generalize front.filter (·.kind ≠ .comment) = ts at *
  generalize more.filter (·.kind ≠ .comment) = us at *
  let x : Continuation := ⟨stop, us, stop', True, fun _ => True, ends, ends', fun _ => fresh⟩
  have follows : x.Follows ⟨stop, ts, stop⟩ := by
    refine ⟨rfl, trivial, fun _ _ => trivial, fun _ _ => ?_⟩
    cases last : ts.getLast? with
    | none => exact fun found => absurd (found.1.symm.trans ends) (by decide)
    | some t => exact final t last
  have enough : x.Enough ts.length ts.length (ts ++ us).length :=
    ⟨Nat.le_refl _, Nat.le_of_eq List.length_append.symm⟩
  have bounds : us.length ≤ (ts ++ us).length := by simp
  obtain ⟨t, run⟩ := answer_ok first
  rw [statements_last _ _ _ stop]
  exact statements_joined trivial enough enough follows (Nat.le_refl _) run fun l j long =>
    statements_enough ends' second bounds long l

/-- A moved row is that of a moved program. -/
theorem program_moved {f : Span → Span} (keeps : Keeps f) {more : List Token} {stop : Token}
    (proper : ∀ t ∈ more, t.kind ≠ .eof) (ends : stop.kind = .eof)
    (accepted : program (more ++ [stop]) = .ok p) :
    program (more.map (Token.relocate f) ++ [stop.relocate f]) = .ok (p.map (Stmt.relocate f)) := by
  have proper' : ∀ t ∈ more.map (Token.relocate f), t.kind ≠ .eof := by
    simpa [Token.relocate] using proper
  have ends' : (stop.relocate f).kind = .eof := ends
  have row : (more.map (Token.relocate f)).filter (·.kind ≠ .comment) =
      (more.filter (·.kind ≠ .comment)).map (Token.relocate f) := List.filter_map
  rw [program_row proper ends] at accepted
  rw [program_row proper' ends', row, List.length_map]
  generalize more.filter (·.kind ≠ .comment) = ts at *
  obtain ⟨t, run⟩ := answer_ok accepted
  have moved := (statements_moves keeps ts.length ts.length).run ⟨stop, ts, stop⟩
  rw [run] at moved
  exact congrArg answer moved

end Parser

namespace Token

/-- What comes after a text on a new line comes after its tokens. -/
theorem scanFrom_broken {m : Mark} {cs rest : List Char} {front : List Token} {stop : Token} {k : Nat}
    (broken : Broken cs rest) (scanned : scanFrom cs.length m cs = .ok (front ++ [stop]))
    (enough : (cs ++ rest).length ≤ k) :
    scanFrom k m (cs ++ rest) = preceded front (scanFrom rest.length (m.after cs) rest) := by
  have cuts := scanFrom_cuts m broken (Nat.le_refl _)
  rw [scanned] at cuts
  generalize row : front ++ [stop] = ts at cuts
  cases cuts with
  | first proper others =>
    obtain ⟨rfl, -⟩ := List.append_inj' row rfl
    exact others k enough

/-- The tokens of two texts are those of both with a line feed between them. -/
theorem scan_joined {a b : String} {front us : List Token} {stop : Token}
    (left : scan a = .ok (front ++ [stop])) (right : scan b = .ok us) :
    scan (a ++ "\n" ++ b) = .ok (front ++
      us.map (relocate (Span.shift (a.length + 1) (a.toList.count '\n' + 1)))) := by
  have left : scanFrom a.toList.length Mark.first a.toList = .ok (front ++ [stop]) := by
    rwa [String.length_toList]
  -- up to the line feed
  have line : scanFrom (a.toList ++ ['\n']).length Mark.first (a.toList ++ ['\n']) =
      .ok (front ++ [final (Mark.first.after (a.toList ++ ['\n']))]) := by
    have after : Mark.first.after (a.toList ++ ['\n']) = (Mark.first.after a.toList).after ['\n'] :=
      List.foldl_append
    rw [scanFrom_broken (.inr (.inr rfl)) left (Nat.le_refl _), after]
    rfl
  -- and from there on
  have text : (a ++ "\n" ++ b).toList = a.toList ++ ['\n'] ++ b.toList := by simp
  have size : (a.toList ++ ['\n'] ++ b.toList).length ≤ (a ++ "\n" ++ b).length := by
    rw [← text, String.length_toList]
  have right : scanFrom b.toList.length Mark.first b.toList = .ok us := by
    rwa [String.length_toList]
  unfold scan
  rw [text, scanFrom_broken (.inr (.inl (by simp))) line size, Mark.after_line, scanFrom_shift, right,
    String.length_toList]
  rfl

end Token

/-- The last token of a source, comments apart. -/
def lastToken? (source : String) : Option Token :=
  match Token.scan source with
  | .ok ts => (ts.filter fun t => t.kind ≠ .comment ∧ t.kind ≠ .eof).getLast?
  | .error _ => none

theorem lastToken?_eq {source : String} {front : List Token} {stop : Token}
    (scanned : Token.scan source = .ok (front ++ [stop])) (proper : ∀ t ∈ front, t.kind ≠ .eof)
    (ends : stop.kind = .eof) :
    lastToken? source = (front.filter (·.kind ≠ .comment)).getLast? := by
  have kept : front.filter (fun t => t.kind ≠ .comment ∧ t.kind ≠ .eof) =
      front.filter (·.kind ≠ .comment) :=
    List.filter_congr fun t member => by simp [proper t member]
  unfold lastToken?
  rw [scanned]
  dsimp only
  rw [List.filter_append, kept]
  simp [ends]

/-- The tokens that a program is read from. -/
theorem scan_of_parse {source : String} {p : Block} (parsed : parse source = .ok p) :
    ∃ front stop, Token.scan source = .ok (front ++ [stop]) ∧ (∀ t ∈ front, t.kind ≠ .eof) ∧
      stop.kind = .eof ∧ Parser.program (front ++ [stop]) = .ok p := by
  cases scanned : Token.scan source with
  | error e =>
    unfold parse at parsed
    rw [scanned] at parsed
    cases parsed
  | ok ts =>
    obtain ⟨front, stop, rfl, isEnd, -, -, -, others⟩ := (Token.scan_tiles scanned).ends
    rw [parse_of_scan scanned] at parsed
    exact ⟨front, stop, rfl, fun t member => (others t member).1, isEnd, parsed⟩

/-- Texts with the same tokens, comments apart, are the same programs but for places. -/
theorem parse_contents {a b : String} {ts us : List Token} {p : Block} (parsed : parse a = .ok p)
    (left : Token.scan a = .ok ts) (right : Token.scan b = .ok us)
    (same : Token.contents us = Token.contents ts) :
    ∃ q, parse b = .ok q ∧ bareBlock q = bareBlock p := by
  rw [parse_of_scan left] at parsed
  rw [parse_of_scan right]
  rcases program_contents same with ⟨q, p', accepted, accepted', trees⟩ | ⟨e, e', f, -, failed, -⟩
  · cases parsed.symm.trans accepted'
    exact ⟨q, accepted, trees⟩
  · cases parsed.symm.trans failed

/-- Two programs, of which the first does not end in a `return`, are one with a line feed between
them, and so they are with any other text that has no other tokens. -/
theorem parse_joined {a b : String} {p q : Block} (first : parse a = .ok p) (second : parse b = .ok q)
    (final : ∀ t, lastToken? a = some t → ¬ t.Is .keyword "return") :
    let joined := p ++ q.map (Stmt.relocate (Span.shift (a.length + 1) (a.toList.count '\n' + 1)))
    parse (a ++ "\n" ++ b) = .ok joined ∧
      ∀ c ts us, Token.scan (a ++ "\n" ++ b) = .ok ts → Token.scan c = .ok us →
        Token.contents us = Token.contents ts → ∃ r, parse c = .ok r ∧ bareBlock r = bareBlock joined := by
  obtain ⟨front, stop, left, proper, ends, first⟩ := scan_of_parse first
  obtain ⟨more, stop', right, proper', ends', second⟩ := scan_of_parse second
  rw [lastToken?_eq left proper ends] at final
  have keeps := Span.shift_keeps (a.length + 1) (a.toList.count '\n' + 1)
  have scanned := Token.scan_joined left right
  generalize Span.shift (a.length + 1) (a.toList.count '\n' + 1) = f at keeps scanned ⊢
  have moved := Parser.program_moved keeps proper' ends' second
  have still : ∀ t ∈ more.map (Token.relocate f), t.kind ≠ .eof := by
    simpa [Token.relocate] using proper'
  have parsed : parse (a ++ "\n" ++ b) = .ok (p ++ q.map (Stmt.relocate f)) := by
    rw [parse_of_scan scanned, List.map_append, ← List.append_assoc]
    exact Parser.program_joined proper still ends ends' final first moved
  exact ⟨parsed, fun c ts us => parse_contents parsed⟩

/-- A call with a comment after it, and then an assignment, on two lines and on one. -/
theorem parse_call_assignment :
    let joined := [.expression (.call "go" [] ⟨0, 4, 1, 1⟩) ⟨0, 4, 1, 1⟩,
      .assign (.name "x") (.name "y" ⟨14, 15, 2, 5⟩) ⟨10, 15, 2, 1⟩]
    parse ("go() >> x" ++ "\n" ++ "x = y") = .ok joined ∧
      ∃ r, parse "go() x = y" = .ok r ∧ bareBlock r = bareBlock joined := by
  have first : parse "go() >> x" =
      .ok [.expression (.call "go" [] ⟨0, 4, 1, 1⟩) ⟨0, 4, 1, 1⟩] := by cbv
  have second : parse "x = y" =
      .ok [.assign (.name "x") (.name "y" ⟨4, 5, 1, 5⟩) ⟨0, 5, 1, 1⟩] := by cbv
  have final : ∀ t, lastToken? "go() >> x" = some t → ¬ t.Is .keyword "return" := by
    have last : lastToken? "go() >> x" = some ⟨.delimiter, ")", ⟨3, 4, 1, 4⟩⟩ := by
      decide +kernel
    intro t found
    cases last.symm.trans found
    decide
  have long : Token.scan ("go() >> x" ++ "\n" ++ "x = y") = .ok
      [⟨.name, "go", ⟨0, 2, 1, 1⟩⟩, ⟨.delimiter, "(", ⟨2, 3, 1, 3⟩⟩,
        ⟨.delimiter, ")", ⟨3, 4, 1, 4⟩⟩, ⟨.comment, ">> x", ⟨5, 9, 1, 6⟩⟩,
        ⟨.name, "x", ⟨10, 11, 2, 1⟩⟩, ⟨.operator, "=", ⟨12, 13, 2, 3⟩⟩,
        ⟨.name, "y", ⟨14, 15, 2, 5⟩⟩, ⟨.eof, "", ⟨15, 15, 2, 6⟩⟩] := by
    cbv
  have short : Token.scan "go() x = y" = .ok
      [⟨.name, "go", ⟨0, 2, 1, 1⟩⟩, ⟨.delimiter, "(", ⟨2, 3, 1, 3⟩⟩,
        ⟨.delimiter, ")", ⟨3, 4, 1, 4⟩⟩, ⟨.name, "x", ⟨5, 6, 1, 6⟩⟩,
        ⟨.operator, "=", ⟨7, 8, 1, 8⟩⟩, ⟨.name, "y", ⟨9, 10, 1, 10⟩⟩,
        ⟨.eof, "", ⟨10, 10, 1, 11⟩⟩] := by
    cbv
  obtain ⟨parsed, others⟩ := parse_joined first second final
  exact ⟨parsed, others _ _ _ long short (by decide)⟩

end Script
