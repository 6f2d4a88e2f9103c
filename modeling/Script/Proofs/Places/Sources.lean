import Script.Proofs.Places.Parsing
import Script.Proofs.Tiling

/-! A source text and its tree. All nodes of the tree are stretches of the text, and so is the place
of the fault of a text that is none. -/

namespace Script

theorem LexFault.reach_prefix (f : LexFault) (c : Char) (cs : List Char) :
    Token.reach f c cs <+: c :: cs := by
  cases f with
  | openQuote => exact List.prefix_refl _
  | character d => exact ⟨cs, rfl⟩
  | operator d => exact ⟨cs, rfl⟩

namespace Token

theorem scanFrom_error {text cs : List Char} {n i : Nat} {e : Error} (here : text.drop i = cs)
    (failed : scanFrom n (.of text i) cs = .error e) : e.span.In text := by
  induction n generalizing i cs with
  | zero =>
    cases cs with
    | nil => cases failed
    | cons c cs => cases failed
  | succ n ih =>
    cases cs with
    | nil => cases failed
    | cons c cs =>
      cases read : lexeme c cs with
      | error f =>
        rw [scanFrom, read] at failed
        cases failed
        obtain ⟨rest, cut⟩ := f.reach_prefix c cs
        have size := congrArg List.length cut
        have whole := congrArg List.length here
        simp only [List.length_append, List.length_cons, List.length_drop] at size whole
        dsimp only
        rw [Mark.after_of (here.trans cut.symm)]
        exact Mark.spanTo_in (Nat.le_add_right _ _) (by omega)
      | ok l =>
        obtain ⟨rest, follows, same⟩ := scanFrom_lexeme here read
        rw [same] at failed
        unfold Lexeme.before at failed
        cases later : scanFrom n (.of text (i + l.taken.length)) rest with
        | error e' =>
          rw [later] at failed
          cases failed
          exact ih follows.left later
        | ok us =>
          rw [later] at failed
          cases token : l.token with
          | none =>
            rw [token] at failed
            cases failed
          | some t =>
            rw [token] at failed
            cases failed

theorem scan_error {source : String} {e : Error} (failed : scan source = .error e) :
    e.span.In source.toList :=
  scanFrom_error rfl failed

end Token

theorem in_spanning (text : List Char) : Spanning (Span.In · text) := by
  intro s t first last
  refine ⟨Nat.le_max_right _ _, ?_, first.line, first.column⟩
  have := first.ordered
  have := first.inside
  have := last.inside
  change max t.stop s.start ≤ text.length
  omega

theorem Stream.ofTokens_placed {R : Span → Prop} {ts : List Token} (placed : ∀ t ∈ ts, R t.span)
    (ends : ∃ t ∈ ts, t.kind = .eof) : (Stream.ofTokens ts).Placed R := by
  obtain ⟨t, member, isEnd⟩ := ends
  have among : ∀ u ∈ ts.filter (·.kind ≠ .comment), R u.span :=
    fun u filtered => placed u (List.mem_filter.1 filtered).1
  have kept : t ∈ ts.filter (·.kind ≠ .comment) := by
    rw [List.mem_filter]
    exact ⟨member, by simp [isEnd]⟩
  have stops : R (Stream.ofTokens ts).stop.span := by
    unfold Stream.ofTokens
    dsimp only
    cases found : (ts.filter (·.kind ≠ .comment)).find? (·.kind = .eof) with
    | none =>
      have missed := List.find?_eq_none.1 found t kept
      simp [isEnd] at missed
    | some stop => exact among stop (List.mem_of_find?_eq_some found)
  exact ⟨stops, fun u taken => among u ((List.takeWhile_prefix _).subset taken), stops⟩

theorem program_placed {R : Span → Prop} (spanning : Spanning R) {ts : List Token}
    (placed : ∀ t ∈ ts, R t.span) (ends : ∃ t ∈ ts, t.kind = .eof) :
    (∀ b, Parser.program ts = .ok b → ∀ p ∈ blockSpans b, R p) ∧
      ∀ e, Parser.program ts = .error e → R e.span := by
  let row := Stream.ofTokens ts
  have ended := Parser.statements_places spanning row.rest.length row.rest.length row
    (Stream.ofTokens_placed placed ends)
  unfold Parser.program EStateM.run
  dsimp only
  cases run : Parser.statements row.rest.length row.rest.length row with
  | ok b rest =>
    rw [run] at ended
    refine ⟨?_, nofun⟩
    rintro b ⟨⟩
    exact ended.1
  | error e rest =>
    rw [run] at ended
    refine ⟨nofun, ?_⟩
    rintro e ⟨⟩
    exact ended.1

/-- A text gives a tree of places in it, or a fault at a place in it. -/
theorem parse_placed (source : String) :
    (∀ b, parse source = .ok b → ∀ p ∈ blockSpans b, p.In source.toList) ∧
      ∀ e, parse source = .error e → e.span.In source.toList := by
  unfold parse
  cases scanned : Token.scan source with
  | error e =>
    refine ⟨nofun, ?_⟩
    rintro e ⟨⟩
    exact Token.scan_error scanned
  | ok ts =>
    have cut := Token.scan_cut scanned
    obtain ⟨front, stop, rfl, isEnd, -⟩ := cut.ends
    exact program_placed (in_spanning _) cut.placed ⟨stop, by simp, isEnd⟩

end Script
