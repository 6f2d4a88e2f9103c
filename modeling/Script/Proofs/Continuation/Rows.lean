import Script.Proofs.Continuation.Forks
import Script.Parser.Statement

/-! Rows of tokens as a program is read from them. -/

namespace Script

theorem Stream.ofTokens_proper {front : List Token} {stop : Token}
    (proper : ∀ t ∈ front, t.kind ≠ .eof) (ends : stop.kind = .eof) :
    Stream.ofTokens (front ++ [stop]) = ⟨stop, front.filter (·.kind ≠ .comment), stop⟩ := by
  have kept : (front ++ [stop]).filter (·.kind ≠ .comment) =
      front.filter (·.kind ≠ .comment) ++ [stop] := by
    simp [ends]
  have before : ∀ t ∈ front.filter (·.kind ≠ .comment), t.kind ≠ .eof :=
    fun t member => proper t (List.mem_filter.1 member).1
  have found : (front.filter (·.kind ≠ .comment) ++ [stop]).find? (·.kind = .eof) = some stop := by
    rw [List.find?_append, List.find?_eq_none.2 (by simpa using before)]
    simp [ends]
  have row : (front.filter (·.kind ≠ .comment) ++ [stop]).takeWhile (·.kind ≠ .eof) =
      front.filter (·.kind ≠ .comment) := by
    rw [List.takeWhile_append_of_pos (by simpa using before)]
    simp [ends]
  unfold Stream.ofTokens
  dsimp only
  rw [kept, found, row]
  rfl

namespace Parser

variable {α β : Type}

/-- What a run of a parser comes to, wherever it leaves the row. -/
def answer : EStateM.Result Error Stream α → Except Error α
  | .ok a _ => .ok a
  | .error e _ => .error e

theorem answer_ok {r : EStateM.Result Error Stream α} {a : α} (h : answer r = .ok a) :
    ∃ t, r = .ok a t := by
  cases r with
  | ok b t =>
    cases h
    exact ⟨t, rfl⟩
  | error e t => cases h

theorem program_eq (tokens : List Token) :
    program tokens = answer (statements (Stream.ofTokens tokens).rest.length
      (Stream.ofTokens tokens).rest.length (Stream.ofTokens tokens)) := by
  unfold program EStateM.run answer
  dsimp only
  split <;> split <;> simp_all

theorem program_row {front : List Token} {stop : Token} (proper : ∀ t ∈ front, t.kind ≠ .eof)
    (ends : stop.kind = .eof) :
    program (front ++ [stop]) = answer (statements (front.filter (·.kind ≠ .comment)).length
      (front.filter (·.kind ≠ .comment)).length
      ⟨stop, front.filter (·.kind ≠ .comment), stop⟩) := by
  rw [program_eq, Stream.ofTokens_proper proper ends]

theorem bind_congr_row {p : Parser α} {f : α → Parser β} {s s' : Stream} (same : p s = p s') :
    (p >>= f) s = (p >>= f) s' := by
  change EStateM.bind p f s = EStateM.bind p f s'
  unfold EStateM.bind
  rw [same]

/-- A statement does not look at what was taken before it. -/
theorem statement_last (n : Nat) (l l' t : Token) (ts : List Token) (stop : Token) :
    statement n ⟨l, t :: ts, stop⟩ = statement n ⟨l', t :: ts, stop⟩ ∨
      ∃ e, statement n ⟨l, t :: ts, stop⟩ = .error e ⟨l, t :: ts, stop⟩ ∧
        statement n ⟨l', t :: ts, stop⟩ = .error e ⟨l', t :: ts, stop⟩ := by
  cases n with
  | zero => exact .inr ⟨_, rfl, rfl⟩
  | succ n =>
    have look (l : Token) : peek ⟨l, t :: ts, stop⟩ = .ok t ⟨l, t :: ts, stop⟩ := rfl
    unfold statement
    rw [bind_of_ok (look l), bind_of_ok (look l')]
    cases t.kind with
    | keyword => exact .inl rfl
    | name =>
      refine .inl ?_
      dsimp only
      unfold nameStatement
      rw [bind_of_ok (look l), bind_of_ok (look l')]
      exact bind_congr_row (bind_congr_row rfl)
    | _ => exact .inr ⟨_, rfl, rfl⟩

theorem statements_last (bound n : Nat) (l l' : Token) (ts : List Token) (stop : Token) :
    answer (statements bound n ⟨l, ts, stop⟩) = answer (statements bound n ⟨l', ts, stop⟩) := by
  cases n with
  | zero => rfl
  | succ n =>
    cases ts with
    | nil => rfl
    | cons t ts =>
      have going (l : Token) : atEnd ⟨l, t :: ts, stop⟩ = .ok false ⟨l, t :: ts, stop⟩ := rfl
      unfold statements
      rw [bind_of_ok (going l), bind_of_ok (going l'), if_neg (by decide)]
      rcases statement_last bound l l' t ts stop with same | ⟨e, run, run'⟩
      · exact congrArg answer (bind_congr_row same)
      · rw [bind_of_error run, bind_of_error run']
        rfl

end Parser

end Script
