import Mathlib.Data.List.TakeWhile
import Script.Proofs.Continuation.Rows
import Script.Proofs.StatementSoundness
import Script.Proofs.Walk.Statements

/-! The parser on rows of tokens of any kind: without an end, with ends in the middle, with comments
anywhere. -/

namespace Script

/-- The end that a row without one gets, at its last token. -/
def closing (ts : List Token) : Token :=
  ⟨.eof, "", (ts.getLast?.map Token.span).getD default⟩

/-- The tokens that the parser holds: no comments, and an end last. -/
def held (tokens : List Token) : List Token :=
  let ts := tokens.filter (·.kind ≠ .comment)
  if ts.getLast?.any (·.kind = .eof) then ts else ts ++ [closing ts]

theorem held_takeWhile (tokens : List Token) :
    (held tokens).takeWhile (·.kind ≠ .eof) = (Stream.ofTokens tokens).rest := by
  simp only [held, Stream.ofTokens]
  split
  · rfl
  · rw [List.takeWhile_append]
    split
    · rename_i whole
      rw [(List.takeWhile_prefix _).eq_of_length whole]
      simp [closing]
    · rfl

theorem held_find (tokens : List Token) :
    (held tokens).find? (·.kind = .eof) = some (Stream.ofTokens tokens).stop := by
  simp only [held, Stream.ofTokens]
  generalize tokens.filter (·.kind ≠ .comment) = ts
  split
  · rename_i ended
    obtain ⟨t, last, isEnd⟩ := (Option.any_eq_true _ _).1 ended
    have found : (ts.find? (·.kind = .eof)).isSome :=
      List.find?_isSome.2 ⟨t, List.mem_of_getLast? last, isEnd⟩
    obtain ⟨u, found⟩ := Option.isSome_iff_exists.1 found
    rw [found]
    rfl
  · rw [List.find?_append]
    cases ts.find? (·.kind = .eof) with
    | none => simp [closing]
    | some t => rfl

/-- A row is what stands before its first end, that end, and the rest. -/
theorem takeWhile_append_end {ts : List Token} {stop : Token}
    (found : ts.find? (·.kind = .eof) = some stop) :
    ts.takeWhile (·.kind ≠ .eof) ++ stop :: (ts.dropWhile (·.kind ≠ .eof)).tail = ts := by
  obtain ⟨ends, before, after, rfl, proper⟩ := List.find?_eq_some_iff_append.1 found
  have proper : ∀ t ∈ before, decide (t.kind ≠ .eof) = true := by simpa using proper
  rw [List.takeWhile_append_of_pos proper, List.dropWhile_append_of_pos proper]
  simp [of_decide_eq_true ends]

theorem ofTokens_proper_rest (tokens : List Token) :
    ∀ t ∈ (Stream.ofTokens tokens).rest, t.kind ≠ .eof := by
  intro t member
  rw [← held_takeWhile] at member
  simpa using List.mem_takeWhile_imp member

/-- The row that the parser of `tokens` holds. -/
def Row.of (tokens : List Token) : Row where
  before := (Stream.ofTokens tokens).rest
  stop := (Stream.ofTokens tokens).stop
  beyond := ((held tokens).dropWhile (·.kind ≠ .eof)).tail
  proper := ofTokens_proper_rest tokens
  ends := Stream.ofTokens_ends tokens

theorem Row.of_tokens (tokens : List Token) : (Row.of tokens).tokens = held tokens := by
  have parted := takeWhile_append_end (held_find tokens)
  rwa [held_takeWhile] at parted

theorem Row.of_stream (tokens : List Token) : (Row.of tokens).stream 0 = Stream.ofTokens tokens :=
  rfl

namespace Walk

variable {r : Row} {α : Type} {p : Parser α} {i j j' : Nat} {looks looks' : List Nat}
  {res res' : Except Error α}

theorem stream_inj (inside : i ≤ r.first) (inside' : j ≤ r.first)
    (same : r.stream i = r.stream j) : i = j := by
  have rest := congrArg (fun s => s.rest.length) same
  simp only [Row.stream_rest, List.length_drop] at rest
  change r.first - i = r.first - j at rest
  omega

/-- A parser goes one way only. -/
theorem unique (walk : Walk r p i looks res j) (walk' : Walk r p i looks' res' j')
    (inside : i ≤ r.first) : res = res' ∧ j = j' := by
  have same : outcome res (r.stream j) = outcome res' (r.stream j') :=
    (walk.runs inside).symm.trans (walk'.runs inside)
  have inside' := (walk.stays_inside inside).2.1
  have inside'' := (walk'.stays_inside inside).2.1
  cases res with
  | ok a =>
    cases res' with
    | ok b =>
      obtain ⟨rfl, place⟩ : a = b ∧ r.stream j = r.stream j' := by simpa [outcome] using same
      exact ⟨rfl, stream_inj inside' inside'' place⟩
    | error e => cases same
  | error e =>
    cases res' with
    | ok b => cases same
    | error e' =>
      obtain ⟨rfl, place⟩ : e = e' ∧ r.stream j = r.stream j' := by simpa [outcome] using same
      exact ⟨rfl, stream_inj inside' inside'' place⟩

end Walk

namespace Parser

open Row

/-- The walk of a program, with bounds that are enough. -/
theorem program_walk (tokens : List Token) {bound n : Nat} (enough : (Row.of tokens).first ≤ bound)
    (enough' : (Row.of tokens).first ≤ n) :
    ∃ looks j, Walk (Row.of tokens) (statements bound n) 0 looks (program tokens) j := by
  let r := Row.of tokens
  have here : r.Short r.first 0 := Nat.le_add_left _ _
  have settles := statements_settles (r := r) (k := r.first) ⟨enough, Nat.le_refl _⟩
    ⟨enough', Nat.le_refl _⟩
  obtain ⟨res, j, ⟨looks, walk⟩, ⟨_, walk'⟩, -⟩ := settles 0 (Nat.zero_le _) here
  have answered : program tokens = res := by
    rw [program_eq, ← Row.of_stream]
    change answer (statements r.first r.first (r.stream 0)) = res
    rw [walk'.runs (Nat.zero_le _)]
    cases res <;> rfl
  exact ⟨looks, j, answered ▸ walk⟩

/-- Nothing behind the first end counts. -/
theorem program_behind {front : List Token} {stop : Token} (ends : stop.kind = .eof)
    (behind behind' : List Token) :
    program (front ++ stop :: behind) = program (front ++ stop :: behind') := by
  have row (behind : List Token) :
      Stream.ofTokens (front ++ stop :: behind) = Stream.ofTokens (front ++ [stop]) := by
    have kept (ts : List Token) : (front ++ stop :: ts).filter (·.kind ≠ .comment) =
        front.filter (·.kind ≠ .comment) ++ stop :: ts.filter (·.kind ≠ .comment) := by
      simp [ends]
    simp only [Stream.ofTokens, kept, List.filter_nil, List.find?_append, List.takeWhile_append,
      List.find?_cons, List.takeWhile_cons, ends, ne_eq, not_true, decide_true, decide_false]
    cases (front.filter (·.kind ≠ .comment)).find? (·.kind = .eof) with
    | none => simp
    | some t => simp
  rw [program_eq, program_eq, row behind, row behind']

/-- Whatever tokens a row has, its parser ends with statements or an error of the grammar, however
large the bounds on its steps are. It never looks behind the first end of the row that it holds, nor
outside that row; each statement takes a token; and what stands behind an end does not count. -/
theorem program_total (tokens : List Token) :
    (Row.of tokens).tokens = held tokens ∧
    (∀ bound n, (Row.of tokens).first ≤ bound → (Row.of tokens).first ≤ n →
      (∃ looks j, Walk (Row.of tokens) (statements bound n) 0 looks (program tokens) j) ∧
      ∀ looks res j, Walk (Row.of tokens) (statements bound n) 0 looks res j →
        res = program tokens ∧
        ∀ place ∈ j :: looks, place ≤ (Row.of tokens).first ∧ place < (held tokens).length) ∧
    (∀ e, program tokens = .error e → e.stage = .parsing) ∧
    (∀ i bound, i ≤ (Row.of tokens).first → (Row.of tokens).first ≤ i + bound →
      (∃ looks res j, Walk (Row.of tokens) (statement bound) i looks res j) ∧
      ∀ looks s j, Walk (Row.of tokens) (statement bound) i looks (.ok s) j → i < j) ∧
    (∀ front stop behind, tokens = front ++ stop :: behind → stop.kind = .eof →
      ∀ behind', program (front ++ stop :: behind') = program tokens) := by
  have length : (Row.of tokens).first < (held tokens).length :=
    Row.of_tokens tokens ▸ (Row.of tokens).first_lt
  refine ⟨Row.of_tokens tokens, fun bound n enough enough' => ?_, fun e failed => ?_,
    fun i bound inside enough => ?_, ?_⟩
  · obtain ⟨looks, j, walk⟩ := program_walk tokens enough enough'
    refine ⟨⟨looks, j, walk⟩, fun looks' res j' walk' => ?_⟩
    obtain ⟨-, inside, seen⟩ := walk'.stays_inside (Nat.zero_le _)
    refine ⟨(walk'.unique walk (Nat.zero_le _)).1, fun place visited => ?_⟩
    have bounded : place ≤ (Row.of tokens).first :=
      List.forall_mem_cons (p := fun place => place ≤ _).2 ⟨inside, seen⟩ place visited
    exact ⟨bounded, Nat.lt_of_le_of_lt bounded length⟩
  · obtain ⟨looks, j, walk⟩ := program_walk tokens (Nat.le_refl _) (Nat.le_refl _)
    obtain ⟨f, grammar⟩ := walk.fault e failed
    rw [Error.stage, grammar]
    rfl
  · have settles := statement_settles (r := Row.of tokens) (k := (Row.of tokens).first - i)
      (n := bound) (m := bound) ⟨by omega, by omega⟩ _ (Nat.le_refl _)
    have short : (Row.of tokens).Short ((Row.of tokens).first - i) i := by
      unfold Row.Short
      omega
    obtain ⟨res, j, ⟨looks, walk⟩, -, good⟩ := settles i inside short
    refine ⟨⟨looks, res, j, walk⟩, fun looks' s j' walk' => ?_⟩
    obtain ⟨answered, rfl⟩ := walk.unique walk' inside
    rcases Nat.lt_or_eq_of_le inside with less | rfl
    · have := (good s answered).2
      omega
    · obtain ⟨_, ended⟩ := statement_ended (r := Row.of tokens) bound
      cases (walk'.unique ended inside).1
  · rintro front stop behind rfl ends behind'
    exact program_behind ends behind' behind

end Parser

end Script
