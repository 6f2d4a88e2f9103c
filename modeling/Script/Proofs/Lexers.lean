import Script.Proofs.Scans
import Script.Token.Lexer

/-! Lexers and what they leave. A lexer fails exactly where no lexeme begins after some that it has
taken, and however a scan has ended, the next one ends so again. -/

namespace Script

namespace Lexer

/-- The tokens that a scan has found, up to the end of the text or to the fault. -/
def found : EStateM.Result Error Lexer (List Token) → List Token
  | .ok ts _ => ts
  | .error _ x => x.tokens

def answer : EStateM.Result Error Lexer (List Token) → Except Error (List Token)
  | .ok ts _ => .ok ts
  | .error e _ => .error e

/-- The lexer that a scan leaves. -/
def after : EStateM.Result Error Lexer (List Token) → Lexer
  | .ok _ x => x
  | .error _ x => x

end Lexer

namespace Lexing

open Token

variable {α β : Type} {source : List Char} {ts : List Token} {f : LexFault} {i j : Nat}

theorem bind_ok {p : Lexing α} {g : α → Lexing β} {x y : Lexer} {a : α} (ran : p x = .ok a y) :
    (p >>= g) x = g a y := by
  change EStateM.bind p g x = _
  simp only [EStateM.bind, ran]

theorem bind_error {p : Lexing α} {g : α → Lexing β} {x y : Lexer} {e : Error}
    (ran : p x = .error e y) : (p >>= g) x = .error e y := by
  change EStateM.bind p g x = _
  simp only [EStateM.bind, ran]

theorem takeLexeme_ok {c : Char} {cs : List Char} {l : Lexeme} (read : lexeme c cs = .ok l)
    (x : Lexer) :
    takeLexeme c cs x = .ok () ⟨x.source,
      x.tokens ++ l.tokens (x.current.spanTo (x.current.after l.taken)), x.current,
      x.current.after l.taken⟩ := by
  obtain ⟨taken, token⟩ := l
  unfold takeLexeme
  rw [read]
  cases token with
  | none =>
    rw [Lexeme.tokens]
    simp only [Option.map_none, Option.toList_none, List.append_nil]
    rfl
  | some t => rfl

theorem takeLexeme_error {c : Char} {cs : List Char} (read : lexeme c cs = .error f) (x : Lexer) :
    takeLexeme c cs x =
      .error ⟨.lexical f, x.current.spanTo (x.current.after (reach f c cs))⟩
        ⟨x.source, x.tokens, x.current, x.current.after (reach f c cs)⟩ := by
  unfold takeLexeme
  rw [read]
  rfl

theorem takeAll_cons {n : Nat} {x : Lexer} {c : Char} {cs : List Char} (left : x.left = c :: cs) :
    takeAll (n + 1) x = (takeLexeme c cs >>= fun _ => takeAll n) x := by
  have look : (get : Lexing Lexer) x = .ok x x := rfl
  rw [takeAll, bind_ok look, left]

theorem takeAll_end {n : Nat} {x : Lexer} (left : x.left = []) : takeAll n x = .ok () x := by
  cases n with
  | zero => rfl
  | succ n =>
    have look : (get : Lexing Lexer) x = .ok x x := rfl
    rw [takeAll, bind_ok look, left]
    rfl

/-- The lexer takes what a scan of its text takes. -/
theorem takeAll_reads (reads : Reads source i ts j) {n : Nat} (enough : (source.drop i).length ≤ n)
    (tokens : List Token) (start : Mark) :
    ∃ m s, (source.drop j).length ≤ m ∧
      takeAll n ⟨source, tokens, start, .of source i⟩ =
        takeAll m ⟨source, tokens ++ ts, s, .of source j⟩ := by
  induction reads generalizing n tokens start with
  | stay => exact ⟨n, start, enough, by rw [List.append_nil]⟩
  | @step i j c cs l ts here read next ih =>
    rw [here] at enough
    obtain ⟨n, rfl⟩ := Nat.exists_eq_succ_of_ne_zero (Nat.ne_zero_of_lt enough)
    obtain ⟨rest, follows, -⟩ := scanFrom_lexeme (n := n) here read
    have shorter := follows.shorter
    rw [← follows.left] at shorter
    let x : Lexer := ⟨source, tokens, start, .of source i⟩
    have took := takeLexeme_ok read x
    rw [show x.current = .of source i from rfl, Mark.after_of follows.cut] at took
    obtain ⟨m, s, fits, later⟩ := ih (n := n) (by omega)
      (tokens ++ l.tokens ((Mark.of source i).spanTo (.of source (i + l.taken.length))))
      (.of source i)
    refine ⟨m, s, fits, ?_⟩
    rw [takeAll_cons (x := x) here, bind_ok took, later, List.append_assoc]

theorem scan_eq (x : Lexer) :
    scan x = (takeAll x.source.length >>= fun _ => do
      let y ← get
      set { y with tokens := [] }
      return y.tokens ++ [final y.current]) ⟨x.source, [], x.start, .of x.source 0⟩ :=
  rfl

theorem scan_end {x : Lexer} (reads : Reads x.source 0 ts x.source.length) :
    ∃ s, scan x = .ok (ts ++ [final (.of x.source x.source.length)])
      ⟨x.source, [], s, .of x.source x.source.length⟩ := by
  obtain ⟨m, s, -, run⟩ := takeAll_reads reads (n := x.source.length) (by simp) [] x.start
  have done : Lexer.left ⟨x.source, [] ++ ts, s, .of x.source x.source.length⟩ = [] :=
    List.drop_length
  rw [takeAll_end done] at run
  refine ⟨s, ?_⟩
  rw [scan_eq, bind_ok run]
  rfl

theorem scan_stuck {x : Lexer} (reads : Reads x.source 0 ts j)
    (stuck : Impossible f (x.source.drop j)) :
    ∃ current, scan x = .error (faultAt x.source j f) ⟨x.source, ts, .of x.source j, current⟩ := by
  obtain ⟨m, s, fits, run⟩ := takeAll_reads reads (n := x.source.length) (by simp) [] x.start
  obtain ⟨c, cs, here⟩ := stuck.exists_cons
  rw [here] at stuck fits
  obtain ⟨m, rfl⟩ := Nat.exists_eq_succ_of_ne_zero (Nat.ne_zero_of_lt fits)
  let y : Lexer := ⟨x.source, [] ++ ts, s, .of x.source j⟩
  have failed := takeLexeme_error (lexeme_error_iff.2 stuck) y
  rw [show y.current = .of x.source j from rfl, spanTo_reach here] at failed
  rw [takeAll_cons (x := y) here, bind_error failed] at run
  exact ⟨_, by rw [scan_eq, bind_error run]; rfl⟩

/-- What a scan can do. -/
theorem scan_cases (x : Lexer) :
    (∃ ts s, Reads x.source 0 ts x.source.length ∧
      scan x = .ok (ts ++ [final (.of x.source x.source.length)])
        ⟨x.source, [], s, .of x.source x.source.length⟩) ∨
    ∃ ts j f current, Reads x.source 0 ts j ∧ Impossible f (x.source.drop j) ∧
      scan x = .error (faultAt x.source j f) ⟨x.source, ts, .of x.source j, current⟩ := by
  obtain ⟨ts, j, reads, stops⟩ := exists_reads (Nat.zero_le x.source.length)
  rcases stops with rfl | ⟨f, stuck⟩
  · obtain ⟨s, run⟩ := scan_end reads
    exact .inl ⟨ts, s, reads, run⟩
  · obtain ⟨current, run⟩ := scan_stuck reads stuck
    exact .inr ⟨ts, j, f, current, reads, stuck, run⟩

theorem answer_scan (x : Lexer) : Lexer.answer (scan x) = Token.scan (String.ofList x.source) := by
  rcases scan_cases x with ⟨ts, s, reads, run⟩ | ⟨ts, j, f, current, reads, stuck, run⟩
  · rw [run, reads.scan_end]
    rfl
  · rw [run, reads.scan_stuck stuck]
    rfl

theorem source_after (x : Lexer) : (Lexer.after (scan x)).source = x.source := by
  rcases scan_cases x with ⟨ts, s, -, run⟩ | ⟨ts, j, f, current, -, -, run⟩
  · rw [run]
    rfl
  · rw [run]
    rfl

/-- Of what a lexer holds, a scan looks at the text alone. -/
theorem scan_same_source {x y : Lexer} (same : y.source = x.source) (some : x.source ≠ []) :
    scan y = scan x := by
  obtain ⟨source, tokens, start, current⟩ := x
  obtain ⟨source', tokens', start', current'⟩ := y
  cases same
  cases source with
  | nil => exact absurd rfl some
  | cons c cs =>
    -- the first lexeme sets its start
    rfl

theorem scan_again (x : Lexer) : scan (Lexer.after (scan x)) = scan x := by
  by_cases none : x.source = []
  · obtain ⟨source, tokens, start, current⟩ := x
    cases none
    rfl
  · exact scan_same_source (source_after x) none

theorem prefix_of_found {x : Lexer} {p q : List Char} {us : List Token} (whole : x.source = p ++ q)
    (reads : Reads p 0 us p.length) (begins : us <+: Lexer.found (scan x)) :
    Reads x.source 0 us p.length := by
  rcases scan_cases x with ⟨ts, s, others, run⟩ | ⟨ts, j, f, current, others, -, run⟩
  · rw [run] at begins
    rcases List.prefix_concat_iff.1 begins with all | inside
    · -- the end is no token of the beginning
      have last : final (.of x.source x.source.length) ∈ us := all ▸ List.mem_concat_self
      exact absurd rfl (reads.proper _ last)
    · rw [whole] at others ⊢
      exact reads.extended others inside
  · rw [run] at begins
    rw [whole] at others ⊢
    exact reads.extended others begins

/-- A scan fails exactly if no lexeme begins behind a beginning of the text that is scanned in the same
way by itself, and it fails there. It gives what a scan of the text gives, whatever the lexer holds, and
once more when it is repeated. -/
theorem fails_at_impossible (x : Lexer) :
    (∀ e, (∃ y, scan x = .error e y) ↔
      ∃ p q ts f, x.source = p ++ q ∧ Impossible f q ∧
        Token.scan (String.ofList p) = .ok (ts ++ [final (.of p p.length)]) ∧
        ts <+: Lexer.found (scan x) ∧ e = faultAt x.source p.length f) ∧
      Lexer.answer (scan x) = Token.scan (String.ofList x.source) ∧
      scan (Lexer.after (scan x)) = scan x := by
  refine ⟨fun e => ⟨?_, ?_⟩, answer_scan x, scan_again x⟩
  · rintro ⟨y, failed⟩
    rcases scan_cases x with ⟨ts, s, -, run⟩ | ⟨ts, j, f, current, reads, stuck, run⟩
    · rw [run] at failed
      cases failed
    · have found : Lexer.found (scan x) = ts := by
        rw [run]
        rfl
      rw [run] at failed
      cases failed
      have cut : x.source.take j ++ x.source.drop j = x.source := List.take_append_drop j _
      have size : (x.source.take j).length = j := by
        rw [List.length_take]
        exact Nat.min_eq_left stuck.inside
      have before : Reads (x.source.take j) 0 ts (x.source.take j).length := by
        rw [← cut] at reads
        rw [size]
        exact reads.truncated (Nat.le_of_eq size.symm)
      refine ⟨x.source.take j, x.source.drop j, ts, f, cut.symm, stuck, before.scan_end,
        found ▸ List.prefix_refl ts, by rw [size]⟩
  · rintro ⟨p, q, ts, f, whole, stuck, alone, begins, rfl⟩
    obtain ⟨us, j, reads, stops⟩ := exists_reads (Nat.zero_le p.length)
    rcases stops with rfl | ⟨g, stuck'⟩
    · rw [reads.scan_end] at alone
      cases List.append_cancel_right (Except.ok.inj alone)
      have taken := prefix_of_found whole reads begins
      have here : x.source.drop p.length = q := by rw [whole, List.drop_left]
      obtain ⟨current, run⟩ := scan_stuck taken (here ▸ stuck)
      exact ⟨_, run⟩
    · rw [reads.scan_stuck stuck'] at alone
      cases alone

end Lexing

end Script
