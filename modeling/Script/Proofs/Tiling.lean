import Mathlib
import Script.Token.Scan

/-! Tokens tile their source. A scan cuts the text into blanks and tokens, one after another, and
each token carries the stretch that it was cut from, with the line and column where that starts. -/

namespace Script

namespace Text

/-- The line of an offset, counted from one. -/
def lineAt (cs : List Char) (i : Nat) : Nat :=
  1 + (cs.take i).count '\n'

/-- The column of an offset, counted from one: the characters since the last line feed. -/
def columnAt (cs : List Char) (i : Nat) : Nat :=
  1 + ((cs.take i).reverse.takeWhile (· ≠ '\n')).length

end Text

/-- A stretch of the text, at the line and column of its start. -/
structure Span.In (s : Span) (text : List Char) : Prop where
  ordered : s.start ≤ s.stop
  inside : s.stop ≤ text.length
  line : s.line = Text.lineAt text s.start
  column : s.column = Text.columnAt text s.start

namespace Mark

/-- The place of an offset of a text. -/
def of (text : List Char) (i : Nat) : Mark :=
  ⟨i, Text.lineAt text i, Text.columnAt text i⟩

theorem past_of {text : List Char} {i : Nat} {c : Char} (here : text[i]? = some c) :
    (of text i).past c = of text (i + 1) := by
  have next : text.take (i + 1) = text.take i ++ [c] := by
    rw [List.take_add_one, here]
    rfl
  unfold past of Text.lineAt Text.columnAt
  rw [next]
  split
  · rename_i feed
    simp [feed, Nat.add_assoc]
  · rename_i other
    simp [other, Nat.add_comm]

theorem after_of {text taken rest : List Char} {i : Nat} (cut : text.drop i = taken ++ rest) :
    (of text i).after taken = of text (i + taken.length) := by
  induction taken generalizing i with
  | nil => rfl
  | cons c taken ih =>
    have here : text[i]? = some c := by
      have first := congrArg (·[0]?) cut
      simpa using first
    have later : text.drop (i + 1) = taken ++ rest := by
      rw [← List.drop_drop, cut]
      rfl
    change ((of text i).past c).after taken = _
    rw [past_of here, ih later, List.length_cons]
    congr 1
    omega

theorem spanTo_in {text : List Char} {i j : Nat} (le : i ≤ j) (inside : j ≤ text.length) :
    ((of text i).spanTo (of text j)).In text :=
  ⟨le, inside, rfl, rfl⟩

end Mark

namespace Token

/-- The characters that a token is cut from. A quoted text stands between two quotes, which it does
not contain; the text of any other token is all of it. -/
def Forms (taken : List Char) (kind : Kind) (x : List Char) : Prop :=
  kind ≠ .eof ∧
    if kind = .text then ∃ q, (q = '"' ∨ q = '\'') ∧ taken = q :: x ++ [q] ∧ q ∉ x else taken = x

/-- What a lexeme takes from the head of a text. -/
structure Lexeme.Heads (l : Lexeme) (cs : List Char) : Prop where
  taken : l.taken <+: cs
  proper : l.taken ≠ []
  blank : l.token = none → ∃ c, l.taken = [c] ∧ Text.isBlank c
  forms : ∀ kind x, l.token = some (kind, x) → Forms l.taken kind x

theorem plain_heads {kind : Kind} {taken cs : List Char} (start : taken <+: cs)
    (proper : taken ≠ []) (ends : kind ≠ .eof) (bare : kind ≠ .text) :
    (plain kind taken).Heads cs where
  taken := start
  proper := proper
  blank none := by cases none
  forms kind x some := by
    cases some
    refine ⟨ends, ?_⟩
    rw [if_neg bare]
    rfl

theorem quoted_heads {q : Char} {cs : List Char} {l : Lexeme} (quote : q = '"' ∨ q = '\'')
    (answer : quoted q cs = .ok l) : l.Heads (q :: cs) := by
  unfold quoted at answer
  dsimp only at answer
  split at answer
  · rename_i short
    cases answer
    -- what follows the body is the closing quote
    have rest : ∃ more, cs.dropWhile (· ≠ q) = q :: more := by
      cases after : cs.dropWhile (· ≠ q) with
      | nil =>
        have whole := List.takeWhile_append_dropWhile (p := (· ≠ q)) (l := cs)
        rw [after, List.append_nil] at whole
        rw [whole] at short
        omega
      | cons d more =>
        have stops := List.head?_dropWhile_not (fun c => decide (c ≠ q)) cs
        rw [after] at stops
        simp only [List.head?_cons] at stops
        exact ⟨more, by simp_all⟩
    obtain ⟨more, rest⟩ := rest
    refine ⟨⟨more, ?_⟩, by simp, by simp, ?_⟩
    · have whole := List.takeWhile_append_dropWhile (p := (· ≠ q)) (l := cs)
      rw [rest] at whole
      simpa using whole
    · intro kind x some
      cases some
      refine ⟨by decide, ?_⟩
      rw [if_pos rfl]
      refine ⟨q, quote, rfl, fun member => ?_⟩
      have passed := List.all_eq_true.1 List.all_takeWhile _ member
      simp at passed
  · cases answer

theorem operator_heads {c : Char} {cs : List Char} {l : Lexeme}
    (answer : operator c cs = .ok l) : l.Heads (c :: cs) := by
  unfold operator at answer
  dsimp only at answer
  split at answer
  · cases answer
    exact plain_heads (List.take_prefix 2 (c :: cs)) (by simp) (by decide) (by decide)
  · split at answer
    · cases answer
      exact plain_heads (List.take_prefix 1 (c :: cs)) (by simp) (by decide) (by decide)
    · cases answer

theorem numberTail_prefix (cs : List Char) : numberTail cs <+: cs := by
  have whole := List.takeWhile_append_dropWhile (p := Char.isDigit) (l := cs)
  unfold numberTail
  split
  · rename_i more point
    rw [point] at whole
    obtain ⟨rest, fraction⟩ := List.takeWhile_prefix (l := more) Char.isDigit
    refine ⟨rest, ?_⟩
    calc cs.takeWhile Char.isDigit ++ '.' :: more.takeWhile Char.isDigit ++ rest
      _ = cs.takeWhile Char.isDigit ++ '.' :: (more.takeWhile Char.isDigit ++ rest) := by simp
      _ = cs := by rw [fraction, whole]
  · rw [List.append_nil]
    exact List.takeWhile_prefix _

theorem lexeme_heads {c : Char} {cs : List Char} {l : Lexeme} (answer : lexeme c cs = .ok l) :
    l.Heads (c :: cs) := by
  unfold lexeme at answer
  split at answer
  · rename_i blank
    cases answer
    exact ⟨⟨cs, rfl⟩, by simp, fun _ => ⟨c, rfl, blank⟩, by simp⟩
  split at answer
  · cases answer
    have start : c :: cs.takeWhile (· ≠ '\n') <+: c :: cs :=
      List.cons_prefix_cons.2 ⟨rfl, List.takeWhile_prefix _⟩
    exact plain_heads start (by simp) (by decide) (by decide)
  split at answer
  · rename_i quote
    exact quoted_heads quote answer
  split at answer
  · cases answer
    have start : c :: numberTail cs <+: c :: cs :=
      List.cons_prefix_cons.2 ⟨rfl, numberTail_prefix cs⟩
    exact plain_heads start (by simp) (by decide) (by decide)
  split at answer
  · cases answer
    have start : c :: cs.takeWhile isWord <+: c :: cs :=
      List.cons_prefix_cons.2 ⟨rfl, List.takeWhile_prefix _⟩
    apply plain_heads start (by simp)
    · split <;> decide
    · split <;> decide
  split at answer
  · exact operator_heads answer
  split at answer
  · cases answer
    exact plain_heads ⟨cs, rfl⟩ (by simp) (by decide) (by decide)
  · cases answer

/-- The tokens that a text is cut into from an offset on. -/
inductive Cut (text : List Char) : Nat → List Token → Prop
  | stop : Cut text text.length [final (.of text text.length)]
  | blank {i : Nat} {c : Char} {ts : List Token} (here : text[i]? = some c)
    (blank : Text.isBlank c) (next : Cut text (i + 1) ts) : Cut text i ts
  | token {i : Nat} {taken rest x : List Char} {kind : Kind} {ts : List Token}
    (here : text.drop i = taken ++ rest) (proper : taken ≠ []) (forms : Forms taken kind x)
    (next : Cut text (i + taken.length) ts) :
    Cut text i
      (⟨kind, String.ofList x, (Mark.of text i).spanTo (.of text (i + taken.length))⟩ :: ts)

/-- Where the text goes on after a lexeme. -/
structure Follows (text cs taken rest : List Char) (i : Nat) : Prop where
  cut : text.drop i = taken ++ rest
  left : text.drop (i + taken.length) = rest
  inside : i + taken.length ≤ text.length
  shorter : rest.length < cs.length

/-- The tokens of a text that starts with the lexeme, from those of the rest. -/
def Lexeme.before (l : Lexeme) (span : Span) (rest : Except Error (List Token)) :
    Except Error (List Token) :=
  match rest, l.token with
  | .ok ts, some (kind, x) => .ok (⟨kind, String.ofList x, span⟩ :: ts)
  | result, _ => result

theorem scanFrom_lexeme {text cs : List Char} {c : Char} {n i : Nat} {l : Lexeme}
    (here : text.drop i = c :: cs) (read : lexeme c cs = .ok l) :
    ∃ rest, Follows text (c :: cs) l.taken rest i ∧
      scanFrom (n + 1) (.of text i) (c :: cs) =
        l.before ((Mark.of text i).spanTo (.of text (i + l.taken.length)))
          (scanFrom n (.of text (i + l.taken.length)) rest) := by
  obtain ⟨⟨rest, cut⟩, proper, -, -⟩ := lexeme_heads read
  have positive : 0 < l.taken.length := List.length_pos_iff.2 proper
  have tail : cs.drop (l.taken.length - 1) = rest := by
    have := congrArg (List.drop l.taken.length) cut
    rw [List.drop_left] at this
    rw [this, ← Nat.sub_add_cancel positive]
    rfl
  have size := congrArg List.length cut
  have whole := congrArg List.length here
  simp only [List.length_append, List.length_cons, List.length_drop] at size whole
  refine ⟨rest, ⟨here.trans cut.symm, ?_, by omega, ?_⟩, ?_⟩
  · rw [← List.drop_drop, here, ← cut, List.drop_left]
  · simp only [List.length_cons]
    omega
  · rw [scanFrom, read]
    dsimp only
    rw [tail, Mark.after_of (here.trans cut.symm)]
    rfl

theorem eq_length_of_drop {text : List Char} {i : Nat} (done : text.drop i = [])
    (inside : i ≤ text.length) : i = text.length := by
  have := List.drop_eq_nil_iff.1 done
  omega

theorem scanFrom_cut {text cs : List Char} {n i : Nat} {ts : List Token} (here : text.drop i = cs)
    (inside : i ≤ text.length) (enough : cs.length ≤ n)
    (scanned : scanFrom n (.of text i) cs = .ok ts) : Cut text i ts := by
  -- there are steps for all characters left, so that a scan stops only after the last of them
  induction n generalizing i cs ts with
  | zero =>
    cases List.eq_nil_of_length_eq_zero (Nat.le_zero.1 enough)
    cases eq_length_of_drop here inside
    cases scanned
    exact .stop
  | succ n ih =>
    cases cs with
    | nil =>
      cases eq_length_of_drop here inside
      cases scanned
      exact .stop
    | cons c cs =>
      cases read : lexeme c cs with
      | error f =>
        rw [scanFrom, read] at scanned
        cases scanned
      | ok l =>
        obtain ⟨-, proper, blank, forms⟩ := lexeme_heads read
        obtain ⟨rest, follows, same⟩ := scanFrom_lexeme here read
        have fits : rest.length ≤ n := by
          have := follows.shorter
          omega
        rw [same] at scanned
        unfold Lexeme.before at scanned
        cases later : scanFrom n (.of text (i + l.taken.length)) rest with
        | error e =>
          rw [later] at scanned
          cases scanned
        | ok us =>
          have next := ih follows.left follows.inside fits later
          rw [later] at scanned
          cases token : l.token with
          | none =>
            rw [token] at scanned
            cases scanned
            obtain ⟨d, one, isBlank⟩ := blank token
            have first : text[i]? = some d := by
              have := congrArg (·[0]?) follows.cut
              simpa [one] using this
            rw [one] at next
            exact .blank first isBlank next
          | some t =>
            rw [token] at scanned
            cases scanned
            exact .token follows.cut proper (forms _ _ token) next

theorem scan_cut {source : String} {ts : List Token} (scanned : scan source = .ok ts) :
    Cut source.toList 0 ts := by
  have start : Mark.first = .of source.toList 0 := rfl
  unfold scan at scanned
  rw [start] at scanned
  exact scanFrom_cut rfl (Nat.zero_le _) (Nat.le_of_eq String.length_toList) scanned

/-- The text of a token is what stands in its stretch of the source. A quoted text is what stands
between its two quotes, which are of one kind and not in it. -/
def SpeltIn (t : Token) (text : List Char) : Prop :=
  if t.kind = .text then
    t.span.start + 2 ≤ t.span.stop ∧
      t.text.toList = text.extract (t.span.start + 1) (t.span.stop - 1) ∧
      ∃ q, (q = '"' ∨ q = '\'') ∧ text[t.span.start]? = some q ∧
        text[t.span.stop - 1]? = some q ∧ q ∉ t.text.toList
  else t.text.toList = text.extract t.span.start t.span.stop

theorem Forms.speltIn {text taken rest x : List Char} {kind : Kind} {i : Nat}
    (forms : Forms taken kind x) (here : text.drop i = taken ++ rest) :
    SpeltIn ⟨kind, String.ofList x, (Mark.of text i).spanTo (.of text (i + taken.length))⟩ text := by
  have at' (j : Nat) : text[i + j]? = (taken ++ rest)[j]? := by
    rw [← here, List.getElem?_drop]
  obtain ⟨-, forms⟩ := forms
  unfold SpeltIn
  dsimp only [Mark.spanTo, Mark.of]
  rw [String.toList_ofList]
  split
  · rename_i isText
    rw [if_pos isText] at forms
    obtain ⟨q, quote, rfl, absent⟩ := forms
    refine ⟨by simp, ?_, q, quote, ?_, ?_, absent⟩
    · have after : text.drop (i + 1) = x ++ ([q] ++ rest) := by
        rw [← List.drop_drop, here]
        simp
      have size : i + (q :: x ++ [q]).length - 1 - (i + 1) = x.length := by
        simp only [List.length_append, List.length_cons, List.length_nil]
        omega
      rw [List.extract_eq_take_drop, after, size, List.take_left]
    · exact at' 0
    · have last : i + (q :: x ++ [q]).length - 1 = i + (x.length + 1) := by
        simp only [List.length_append, List.length_cons, List.length_nil]
        omega
      rw [last, at']
      simp
  · rename_i other
    rw [if_neg other] at forms
    subst forms
    rw [List.extract_eq_take_drop, here, Nat.add_sub_cancel_left, List.take_left]

/-- How tokens lie in a text: the end comes last and only there, the others are not empty and none
reaches into a later one, between them are blanks, and each says what it holds and where it is. -/
structure Tiling (text : List Char) (ts : List Token) : Prop where
  ends : ∃ front stop, ts = front ++ [stop] ∧ stop.kind = .eof ∧ stop.text = "" ∧
    stop.span.start = text.length ∧ stop.span.stop = text.length ∧
    ∀ t ∈ front, t.kind ≠ .eof ∧ t.span.start < t.span.stop
  ordered : ts.Pairwise fun t u => t.span.stop ≤ u.span.start
  blanks : ∀ (i : Nat) (c : Char), text[i]? = some c →
    (∀ t ∈ ts, ¬ (t.span.start ≤ i ∧ i < t.span.stop)) → Text.isBlank c
  spelt : ∀ t ∈ ts, t.SpeltIn text
  placed : ∀ t ∈ ts, t.span.In text

namespace Cut

variable {text : List Char} {i : Nat} {ts : List Token}

theorem inside (cut : Cut text i ts) : i ≤ text.length := by
  induction cut with
  | stop => exact Nat.le_refl _
  | blank here _ _ _ =>
    obtain ⟨below, -⟩ := List.getElem?_eq_some_iff.1 here
    omega
  | token _ _ _ _ ih => omega

theorem starts (cut : Cut text i ts) : ∀ t ∈ ts, i ≤ t.span.start := by
  induction cut with
  | stop => exact List.forall_mem_singleton.2 (Nat.le_refl _)
  | blank _ _ _ ih =>
    intro t member
    have := ih t member
    omega
  | token _ _ _ _ ih =>
    rw [List.forall_mem_cons]
    refine ⟨Nat.le_refl _, fun t member => ?_⟩
    have := ih t member
    omega

theorem ends (cut : Cut text i ts) :
    ∃ front stop, ts = front ++ [stop] ∧ stop.kind = .eof ∧ stop.text = "" ∧
      stop.span.start = text.length ∧ stop.span.stop = text.length ∧
      ∀ t ∈ front, t.kind ≠ .eof ∧ t.span.start < t.span.stop := by
  induction cut with
  | stop => exact ⟨[], _, rfl, rfl, rfl, rfl, rfl, by simp⟩
  | blank _ _ _ ih => exact ih
  | @token i taken rest x kind ts here proper forms next ih =>
    obtain ⟨front, stop, rfl, isEnd, bare, start, finish, others⟩ := ih
    refine ⟨_ :: front, stop, rfl, isEnd, bare, start, finish, ?_⟩
    rw [List.forall_mem_cons]
    exact ⟨⟨forms.1, Nat.lt_add_of_pos_right (List.length_pos_iff.2 proper)⟩, others⟩

theorem ordered (cut : Cut text i ts) : ts.Pairwise fun t u => t.span.stop ≤ u.span.start := by
  induction cut with
  | stop => exact List.pairwise_singleton _ _
  | blank _ _ _ ih => exact ih
  | token _ _ _ next ih => exact List.pairwise_cons.2 ⟨next.starts, ih⟩

/-- What is outside all tokens from here on is blank. -/
theorem blanks (cut : Cut text i ts) {j : Nat} {c : Char} (from' : i ≤ j) (here : text[j]? = some c)
    (outside : ∀ t ∈ ts, ¬ (t.span.start ≤ j ∧ j < t.span.stop)) : Text.isBlank c := by
  induction cut with
  | stop =>
    obtain ⟨below, -⟩ := List.getElem?_eq_some_iff.1 here
    omega
  | @blank i d ts first blank next ih =>
    by_cases same : i = j
    · subst same
      rw [first] at here
      cases here
      exact blank
    · exact ih (by omega) outside
  | token cut proper forms next ih =>
    obtain ⟨first, others⟩ := List.forall_mem_cons.1 outside
    refine ih ?_ others
    exact Nat.le_of_not_lt fun below => first ⟨from', below⟩

theorem spelt (cut : Cut text i ts) : ∀ t ∈ ts, t.SpeltIn text := by
  induction cut with
  | stop =>
    rw [List.forall_mem_singleton]
    simp [SpeltIn, final, Mark.spanTo, Mark.of, List.extract_eq_take_drop]
  | blank _ _ _ ih => exact ih
  | token here proper forms next ih => exact List.forall_mem_cons.2 ⟨forms.speltIn here, ih⟩

theorem placed (cut : Cut text i ts) : ∀ t ∈ ts, t.span.In text := by
  induction cut with
  | stop => exact List.forall_mem_singleton.2 (Mark.spanTo_in (Nat.le_refl _) (Nat.le_refl _))
  | blank _ _ _ ih => exact ih
  | token here proper forms next ih =>
    exact List.forall_mem_cons.2 ⟨Mark.spanTo_in (Nat.le_add_right _ _) next.inside, ih⟩

end Cut

/-- The tokens of a source tile it. -/
theorem scan_tiles {source : String} {ts : List Token} (scanned : scan source = .ok ts) :
    Tiling source.toList ts := by
  have cut := scan_cut scanned
  exact ⟨cut.ends, cut.ordered, fun i c here outside => cut.blanks (Nat.zero_le i) here outside,
    cut.spelt, cut.placed⟩

/-- A text over two lines, and a name after it on the second. -/
theorem twoLines_tiled :
    scan "x = 'a\nb' y" = .ok
        [⟨.name, "x", ⟨0, 1, 1, 1⟩⟩, ⟨.operator, "=", ⟨2, 3, 1, 3⟩⟩, ⟨.text, "a\nb", ⟨4, 9, 1, 5⟩⟩,
          ⟨.name, "y", ⟨10, 11, 2, 4⟩⟩, ⟨.eof, "", ⟨11, 11, 2, 5⟩⟩] ∧
      Tiling "x = 'a\nb' y".toList
        [⟨.name, "x", ⟨0, 1, 1, 1⟩⟩, ⟨.operator, "=", ⟨2, 3, 1, 3⟩⟩, ⟨.text, "a\nb", ⟨4, 9, 1, 5⟩⟩,
          ⟨.name, "y", ⟨10, 11, 2, 4⟩⟩, ⟨.eof, "", ⟨11, 11, 2, 5⟩⟩] := by
  have scanned : scan "x = 'a\nb' y" = .ok
      [⟨.name, "x", ⟨0, 1, 1, 1⟩⟩, ⟨.operator, "=", ⟨2, 3, 1, 3⟩⟩, ⟨.text, "a\nb", ⟨4, 9, 1, 5⟩⟩,
        ⟨.name, "y", ⟨10, 11, 2, 4⟩⟩, ⟨.eof, "", ⟨11, 11, 2, 5⟩⟩] := by
    cbv
  exact ⟨scanned, scan_tiles scanned⟩

end Token

end Script
