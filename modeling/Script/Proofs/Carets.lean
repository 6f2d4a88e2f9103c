import Script.Proofs.Scans
import Script.Report

/-! Reports of texts that do not parse. They echo the line of the error, and the caret below it stands
under the first character that is blamed, or just past the end of the text. -/

namespace Script

namespace Text

variable {text line rest : List Char} {n i : Nat} {c : Char}

/-- How a text goes on after a line: not at all, with a line feed, or with a carriage return and a line
feed. A carriage return before a line feed is no part of the line. -/
inductive LineEnd (line : List Char) : List Char → Prop
  | text : LineEnd line []
  | feed {more : List Char} (bare : line.getLast? ≠ some '\r') : LineEnd line ('\n' :: more)
  | returnFeed {more : List Char} : LineEnd line ('\r' :: '\n' :: more)

/-- The lines of a text, counted from one. The last one is what follows the last line feed, be it
nothing. -/
inductive IsLine (text : List Char) (n : Nat) (line : List Char) : Prop
  | intro {before rest : List Char} (cut : text = before ++ line ++ rest)
    (opens : before = [] ∨ before.getLast? = some '\n') (number : n = before.count '\n' + 1)
    (single : '\n' ∉ line) (ends : LineEnd line rest)

/-! The lines that are echoed. -/

theorem lines_feed (single : '\n' ∉ line) (more : List Char) :
    lines (line ++ '\n' :: more) = dropReturn line :: lines more := by
  have some := List.splitOn_ne_nil '\n' more
  unfold lines
  dsimp only
  rw [List.splitOn_append_cons_self_of_not_mem single]
  cases pieces : more.splitOn '\n' with
  | nil => exact absurd pieces some
  | cons piece others =>
    rw [List.dropLast_cons_cons, List.getLast?_cons_cons]
    rfl

theorem lines_single (single : '\n' ∉ line) : lines line = [line].filter (· ≠ []) := by
  unfold lines
  rw [List.splitOn_eq_singleton single]
  rfl

theorem dropReturn_bare (bare : line.getLast? ≠ some '\r') : dropReturn line = line :=
  if_neg bare

theorem dropReturn_return (line : List Char) : dropReturn (line ++ ['\r']) = line := by
  rw [dropReturn, if_pos List.getLast?_concat, List.dropLast_concat]

/-- The lines after a part of the text that is made of whole lines. -/
theorem lines_after {before : List Char} (opens : before = [] ∨ before.getLast? = some '\n')
    (rest : List Char) (k : Nat) :
    (lines (before ++ rest))[before.count '\n' + k]? = (lines rest)[k]? := by
  rcases opens with rfl | last
  · rw [List.count_nil, Nat.zero_add, List.nil_append]
  · obtain ⟨first, others, rfl, single⟩ :=
      List.eq_append_cons_of_mem (List.mem_of_getLast? last)
    have opens : others = [] ∨ others.getLast? = some '\n' := by
      cases others with
      | nil => exact .inl rfl
      | cons d ds =>
        rw [List.getLast?_append_of_ne_nil _ (List.cons_ne_nil _ _), List.getLast?_cons_cons] at last
        exact .inr last
    have count : (first ++ '\n' :: others).count '\n' + k = (others.count '\n' + k) + 1 := by
      rw [List.count_append, List.count_eq_zero_of_not_mem single, List.count_cons_self]
      omega
    rw [List.append_assoc, List.cons_append, lines_feed single, count, List.getElem?_cons_succ]
    exact lines_after opens rest k
termination_by before.length
decreasing_by
  subst_vars
  simp
  omega

theorem IsLine.eq (is : IsLine text n line) : ((lines text)[n - 1]?).getD [] = line := by
  obtain ⟨cut, opens, number, single, ends⟩ := is
  rw [cut, number, List.append_assoc, Nat.add_sub_cancel, ← Nat.add_zero (List.count _ _),
    lines_after opens]
  cases ends with
  | text =>
    rw [List.append_nil, lines_single single]
    cases line <;> rfl
  | feed bare =>
    rw [lines_feed single, dropReturn_bare bare]
    rfl
  | @returnFeed more =>
    have whole : line ++ '\r' :: '\n' :: more = (line ++ ['\r']) ++ '\n' :: more := by simp
    have single' : '\n' ∉ line ++ ['\r'] := by simpa using single
    rw [whole, lines_feed single', dropReturn_return]
    rfl

/-! The line of a place. -/

/-- The offset is that of a character which is no blank, or the end of the text. -/
def Shown (text : List Char) (i : Nat) : Prop :=
  i = text.length ∨ ∃ c, text[i]? = some c ∧ ¬ isBlank c

theorem exists_lineEnd (bare : c ≠ '\r') (more : List Char) :
    ∃ others rest, more = others ++ rest ∧ '\n' ∉ others ∧ LineEnd (c :: others) rest := by
  have single := not_mem_takeWhile_ne '\n' more
  have whole := List.takeWhile_append_dropWhile (p := (· ≠ '\n')) (l := more)
  generalize more.takeWhile (· ≠ '\n') = others at whole single
  rcases dropWhile_ne_cases '\n' more with after | ⟨ds, after⟩
  · rw [after] at whole
    exact ⟨others, [], whole.symm, single, .text⟩
  · rw [after] at whole
    by_cases last : others.getLast? = some '\r'
    · obtain ⟨front, rfl⟩ := List.getLast?_eq_some_iff.1 last
      refine ⟨front, '\r' :: '\n' :: ds, by simp [← whole], fun member => ?_, .returnFeed⟩
      exact single (List.mem_append_left _ member)
    · refine ⟨others, '\n' :: ds, whole.symm, single, .feed ?_⟩
      cases others with
      | nil => simpa using bare
      | cons e es => rwa [List.getLast?_cons_cons]

/-- The part of its line before an offset, and the text before that line. -/
theorem exists_front (text : List Char) (i : Nat) :
    ∃ before front, text.take i = before ++ front ∧ (before = [] ∨ before.getLast? = some '\n') ∧
      '\n' ∉ front ∧ lineAt text i = before.count '\n' + 1 ∧ columnAt text i = front.length + 1 := by
  let back := (text.take i).reverse
  have whole : text.take i =
      (back.dropWhile (· ≠ '\n')).reverse ++ (back.takeWhile (· ≠ '\n')).reverse := by
    rw [← List.reverse_append, List.takeWhile_append_dropWhile, List.reverse_reverse]
  have single : '\n' ∉ (back.takeWhile (· ≠ '\n')).reverse :=
    mt List.mem_reverse.1 (not_mem_takeWhile_ne '\n' back)
  refine ⟨_, _, whole, ?_, single, ?_, ?_⟩
  · rw [List.getLast?_reverse, List.reverse_eq_nil_iff]
    rcases dropWhile_ne_cases '\n' back with after | ⟨ds, after⟩
    · exact .inl after
    · exact .inr (by rw [after]; rfl)
  · rw [lineAt, whole, List.count_append, List.count_eq_zero_of_not_mem single]
    omega
  · rw [columnAt, List.length_reverse]
    exact Nat.add_comm _ _

theorem LineEnd.append (ends : LineEnd (c :: line) rest) (front : List Char) :
    LineEnd (front ++ c :: line) rest := by
  cases ends with
  | text => exact .text
  | feed bare =>
    refine .feed ?_
    rwa [List.getLast?_append_of_ne_nil _ (List.cons_ne_nil _ _)]
  | returnFeed => exact .returnFeed

/-- The line of an offset, with what it has at the column of that offset. -/
structure Holds (text echo : List Char) (i : Nat) : Prop where
  isLine : IsLine text (lineAt text i) echo
  reaches : columnAt text i ≤ echo.length + 1
  under : i < text.length → ∃ c, text[i]? = some c ∧ echo[columnAt text i - 1]? = some c
  past : i = text.length → echo.length + 1 = columnAt text i ∧ echo <:+ text

theorem Shown.holds (shown : Shown text i) : ∃ line, Holds text line i := by
  obtain ⟨before, front, cut, opens, single, number, column⟩ := exists_front text i
  rcases shown with rfl | ⟨c, here, visible⟩
  · rw [List.take_length] at cut
    have whole : text = before ++ front ++ [] := by rw [List.append_nil, cut]
    exact ⟨front, .intro whole opens number single .text, Nat.le_of_eq column,
      fun below => absurd below (Nat.lt_irrefl _), fun _ => ⟨column.symm, before, cut.symm⟩⟩
  · have bare : c ≠ '\r' := by
      rintro rfl
      exact visible (by decide)
    have feed : c ≠ '\n' := by
      rintro rfl
      exact visible (by decide)
    obtain ⟨below, same⟩ := List.getElem?_eq_some_iff.1 here
    obtain ⟨others, rest, more, single', ends⟩ := exists_lineEnd bare (text.drop (i + 1))
    have whole : text = before ++ (front ++ c :: others) ++ rest :=
      calc text = text.take i ++ text.drop i := (List.take_append_drop i text).symm
        _ = (before ++ front) ++ c :: (others ++ rest) := by
          rw [cut, List.drop_eq_getElem_cons below, same, more]
        _ = before ++ (front ++ c :: others) ++ rest := by simp
    have found : (front ++ c :: others)[columnAt text i - 1]? = some c := by
      rw [column, Nat.add_sub_cancel, List.getElem?_append_right (Nat.le_refl _), Nat.sub_self]
      rfl
    refine ⟨front ++ c :: others, .intro whole opens number ?_ (ends.append front), ?_,
      fun _ => ⟨c, here, found⟩, fun last => absurd last (Nat.ne_of_lt below)⟩
    · simp only [List.mem_append, List.mem_cons, not_or]
      exact ⟨single, feed.symm, single'⟩
    · rw [column, List.length_append]
      omega

end Text

/-! Places of errors. -/

namespace Token

variable {text : List Char} {ts : List Token} {i j : Nat} {f : LexFault}

theorem Impossible.shown (stuck : Impossible f (text.drop j)) : Text.Shown text j := by
  obtain ⟨c, cs, here⟩ := stuck.exists_cons
  refine .inr ⟨c, Text.getElem?_of_drop here, fun blank => ?_⟩
  rw [here, ← lexeme_error_iff, lexeme_blank blank] at stuck
  cases stuck

theorem Reads.shown (reads : Reads text i ts j) : ∀ t ∈ ts, Text.Shown text t.span.start := by
  induction reads with
  | stay => exact List.forall_mem_nil _
  | @step i j c cs l ts here read next ih =>
    refine List.forall_mem_append.2 ⟨fun t member => ?_, ih⟩
    cases token : l.token with
    | none =>
      rw [Lexeme.tokens, token] at member
      cases member
    | some x =>
      rw [tokens_of_some token, List.mem_singleton] at member
      rw [member]
      refine .inr ⟨c, Text.getElem?_of_drop here, fun blank => ?_⟩
      rw [lexeme_blank blank] at read
      cases read
      cases token

end Token

theorem parse_shown {source : String} {e : Error} (failed : parse source = .error e) :
    Text.Shown source.toList e.span.start := by
  let R (s : Span) : Prop := Text.Shown source.toList s.start
  have spanning : Spanning R := fun _ _ first _ => first
  obtain ⟨ts, j, reads, stops⟩ := Token.exists_reads (Nat.zero_le source.toList.length)
  unfold parse at failed
  rcases stops with rfl | ⟨f, stuck⟩
  · have scanned := reads.scan_end
    rw [String.ofList_toList] at scanned
    rw [scanned] at failed
    refine (program_placed spanning ?_ ⟨_, List.mem_concat_self, rfl⟩).2 e failed
    exact List.forall_mem_append.2 ⟨reads.shown, List.forall_mem_singleton.2 (.inl rfl)⟩
  · have scanned := reads.scan_stuck stuck
    rw [String.ofList_toList] at scanned
    rw [scanned] at failed
    cases failed
    exact stuck.shown

/-- A line of a text and what stands before the caret below it. The caret is under the character that
the place starts at, or just past the end of the text if it starts there. -/
structure Caret (text echo padding : List Char) (place : Span) : Prop where
  isLine : Text.IsLine text place.line echo
  column : padding.length + 1 = place.column
  tabs : ∀ i < padding.length, padding[i]? = some (if echo[i]? = some '\t' then '\t' else ' ')
  above : place.start < text.length ∧
      (∃ c, text[place.start]? = some c ∧ echo[padding.length]? = some c) ∨
    place.start = text.length ∧ padding.length = echo.length ∧ echo <:+ text

/-- The report of a text that does not parse shows the line of the error, and the caret under the
character that the error starts at. -/
theorem caret_below_error {source : String} {e : Error} (failed : parse source = .error e)
    (file : String) :
    ∃ echo padding, Caret source.toList echo padding e.span ∧
      e.render source file =
        "[Error]\nFile: " ++ file ++ ", Position: " ++ Nat.repr e.span.line ++ ":" ++
          Nat.repr e.span.column ++ "\n\n" ++ String.ofList echo ++ "\n" ++
          String.ofList padding ++ "^\n\n-> " ++ e.message := by
  obtain ⟨echo, holds⟩ := (parse_shown failed).holds
  have place := (parse_placed source).2 e failed
  have line : Report.line source e.span = echo := by
    rw [Report.line, place.line]
    exact holds.isLine.eq
  have positive : e.span.column = Text.columnAt source.toList e.span.start - 1 + 1 := by
    rw [place.column, Text.columnAt]
    omega
  have reaches := holds.reaches
  have size : (Report.padding source e.span).length =
      Text.columnAt source.toList e.span.start - 1 := by
    rw [Report.padding, line, List.length_map, List.length_take, place.column]
    omega
  refine ⟨echo, Report.padding source e.span, ⟨?_, ?_, fun i below => ?_, ?_⟩, ?_⟩
  · rw [place.line]
    exact holds.isLine
  · rw [size, positive]
  · rw [size] at below
    rw [Report.padding, line, place.column, List.getElem?_map, List.getElem?_take_of_lt below,
      List.getElem?_eq_getElem (by omega)]
    simp only [Option.map_some, Option.some.injEq]
  · rw [size]
    rcases Nat.lt_or_eq_of_le (Nat.le_trans place.ordered place.inside) with inside | last
    · exact .inl ⟨inside, holds.under inside⟩
    · obtain ⟨full, suffix⟩ := holds.past last
      exact .inr ⟨last, by omega, suffix⟩
  · rw [← line]
    rfl

/-- A parenthesis that a bracket closes, behind a tab on the second line. -/
theorem openGroup_caret :
    parse "x = (y\r\n\t ]" =
        .error ⟨.grammar (.wanted .groupClose (some "]")), ⟨10, 11, 2, 3⟩⟩ ∧
      Caret "x = (y\r\n\t ]".toList ['\t', ' ', ']'] ['\t', ' '] ⟨10, 11, 2, 3⟩ := by
  have failed : parse "x = (y\r\n\t ]" =
      .error ⟨.grammar (.wanted .groupClose (some "]")), ⟨10, 11, 2, 3⟩⟩ := by
    cbv
  obtain ⟨echo, padding, caret, -⟩ := caret_below_error failed "t.es"
  have line : ['\t', ' ', ']'] = echo := caret.isLine.eq
  subst line
  have blanks : padding = ['\t', ' '] := by
    obtain ⟨c, d, rfl⟩ := List.length_eq_two.1 (Nat.succ.inj caret.column)
    have first : some c = some '\t' := caret.tabs 0 (by simp)
    have second : some d = some ' ' := caret.tabs 1 (by simp)
    cases first
    cases second
    rfl
  exact ⟨failed, blanks ▸ caret⟩

end Script
