import Script.Repl

/-! The lines of an interactive input, cut into pieces. What an entry is depends on the texts of the
lines alone, and not on what the entries before it do. -/

namespace Script.Repl

/-- The text parses, or fails for good: its fault is not that it ends where it does. -/
def Complete (text : String) : Prop :=
  (∃ b, parse text = .ok b) ∨ ∃ e, parse text = .error e ∧ isIncomplete e text = false

theorem not_complete_iff {text : String} :
    ¬ Complete text ↔ ∃ e, parse text = .error e ∧ isIncomplete e text = true := by
  unfold Complete
  cases parse text with
  | ok b => simp
  | error e => simp

theorem complete_empty : Complete "" := .inl ⟨[], rfl⟩

instance (text : String) : Decidable (Complete text) :=
  match parsed : parse text with
  | .ok b => .isTrue (.inl ⟨b, parsed⟩)
  | .error e =>
    match waits : isIncomplete e text with
    | true => .isFalse (not_complete_iff.2 ⟨e, parsed, waits⟩)
    | false => .isTrue (.inr ⟨e, parsed, waits⟩)

/-- A word that ends a session when it stands alone on a line between entries. -/
def IsFarewell (line : String) : Prop :=
  Text.trim line = "exit" ∨ Text.trim line = "quit"

instance (line : String) : Decidable (IsFarewell line) :=
  inferInstanceAs (Decidable (_ ∨ _))

theorem IsFarewell.ne_blank {line : String} (word : IsFarewell line) : Text.trim line ≠ "" := by
  rcases word with word | word <;> simp [word]

/-- A line that an entry can begin with. -/
def Opens (line : String) : Prop :=
  Text.trim line ≠ "" ∧ ¬ IsFarewell line

instance (line : String) : Decidable (Opens line) :=
  inferInstanceAs (Decidable (_ ∧ _))

/-- Consecutive lines from the beginning of an entry on, of which no shorter run is one. -/
structure Growing (ls : List String) : Prop where
  opens : ∃ line more, ls = line :: more ∧ Opens line
  open_within : ∀ n < ls.length, 0 < n → ¬ Complete (String.join (ls.take n))

/-- The shortest run of lines from its first on whose text is complete. -/
structure IsEntry (ls : List String) : Prop extends Growing ls where
  complete : Complete (String.join ls)

/-- The beginning of an entry whose end is not there. -/
structure Unfinished (ls : List String) : Prop extends Growing ls where
  incomplete : ¬ Complete (String.join ls)

inductive Piece
  | blank (line : String)
  | entry (lines : List String)
  | farewell (line : String)
  | unfinished (lines : List String)

def Piece.lines : Piece → List String
  | blank line => [line]
  | entry lines => lines
  | farewell line => [line]
  | unfinished lines => lines

/-- How lines are cut into pieces. Nothing is read after a farewell. -/
inductive Division : List String → List Piece → Prop
  | nothing : Division [] []
  | blank {line : String} {rest : List String} {ps : List Piece} (empty : Text.trim line = "")
    (others : Division rest ps) : Division (line :: rest) (.blank line :: ps)
  | entry {ls rest : List String} {ps : List Piece} (isEntry : IsEntry ls)
    (others : Division rest ps) : Division (ls ++ rest) (.entry ls :: ps)
  | farewell {line : String} {rest : List String} (word : IsFarewell line) :
    Division (line :: rest) [.farewell line]
  | unfinished {ls : List String} (isOpen : Unfinished ls) : Division ls [.unfinished ls]

namespace Growing

variable {ls : List String}

theorem ne_nil (growing : Growing ls) : ls ≠ [] := by
  obtain ⟨line, more, rfl, -⟩ := growing.opens
  exact List.cons_ne_nil line more

theorem single {line : String} (opens : Opens line) : Growing [line] where
  opens := ⟨line, [], rfl, opens⟩
  open_within n short some := absurd some (by simpa using short)

theorem opens_first (growing : Growing ls) {line : String} {more : List String}
    (before : ls <+: line :: more) : Opens line := by
  obtain ⟨first, others, rfl, opens⟩ := growing.opens
  exact (List.cons_prefix_cons.1 before).1 ▸ opens

/-- Such lines are an entry by now, or they may become one. -/
theorem settled (growing : Growing ls) : IsEntry ls ∨ Unfinished ls := by
  by_cases complete : Complete (String.join ls)
  · exact .inl ⟨growing, complete⟩
  · exact .inr ⟨growing, complete⟩

end Growing

/-- One line more. -/
theorem Unfinished.more {ls : List String} (isOpen : Unfinished ls) (line : String) :
    Growing (ls ++ [line]) where
  opens := by
    obtain ⟨first, others, rfl, opens⟩ := isOpen.opens
    exact ⟨first, others ++ [line], rfl, opens⟩
  open_within n short some := by
    rw [List.length_append, List.length_singleton] at short
    rw [List.take_append_of_le_length (Nat.le_of_lt_succ short)]
    rcases Nat.lt_or_eq_of_le (Nat.le_of_lt_succ short) with within | whole
    · exact isOpen.open_within n within some
    · rw [whole, List.take_length]
      exact isOpen.incomplete

/-- An entry goes no further than its end. -/
theorem IsEntry.eq_of_prefix {ls ls' : List String} (isEntry : IsEntry ls) (growing : Growing ls')
    (before : ls <+: ls') : ls = ls' := by
  rcases Nat.lt_or_ge ls.length ls'.length with within | whole
  · have some := List.length_pos_iff.2 isEntry.ne_nil
    have isOpen := growing.open_within ls.length within some
    rw [← List.prefix_iff_eq_take.1 before] at isOpen
    exact absurd isEntry.complete isOpen
  · exact before.eq_of_length_le whole

theorem Unfinished.not_prefix {ls front : List String} (isOpen : Unfinished ls)
    (isEntry : IsEntry front) : ¬ front <+: ls := by
  intro before
  have same := isEntry.eq_of_prefix isOpen.toGrowing before
  exact isOpen.incomplete (same ▸ isEntry.complete)

namespace Division

/-- All lines are cut into pieces. -/
theorem exist (lines : List String) : ∃ ps, Division lines ps := by
  -- the lines that are read, and those before them that belong to an entry without an end so far
  suffices ∀ front, front = [] ∨ Unfinished front → ∃ ps, Division (front ++ lines) ps from
    this [] (.inl rfl)
  induction lines with
  | nil =>
    rintro front (rfl | isOpen)
    · exact ⟨[], .nothing⟩
    · rw [List.append_nil]
      exact ⟨_, .unfinished isOpen⟩
  | cons line rest ih =>
    have grown (front : List String) (growing : Growing (front ++ [line])) :
        ∃ ps, Division (front ++ line :: rest) ps := by
      rw [List.append_cons]
      rcases growing.settled with isEntry | isOpen
      · obtain ⟨ps, others⟩ := ih [] (.inl rfl)
        exact ⟨_, .entry isEntry others⟩
      · exact ih _ (.inr isOpen)
    rintro front (rfl | isOpen)
    · by_cases empty : Text.trim line = ""
      · obtain ⟨ps, others⟩ := ih [] (.inl rfl)
        exact ⟨_, .blank empty others⟩
      · by_cases word : IsFarewell line
        · exact ⟨_, .farewell word⟩
        · exact grown [] (.single ⟨empty, word⟩)
    · exact grown front (isOpen.more line)

/-! A division begins as its first line or lines tell. -/

variable {line : String} {ls rest : List String} {ps : List Piece}

theorem of_blank (empty : Text.trim line = "") (division : Division (line :: rest) ps) :
    ∃ qs, ps = .blank line :: qs ∧ Division rest qs := by
  generalize same : line :: rest = lines at division
  cases division with
  | nothing => cases same
  | blank _ others =>
    cases same
    exact ⟨_, rfl, others⟩
  | entry isEntry _ => exact absurd empty (isEntry.opens_first ⟨_, same.symm⟩).1
  | farewell word =>
    cases same
    exact absurd empty word.ne_blank
  | unfinished isOpen =>
    cases same
    exact absurd empty (isOpen.opens_first (List.prefix_refl _)).1

theorem of_farewell (word : IsFarewell line) (division : Division (line :: rest) ps) :
    ps = [.farewell line] := by
  generalize same : line :: rest = lines at division
  cases division with
  | nothing => cases same
  | blank empty _ =>
    cases same
    exact absurd empty word.ne_blank
  | entry isEntry _ => exact absurd word (isEntry.opens_first ⟨_, same.symm⟩).2
  | farewell =>
    cases same
    rfl
  | unfinished isOpen =>
    cases same
    exact absurd word (isOpen.opens_first (List.prefix_refl _)).2

theorem of_entry (isEntry : IsEntry ls) (division : Division (ls ++ rest) ps) :
    ∃ qs, ps = .entry ls :: qs ∧ Division rest qs := by
  generalize same : ls ++ rest = lines at division
  cases division with
  | nothing => exact absurd (List.append_eq_nil_iff.1 same).1 isEntry.ne_nil
  | blank empty _ => exact absurd empty (isEntry.opens_first ⟨rest, same⟩).1
  | @entry ls' rest' _ isEntry' others =>
    have one : ls = ls' := by
      rcases List.prefix_or_prefix_of_prefix ⟨rest, same⟩ (List.prefix_append ls' rest') with
        before | before
      · exact isEntry.eq_of_prefix isEntry'.toGrowing before
      · exact (isEntry'.eq_of_prefix isEntry.toGrowing before).symm
    cases one
    cases List.append_cancel_left same
    exact ⟨_, rfl, others⟩
  | farewell word => exact absurd word (isEntry.opens_first ⟨rest, same⟩).2
  | unfinished isOpen => exact absurd ⟨rest, same⟩ (isOpen.not_prefix isEntry)

theorem of_unfinished (isOpen : Unfinished ls) (division : Division ls ps) :
    ps = [.unfinished ls] := by
  cases division with
  | nothing => exact absurd rfl isOpen.ne_nil
  | blank empty _ => exact absurd empty (isOpen.opens_first (List.prefix_refl _)).1
  | entry isEntry _ => exact absurd (List.prefix_append _ _) (isOpen.not_prefix isEntry)
  | farewell word => exact absurd word (isOpen.opens_first (List.prefix_refl _)).2
  | unfinished => rfl

theorem unique {lines : List String} {qs : List Piece} (first : Division lines ps)
    (second : Division lines qs) : ps = qs := by
  induction first generalizing qs with
  | nothing =>
    generalize none : [] = lines at second
    cases second with
    | nothing => rfl
    | blank | farewell => cases none
    | entry isEntry _ => exact absurd (List.append_eq_nil_iff.1 none.symm).1 isEntry.ne_nil
    | unfinished isOpen => exact absurd none.symm isOpen.ne_nil
  | blank empty _ ih =>
    obtain ⟨others, rfl, division⟩ := of_blank empty second
    rw [ih division]
  | entry isEntry _ ih =>
    obtain ⟨others, rfl, division⟩ := of_entry isEntry second
    rw [ih division]
  | farewell word => exact (of_farewell word second).symm
  | unfinished isOpen => exact (of_unfinished isOpen second).symm

/-- Every line that is read is in one piece, and the pieces are in the order of the lines. -/
theorem lines_eq {lines : List String} (division : Division lines ps) :
    ∃ unread, lines = ps.flatMap Piece.lines ++ unread ∧
      (unread ≠ [] → ∃ word, ps.getLast? = some (.farewell word)) := by
  induction division with
  | nothing => exact ⟨[], rfl, absurd rfl⟩
  | @blank line _ _ _ _ ih =>
    obtain ⟨unread, rfl, stopped⟩ := ih
    refine ⟨unread, rfl, fun some => ?_⟩
    obtain ⟨word, last⟩ := stopped some
    exact ⟨word, by rw [List.getLast?_cons, last]; rfl⟩
  | @entry ls _ _ _ _ ih =>
    obtain ⟨unread, rfl, stopped⟩ := ih
    refine ⟨unread, (List.append_assoc ..).symm, fun some => ?_⟩
    obtain ⟨word, last⟩ := stopped some
    exact ⟨word, by rw [List.getLast?_cons, last]; rfl⟩
  | @farewell line rest _ => exact ⟨rest, rfl, fun _ => ⟨line, rfl⟩⟩
  | @unfinished ls _ => exact ⟨[], by simp [Piece.lines], absurd rfl⟩

end Division

end Script.Repl
