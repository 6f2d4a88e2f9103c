import Script.Proofs.Relocation

/-! Moving the tokens of a row moves what is read from it, and changes nothing else: a parser that
runs on a moved row answers with the moved tree or fails with the same fault at the moved place. -/

namespace Script

/-- A change of places under which stretches of text stay stretches. -/
def Keeps (f : Span → Span) : Prop :=
  ∀ s t, f (s.through t) = (f s).through (f t)

theorem nowhere_keeps : Keeps nowhere := fun _ _ => rfl

def Token.relocate (f : Span → Span) (t : Token) : Token :=
  { t with span := f t.span }

def Stream.relocate (f : Span → Span) (s : Stream) : Stream :=
  ⟨s.last.relocate f, s.rest.map (Token.relocate f), s.stop.relocate f⟩

def Error.relocate (f : Span → Span) (e : Error) : Error :=
  { e with span := f e.span }

@[simp] theorem Stream.next_relocate (f : Span → Span) (s : Stream) :
    (s.relocate f).next = s.next.relocate f := by
  obtain ⟨last, rest, stop⟩ := s
  cases rest <;> rfl

theorem Stream.advance_relocate (f : Span → Span) (s : Stream) :
    (s.relocate f).advance = s.advance.relocate f := by
  obtain ⟨last, rest, stop⟩ := s
  cases rest <;> rfl

namespace Parser

variable {α β : Type} {f : Span → Span}

/-- The outcome on a moved row. -/
def moved (f : Span → Span) (view : α → β) :
    EStateM.Result Error Stream α → EStateM.Result Error Stream β
  | .ok a t => .ok (view a) (t.relocate f)
  | .error e t => .error (e.relocate f) (t.relocate f)

/-- Where `q` answers with `a` on a row, `p` answers with `view a` on the moved one. What makes
`q` fail is a fault in the order of tokens. -/
structure Moves (f : Span → Span) (view : α → β) (p : Parser β) (q : Parser α) : Prop where
  run : ∀ s, p (s.relocate f) = moved f view (q s)
  fault : ∀ s e t, q s = .error e t → ∃ g, e.fault = .grammar g

namespace Moves

variable {α' β' : Type} {view : α → β} {view' : α' → β'} {p : Parser β} {q : Parser α}

theorem pure {a : α} {b : β} (same : b = view a) : Moves f view (pure b) (pure a) where
  run s := by
    rw [same]
    rfl
  fault s e t failed := by cases failed

theorem bind {g : β → Parser β'} {g' : α → Parser α'} (first : Moves f view p q)
    (next : ∀ a, Moves f view' (g (view a)) (g' a)) : Moves f view' (p >>= g) (q >>= g') where
  run s := by
    have h := first.run s
    change EStateM.bind p g (s.relocate f) = moved f view' (EStateM.bind q g' s)
    unfold EStateM.bind
    cases run : q s with
    | ok a t =>
      rw [run] at h
      rw [h]
      exact (next a).run t
    | error e t =>
      rw [run] at h
      rw [h]
      rfl
  fault s e t failed := by
    change EStateM.bind q g' s = _ at failed
    unfold EStateM.bind at failed
    cases run : q s with
    | ok a t' =>
      rw [run] at failed
      exact (next a).fault t' e t failed
    | error e' t' =>
      rw [run] at failed
      cases failed
      exact first.fault s e t run

theorem fail (fault : ParseFault) {s t : Span} (moved : t = f s) :
    Moves f view (fail fault t) (fail fault s) where
  run r := by
    rw [moved]
    rfl
  fault r e u failed := by
    cases failed
    exact ⟨fault, rfl⟩

theorem ite {c : Prop} [Decidable c] {p' : Parser β} {q' : Parser α} (yes : Moves f view p q)
    (no : Moves f view p' q') : Moves f view (if c then p else p') (if c then q else q') := by
  split
  · exact yes
  · exact no

theorem look {seen : Stream → α} {seen' : Stream → β}
    (same : ∀ s, seen' (s.relocate f) = view (seen s)) :
    Moves f view (fun s => .ok (seen' s) s) (fun s => .ok (seen s) s) where
  run s := by simp only [same, moved]
  fault s e t failed := by cases failed

end Moves

theorem peek_moves : Moves f (Token.relocate f) peek peek :=
  Moves.look (Stream.next_relocate f)

theorem last_moves : Moves f (Token.relocate f) last last :=
  Moves.look fun _ => rfl

theorem atEnd_moves : Moves f id atEnd atEnd := by
  apply Moves.look
  rintro ⟨last, rest, stop⟩
  cases rest <;> rfl

theorem step_moves : Moves f id (modify Stream.advance) (modify Stream.advance) where
  run s := by
    change EStateM.Result.ok () (s.relocate f).advance = _
    rw [Stream.advance_relocate]
    rfl
  fault s e t failed := by cases failed

theorem advance_moves : Moves f (Token.relocate f) advance advance :=
  step_moves.bind fun _ => last_moves

theorem since_moves (keeps : Keeps f) (start : Span) : Moves f f (since (f start)) (since start) := by
  apply Moves.look
  intro s
  exact (keeps _ _).symm

theorem sees_moves (kind : Token.Kind) (text : String) : Moves f id (sees kind text) (sees kind text) := by
  apply Moves.look
  intro s
  simp only [Stream.next_relocate]
  rfl

theorem seesKeyword_moves (words : List String) :
    Moves f id (seesKeyword words) (seesKeyword words) := by
  apply Moves.look
  intro s
  simp only [Stream.next_relocate]
  rfl

theorem eat_moves (kind : Token.Kind) (text : String) : Moves f id (eat kind text) (eat kind text) := by
  apply (sees_moves kind text).bind
  intro found
  cases found with
  | true => exact step_moves.bind fun _ => Moves.pure rfl
  | false => exact Moves.pure rfl

theorem refuse_moves {view : α → β} (what : Wanted) : Moves f view (refuse what) (refuse what) := by
  refine peek_moves.bind fun t => atEnd_moves.bind fun ended => ?_
  exact Moves.fail _ rfl

theorem expect_moves (kind : Token.Kind) (text : String) (what : Wanted) :
    Moves f id (expect kind text what) (expect kind text what) := by
  apply (eat_moves kind text).bind
  intro found
  cases found with
  | true => exact Moves.pure rfl
  | false => exact refuse_moves what

theorem expectKind_moves (kind : Token.Kind) (what : Wanted) :
    Moves f id (expectKind kind what) (expectKind kind what) := by
  apply peek_moves.bind
  intro t
  change Moves f id (if t.kind = kind then _ else _) _
  refine Moves.ite ?_ (refuse_moves what)
  exact advance_moves.bind fun u => Moves.pure rfl

theorem name_moves (what : Wanted) : Moves f id (name what) (name what) :=
  expectKind_moves .name what

theorem delimiter_moves (text : String) (what : Wanted) :
    Moves f id (delimiter text what) (delimiter text what) :=
  expect_moves .delimiter text what

theorem keyword_moves (text : String) (what : Wanted) :
    Moves f id (keyword text what) (keyword text what) :=
  expect_moves .keyword text what

theorem listed_moves {view : α → β} {item : List β → Parser β} {item' : List α → Parser α}
    (each : ∀ seen, Moves f view (item (seen.map view)) (item' seen)) (n : Nat) (seen : List α) :
    Moves f (List.map view) (listed item n (seen.map view)) (listed item' n seen) := by
  induction n generalizing seen with
  | zero => exact (each seen).bind fun x => Moves.pure rfl
  | succ n ih =>
    refine (each seen).bind fun x => (eat_moves _ _).bind fun comma => ?_
    cases comma with
    | true => exact (ih (x :: seen)).bind fun xs => Moves.pure rfl
    | false => exact Moves.pure rfl

theorem listedUntil_moves {view : α → β} {item : List β → Parser β} {item' : List α → Parser α}
    (close : String) (bound : Nat) (each : ∀ seen, Moves f view (item (seen.map view)) (item' seen)) :
    Moves f (List.map view) (listedUntil close bound item) (listedUntil close bound item') := by
  apply (sees_moves _ _).bind
  intro closed
  cases closed with
  | true => exact Moves.pure rfl
  | false => exact listed_moves each bound []

theorem blame_relocate (symbol : String) (place : Span) (e : Error) :
    operandAfter.blame symbol (f place) (e.relocate f) =
      (operandAfter.blame symbol place e).relocate f := by
  obtain ⟨fault, span⟩ := e
  cases fault with
  | grammar g =>
    simp only [operandAfter.blame, Error.relocate]
    split
    · rfl
    · rfl
  | _ => rfl

theorem blame_fault {symbol : String} {place : Span} {e : Error}
    (grammar : ∃ g, e.fault = .grammar g) :
    ∃ g, (operandAfter.blame symbol place e).fault = .grammar g := by
  obtain ⟨g, fault⟩ := grammar
  unfold operandAfter.blame
  rw [fault]
  dsimp only
  split
  · exact ⟨_, rfl⟩
  · exact ⟨g, fault⟩

theorem operandAfter_moves {view : α → β} {p : Parser β} {q : Parser α} (symbol : String)
    (h : Moves f view p q) : Moves f view (operandAfter symbol p) (operandAfter symbol q) where
  run s := by
    have run := h.run s
    change EStateM.adaptExcept _ p (s.relocate f) = moved f view (EStateM.adaptExcept _ q s)
    unfold EStateM.adaptExcept
    rw [run]
    cases q s with
    | ok a t => rfl
    | error e t => exact congrArg (EStateM.Result.error · (t.relocate f)) (blame_relocate symbol _ e)
  fault s e t failed := by
    change EStateM.adaptExcept _ q s = _ at failed
    unfold EStateM.adaptExcept at failed
    cases run : q s with
    | ok a t' =>
      rw [run] at failed
      cases failed
    | error e' t' =>
      rw [run] at failed
      cases failed
      exact blame_fault (h.fault s e' t run)

end Parser

end Script
