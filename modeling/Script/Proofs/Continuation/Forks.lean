import Script.Proofs.Reads

/-! Two runs of the parsers: one on a row of tokens, and one on a row that goes on where the first
one ends. They stay together until the first meets the end of its row. -/

namespace Script

/-- A missing operand or key is put down to the token before it. -/
def ParseFault.blamesLast : ParseFault → Bool
  | noOperand _ | key _ => true
  | _ => false

/-- What follows where a row of tokens ends: the rest of a longer row. It is `opening` if that rest
is empty or starts with a token that opens a statement. The tokens of the shorter row are at places
`inside`. -/
structure Continuation where
  stop : Token
  more : List Token
  stop' : Token
  opening : Prop
  inside : Span → Prop
  ends : stop.kind = .eof
  ends' : stop'.kind = .eof
  fresh : opening →
    ((more.head?.getD stop').kind = .eof ∨ (more.head?.getD stop').Opens)

namespace Continuation

variable (x : Continuation)

/-- The longer row. -/
def extend (s : Stream) : Stream :=
  ⟨s.last, s.rest ++ x.more, x.stop'⟩

/-- A row that `x` continues. A `return` looks at what comes next to see whether it has a value, so
no opening token comes after one. -/
structure Follows (s : Stream) : Prop where
  stop : s.stop = x.stop
  last : x.inside s.last.span
  placed : ∀ t ∈ s.rest, x.inside t.span
  final : x.opening → x.more ≠ [] → ¬ (s.rest.getLast?.getD s.last).Is .keyword "return"

/-- The error of a row that stops short is at its end, unless it blames a token before. -/
def StopsShort (e : Error) : Prop :=
  ∃ f, e.fault = .grammar f ∧ if f.blamesLast then x.inside e.span else e.span = x.stop.span

variable {α β : Type}

/-- The outcomes on a row and on the longer one. After the end of the row, both fail only for what
was `taken` before it. -/
inductive Agree (taken : Prop) (Q : Stream → Prop) (s : Stream) :
    EStateM.Result Error Stream α → EStateM.Result Error Stream α → Prop
  | along {a t} : x.Follows t → t.rest.length ≤ s.rest.length → Q t →
      Agree taken Q s (.ok a t) (.ok a (x.extend t))
  | fails {e e' t t'} : taken ∨ s.rest ≠ [] → Agree taken Q s (.error e t) (.error e' t')
  | ends {a t r} : ¬ x.opening → x.Follows t → t.rest = [] → Q t → Agree taken Q s (.ok a t) r
  | stops {e t r} : x.StopsShort e → Agree taken Q s (.error e t) r

/-- From a row with `P`, `p` on the row and `q` on the longer one take the same tokens up to a row
with `Q`, or both fail, or `p` meets the end. -/
def ForksIf (taken : Prop) (P : Stream → Prop) (p q : Parser α) (Q : Stream → Prop) : Prop :=
  ∀ s, x.Follows s → P s → x.Agree taken Q s (p s) (q (x.extend s))

abbrev Forks (P : Stream → Prop) (p q : Parser α) (Q : Stream → Prop) : Prop :=
  x.ForksIf False P p q Q

/-- As above, once a token is taken. -/
abbrev ForksAfter (P : Stream → Prop) (p q : Parser α) (Q : Stream → Prop) : Prop :=
  x.ForksIf True P p q Q

end Continuation

/-- At most `k` tokens are left. -/
def Stream.Left (k : Nat) (s : Stream) : Prop :=
  s.rest.length ≤ k

/-- At most `k` tokens are left after one of the `T`. -/
def Stream.After (T : Token → Prop) (k : Nat) (s : Stream) : Prop :=
  s.Left k ∧ T s.last

theorem Stream.Left.mono {j k : Nat} {s : Stream} (h : s.Left j) (le : j ≤ k) : s.Left k :=
  Nat.le_trans h le

theorem Stream.Left.advance {k : Nat} {s : Stream} (h : s.Left k) (some : s.rest ≠ []) :
    s.advance.Left (k - 1) := by
  obtain ⟨last, rest, stop⟩ := s
  cases rest with
  | nil => exact absurd rfl some
  | cons t ts => exact Nat.le_sub_of_add_le h

theorem Stream.Left.empty {s : Stream} (h : s.Left 0) : s.rest = [] :=
  List.length_eq_zero_iff.1 (Nat.le_zero.1 h)

/-- A token of this kind and text neither ends a row nor opens a statement. -/
abbrev Token.Quiet (kind : Token.Kind) (text : String) : Prop :=
  kind ≠ .eof ∧ kind ≠ .name ∧ (kind = .keyword → text ∉ starters)

theorem Token.quiet_delimiter (text : String) : Quiet .delimiter text := ⟨nofun, nofun, nofun⟩

theorem Token.quiet_operator (text : String) : Quiet .operator text := ⟨nofun, nofun, nofun⟩

theorem Token.Quiet.not_is {kind : Token.Kind} {text : String} {t : Token}
    (quiet : Quiet kind text) (fresh : t.kind = .eof ∨ t.Opens) : ¬ t.Is kind text := by
  obtain ⟨notEnd, notName, notStarter⟩ := quiet
  rintro ⟨rfl, rfl⟩
  rcases fresh with ended | named | ⟨keyword, starter⟩
  · exact notEnd ended
  · exact notName named
  · exact notStarter keyword starter

theorem Parser.atEnd_yes {s : Stream} (empty : s.rest = []) : atEnd s = .ok true s :=
  congrArg (EStateM.Result.ok · s) (List.isEmpty_iff.2 empty)

theorem Parser.atEnd_no {s : Stream} (some : s.rest ≠ []) : atEnd s = .ok false s :=
  congrArg (EStateM.Result.ok · s) (by simpa using some)

namespace Continuation

open Parser (bind_of_ok bind_of_error eat_yes eat_no)

variable {x : Continuation} {α β γ : Type} {P P' Q Q' R : Stream → Prop} {p q : Parser α}
  {s : Stream} {taken : Prop}

/-- Bounds that let the parsers take `k` tokens of a row and what follows it. -/
structure Enough (x : Continuation) (k n m : Nat) : Prop where
  short : k ≤ n
  long : k + x.more.length ≤ m

theorem Enough.mono {j k n m : Nat} (enough : x.Enough k n m) (le : j ≤ k) : x.Enough j n m where
  short := Nat.le_trans le enough.short
  long := Nat.le_trans (Nat.add_le_add_right le _) enough.long

/-- What takes a token takes one from each bound. -/
theorem Enough.succ {k n m : Nat} (enough : x.Enough (k + 1) n m) :
    ∃ n' m', n = n' + 1 ∧ m = m' + 1 ∧ x.Enough k n' m' := by
  have := enough.short
  have := enough.long
  exact ⟨n - 1, m - 1, by omega, by omega, by omega, by omega⟩

theorem Follows.next (follows : x.Follows s) (empty : s.rest = []) : s.next = x.stop := by
  rw [Stream.next, empty, ← follows.stop]
  rfl

theorem Follows.next_not (follows : x.Follows s) (empty : s.rest = []) {kind : Token.Kind}
    {text : String} (proper : kind ≠ .eof) : ¬ s.next.Is kind text := by
  rw [follows.next empty]
  exact fun h => proper (h.1.symm.trans x.ends)

theorem fresh_next (opening : x.opening) (empty : s.rest = []) :
    (x.extend s).next.kind = .eof ∨ (x.extend s).next.Opens := by
  simp only [Stream.next, extend, empty, List.nil_append]
  exact x.fresh opening

/-- While there are tokens left, both rows have the same one next. -/
theorem next_extend (some : s.rest ≠ []) : (x.extend s).next = s.next := by
  obtain ⟨last, rest, stop⟩ := s
  cases rest with
  | nil => exact absurd rfl some
  | cons t ts => rfl

theorem advance_extend (some : s.rest ≠ []) : (x.extend s).advance = x.extend s.advance := by
  obtain ⟨last, rest, stop⟩ := s
  cases rest with
  | nil => exact absurd rfl some
  | cons t ts => rfl

theorem Follows.advance (follows : x.Follows s) : x.Follows s.advance := by
  obtain ⟨last, rest, stop⟩ := s
  cases rest with
  | nil => exact follows
  | cons t ts =>
    obtain ⟨first, others⟩ := List.forall_mem_cons.1 follows.placed
    refine ⟨follows.stop, first, others, fun opening more => ?_⟩
    have final := follows.final opening more
    rwa [List.getLast?_cons] at final

theorem length_advance_le (s : Stream) : s.advance.rest.length ≤ s.rest.length := by
  obtain ⟨last, rest, stop⟩ := s
  cases rest with
  | nil => exact Nat.le_refl _
  | cons t ts => exact Nat.le_succ _

theorem last_advance (some : s.rest ≠ []) : s.advance.last = s.next := by
  obtain ⟨last, rest, stop⟩ := s
  cases rest with
  | nil => exact absurd rfl some
  | cons t ts => rfl

/-- A failure at the end of the row. -/
theorem Follows.stopsShort (follows : x.Follows s) (empty : s.rest = []) {f : ParseFault}
    (other : f.blamesLast = false) : x.StopsShort ⟨.grammar f, s.next.span⟩ := by
  refine ⟨f, rfl, ?_⟩
  rw [other, follows.next empty]
  rfl

/-- Past the end only the shorter row counts. -/
theorem Agree.closes {r r' r'' : EStateM.Result Error Stream α} {s' : Stream}
    (h : x.Agree False Q s r r') (closed : ¬ x.opening) (empty : s.rest = []) :
    x.Agree taken Q s' r r'' := by
  cases h with
  | along follows shorter good =>
    refine .ends closed follows (List.length_eq_zero_iff.1 ?_) good
    simpa [empty] using shorter
  | fails some => exact absurd empty (some.resolve_left not_false)
  | ends _ follows empty good => exact .ends closed follows empty good
  | stops short => exact .stops short

theorem Agree.trans {r r' : EStateM.Result Error Stream α} {t : Stream} {taken' : Prop}
    (h : x.Agree taken Q t r r') (shorter : t.rest.length ≤ s.rest.length)
    (before : taken → taken' ∨ s.rest ≠ []) : x.Agree taken' Q s r r' := by
  cases h with
  | along follows shorter' good => exact .along follows (Nat.le_trans shorter' shorter) good
  | fails some =>
    refine .fails (some.elim before fun some => .inr fun empty => some ?_)
    refine List.length_eq_zero_iff.1 ?_
    simpa [empty] using shorter
  | ends closed follows empty good => exact .ends closed follows empty good
  | stops short => exact .stops short

theorem Agree.weaken {r r' : EStateM.Result Error Stream α} (h : x.Agree taken Q s r r')
    (implies : ∀ t, t.rest.length ≤ s.rest.length → Q t → Q' t) : x.Agree taken Q' s r r' := by
  cases h with
  | along follows shorter good => exact .along follows shorter (implies _ shorter good)
  | fails some => exact .fails some
  | ends closed follows empty good =>
    exact .ends closed follows empty (implies _ (by simp [empty]) good)
  | stops short => exact .stops short

namespace ForksIf

theorem done {a : α} (same : ∀ s, P s → Q s) : x.ForksIf taken P (pure a) (pure a) Q :=
  fun s follows here => .along follows (Nat.le_refl _) (same s here)

theorem bind {f g : α → Parser β} (first : x.ForksIf taken P p q R)
    (next : ∀ a, x.Forks R (f a) (g a) Q) : x.ForksIf taken P (p >>= f) (q >>= g) Q := by
  intro s follows here
  have h := first s follows here
  change x.Agree taken Q s (EStateM.bind p f s) (EStateM.bind q g (x.extend s))
  unfold EStateM.bind
  cases run : p s with
  | ok a t =>
    rw [run] at h
    cases run' : q (x.extend s) with
    | ok b t' =>
      rw [run'] at h
      cases h with
      | along follows' shorter good => exact (next a t follows' good).trans shorter False.elim
      | ends closed follows' empty good => exact (next a t follows' good).closes closed empty
    | error e t' =>
      rw [run'] at h
      cases h with
      | ends closed follows' empty good => exact (next a t follows' good).closes closed empty
  | error e t =>
    rw [run] at h
    cases run' : q (x.extend s) with
    | ok b t' =>
      rw [run'] at h
      cases h with
      | stops short => exact .stops short
    | error e' t' =>
      rw [run'] at h
      cases h with
      | fails some => exact .fails some
      | stops short => exact .stops short

theorem weaken (h : x.ForksIf taken P p q Q) (before : ∀ s, P' s → P s) (after : ∀ s, Q s → Q' s) :
    x.ForksIf taken P' p q Q' :=
  fun s follows here => (h s follows (before s here)).weaken fun t _ => after t

theorem after (h : x.Forks P p q Q) : x.ForksIf taken P p q Q :=
  fun s follows here => (h s follows here).trans (Nat.le_refl _) False.elim

/-- Nothing is put back. -/
theorem within {j : Nat} (h : x.ForksIf taken P p q Q) (before : ∀ s, P' s → P s ∧ s.Left j) :
    x.ForksIf taken P' p q (Stream.Left j) := by
  intro s follows here
  obtain ⟨here', left⟩ := before s here
  exact (h s follows here').weaken fun t shorter _ => Nat.le_trans shorter left

/-- The end of the shorter row apart from the rows before it. -/
theorem split
    (ended : ∀ s, x.Follows s → P s → s.rest = [] → x.Agree taken Q s (p s) (q (x.extend s)))
    (going : x.ForksIf taken (fun s => P s ∧ s.rest ≠ []) p q Q) : x.ForksIf taken P p q Q := by
  intro s follows here
  by_cases empty : s.rest = []
  · exact ended s follows here empty
  · exact going s follows ⟨here, empty⟩

theorem ite {c : Prop} [Decidable c] {p' q' : Parser α} (yes : c → x.ForksIf taken P p q Q)
    (no : ¬ c → x.ForksIf taken P p' q' Q) :
    x.ForksIf taken P (if c then p else p') (if c then q else q') Q := by
  split
  · rename_i h
    exact yes h
  · rename_i h
    exact no h

/-- Looking at what both rows have. -/
theorem look {view : Stream → α} {f g : α → Parser β} (same : ∀ s, view (x.extend s) = view s)
    (next : ∀ a, x.ForksIf taken P (f a) (g a) Q) :
    x.ForksIf taken P ((fun s => .ok (view s) s : Parser α) >>= f)
      ((fun s => .ok (view s) s : Parser α) >>= g) Q := by
  intro s follows here
  have h := next (view s) s follows here
  change x.Agree taken Q s (f (view s) s) (g (view (x.extend s)) (x.extend s))
  rwa [same s]

theorem last {f g : Token → Parser α} (next : ∀ t, x.ForksIf taken P (f t) (g t) Q) :
    x.ForksIf taken P (Parser.last >>= f) (Parser.last >>= g) Q :=
  look (fun _ => rfl) next

theorem since {start : Span} {f g : Span → Parser α}
    (next : ∀ t, x.ForksIf taken P (f t) (g t) Q) :
    x.ForksIf taken P (Parser.since start >>= f) (Parser.since start >>= g) Q :=
  look (fun _ => rfl) next

/-- Looking at the next token where there is one. -/
theorem lookAhead (view : Stream → α) {f g : α → Parser β}
    (same : ∀ s, s.rest ≠ [] → view (x.extend s) = view s)
    (next : ∀ a, x.ForksIf taken (fun s => (P s ∧ s.rest ≠ []) ∧ view s = a) (f a) (g a) Q) :
    x.ForksIf taken (fun s => P s ∧ s.rest ≠ []) ((fun s => .ok (view s) s : Parser α) >>= f)
      ((fun s => .ok (view s) s : Parser α) >>= g) Q := by
  intro s follows here
  have h := next (view s) s follows ⟨here, rfl⟩
  change x.Agree taken Q s (f (view s) s) (g (view (x.extend s)) (x.extend s))
  rwa [same s here.2]

/-! Failures. -/

/-- Two failures, for what was taken. -/
theorem fail {f f' : ParseFault} {span span' : Span} :
    x.ForksAfter P (Parser.fail f span : Parser α) (Parser.fail f' span') Q :=
  fun _ _ _ => .fails (.inl trivial)

/-- Failures at the next token. -/
theorem fail_next {f f' : Token → ParseFault} (other : ∀ t, (f t).blamesLast = false) :
    x.ForksIf taken P (Parser.peek >>= fun t => Parser.fail (f t) t.span : Parser α)
      (Parser.peek >>= fun t => Parser.fail (f' t) t.span) Q := by
  intro s follows here
  by_cases empty : s.rest = []
  · exact .stops (follows.stopsShort empty (other s.next))
  · exact .fails (.inr empty)

theorem refuse {what : Wanted} :
    x.ForksIf taken P (Parser.refuse what : Parser α) (Parser.refuse what) Q := by
  intro s follows here
  by_cases empty : s.rest = []
  · exact .stops (follows.stopsShort empty rfl)
  · exact .fails (.inr empty)

/-- Going on only where there are tokens left. -/
theorem unlessEnded {f f' : Token → ParseFault} (other : ∀ t, (f t).blamesLast = false)
    (going : x.ForksIf taken (fun s => P s ∧ s.rest ≠ []) p q Q) :
    x.ForksIf taken P
      (Parser.atEnd >>= fun ended => if ended then Parser.peek >>= fun t => Parser.fail (f t) t.span
        else p)
      (Parser.atEnd >>= fun ended => if ended then Parser.peek >>= fun t => Parser.fail (f' t) t.span
        else q) Q := by
  refine split (fun s follows here empty => ?_) ?_
  · rw [bind_of_ok (Parser.atEnd_yes empty)]
    exact .stops (follows.stopsShort empty (other s.next))
  · intro s follows here
    have more : (x.extend s).rest ≠ [] := List.append_ne_nil_of_left_ne_nil here.2 _
    rw [bind_of_ok (Parser.atEnd_no here.2), bind_of_ok (Parser.atEnd_no more)]
    exact going s follows here

/-! Steps. -/

/-- Taking the next token where there is one. -/
theorem step {f g : Unit → Parser α} (next : x.ForksAfter R (f ()) (g ()) Q)
    (goes : ∀ s, P s → s.rest ≠ [] → R s.advance) :
    x.ForksIf taken (fun s => P s ∧ s.rest ≠ []) (modify Stream.advance >>= f)
      (modify Stream.advance >>= g) Q := by
  rintro s follows ⟨here, some⟩
  have h := next s.advance follows.advance (goes s here some)
  change x.Agree taken Q s (f () s.advance) (g () (x.extend s).advance)
  rw [advance_extend some]
  exact h.trans (length_advance_le s) fun _ => .inr some

theorem advance {f g : Token → Parser α}
    (next : ∀ t, x.ForksAfter (fun s => R s ∧ s.last = t) (f t) (g t) Q)
    (goes : ∀ s, P s → s.rest ≠ [] → R s.advance) :
    x.ForksIf taken (fun s => P s ∧ s.rest ≠ []) (Parser.advance >>= f) (Parser.advance >>= g)
      Q := by
  rintro s follows ⟨here, some⟩
  have h := next s.next s.advance follows.advance ⟨goes s here some, last_advance some⟩
  change x.Agree taken Q s (f s.advance.last s.advance)
    (g (x.extend s).advance.last (x.extend s).advance)
  rw [advance_extend some]
  change x.Agree taken Q s (f s.advance.last s.advance) (g s.advance.last (x.extend s.advance))
  rw [last_advance some]
  exact h.trans (length_advance_le s) fun _ => .inr some

theorem sees {kind : Token.Kind} {text : String} {f g : Bool → Parser α}
    (quiet : Token.Quiet kind text)
    (yes : x.Forks (fun s => P s ∧ s.rest ≠ []) (f true) (g true) Q)
    (no : x.Forks P (f false) (g false) Q) :
    x.ForksIf taken P (Parser.sees kind text >>= f) (Parser.sees kind text >>= g) Q := by
  intro s follows here
  change x.Agree taken Q s (f (decide (s.next.Is kind text)) s)
    (g (decide ((x.extend s).next.Is kind text)) (x.extend s))
  by_cases empty : s.rest = []
  · rw [decide_eq_false (follows.next_not empty quiet.1)]
    have h := no s follows here
    by_cases opening : x.opening
    · rw [decide_eq_false (quiet.not_is (fresh_next opening empty))]
      exact h.trans (Nat.le_refl _) False.elim
    · exact h.closes opening empty
  · rw [next_extend empty]
    by_cases found : s.next.Is kind text
    · rw [decide_eq_true found]
      exact yes.after s follows ⟨here, empty⟩
    · rw [decide_eq_false found]
      exact no.after s follows here

theorem eat {kind : Token.Kind} {text : String} {f g : Bool → Parser α}
    (quiet : Token.Quiet kind text) (yes : x.ForksAfter R (f true) (g true) Q)
    (no : x.Forks P (f false) (g false) Q)
    (goes : ∀ s, P s → s.rest ≠ [] → s.next.Is kind text → R s.advance) :
    x.ForksIf taken P (Parser.eat kind text >>= f) (Parser.eat kind text >>= g) Q := by
  intro s follows here
  by_cases empty : s.rest = []
  · rw [bind_of_ok (eat_no (follows.next_not empty quiet.1))]
    have h := no s follows here
    by_cases opening : x.opening
    · rw [bind_of_ok (eat_no (quiet.not_is (fresh_next opening empty)))]
      exact h.trans (Nat.le_refl _) False.elim
    · exact h.closes opening empty
  · by_cases found : s.next.Is kind text
    · have found' : (x.extend s).next.Is kind text := by rwa [next_extend empty]
      rw [bind_of_ok (eat_yes found), bind_of_ok (eat_yes found'), advance_extend empty]
      exact (yes s.advance follows.advance (goes s here empty found)).trans (length_advance_le s)
        fun _ => .inr empty
    · have missing : ¬ (x.extend s).next.Is kind text := by rwa [next_extend empty]
      rw [bind_of_ok (eat_no found), bind_of_ok (eat_no missing)]
      exact no.after s follows here

theorem expect {k : Nat} {kind : Token.Kind} {text : String} {what : Wanted}
    (quiet : Token.Quiet kind text) :
    x.ForksIf taken (Stream.Left k) (Parser.expect kind text what) (Parser.expect kind text what)
      (Stream.Left k) :=
  eat quiet (done fun _ => id) refuse fun _ left some _ => (left.advance some).mono (Nat.sub_le k 1)

theorem delimiter {k : Nat} (text : String) (what : Wanted) :
    x.ForksIf taken (Stream.Left k) (Parser.delimiter text what) (Parser.delimiter text what)
      (Stream.Left k) :=
  expect (Token.quiet_delimiter text)

theorem expectKind_yes {kind : Token.Kind} {what : Wanted} (found : s.next.kind = kind)
    (some : s.rest ≠ []) : Parser.expectKind kind what s = .ok s.next.text s.advance := by
  have look : Parser.peek s = .ok s.next s := rfl
  have take : Parser.advance s = .ok s.advance.last s.advance := rfl
  unfold Parser.expectKind
  rw [bind_of_ok look, if_pos found, bind_of_ok take, last_advance some]
  rfl

theorem expectKind_no {kind : Token.Kind} (what : Wanted) (missing : s.next.kind ≠ kind) :
    ∃ found, Parser.expectKind kind what s =
      .error ⟨.grammar (.wanted what found), s.next.span⟩ s := by
  have look : Parser.peek s = .ok s.next s := rfl
  unfold Parser.expectKind
  rw [bind_of_ok look, if_neg missing]
  exact ⟨_, rfl⟩

theorem expectKind {k : Nat} {kind : Token.Kind} {what : Wanted} {f g : String → Parser α}
    (proper : kind ≠ .eof) (next : ∀ a, x.ForksAfter (Stream.Left k) (f a) (g a) Q) :
    x.ForksIf taken (Stream.Left k) (Parser.expectKind kind what >>= f)
      (Parser.expectKind kind what >>= g) Q := by
  intro s follows left
  by_cases empty : s.rest = []
  · have missing : s.next.kind ≠ kind := by
      rw [follows.next empty, x.ends]
      exact proper.symm
    obtain ⟨found, run⟩ := expectKind_no what missing
    rw [bind_of_error run]
    exact .stops (follows.stopsShort empty rfl)
  · by_cases found : s.next.kind = kind
    · have found' : (x.extend s).next.kind = kind := by rwa [next_extend empty]
      have more : (x.extend s).rest ≠ [] := List.append_ne_nil_of_left_ne_nil empty _
      rw [bind_of_ok (expectKind_yes found empty), bind_of_ok (expectKind_yes found' more),
        next_extend empty, advance_extend empty]
      have left' := (left.advance empty).mono (Nat.sub_le k 1)
      exact (next s.next.text s.advance follows.advance left').trans (length_advance_le s)
        fun _ => .inr empty
    · have missing : (x.extend s).next.kind ≠ kind := by rwa [next_extend empty]
      obtain ⟨_, run⟩ := expectKind_no what found
      obtain ⟨_, run'⟩ := expectKind_no what missing
      rw [bind_of_error run, bind_of_error run']
      exact .fails (.inr empty)

theorem name {k : Nat} {what : Wanted} {f g : String → Parser α}
    (next : ∀ a, x.ForksAfter (Stream.Left k) (f a) (g a) Q) :
    x.ForksIf taken (Stream.Left k) (Parser.name what >>= f) (Parser.name what >>= g) Q :=
  expectKind (by decide) next

theorem operator_quiet (op : BinOp) : Token.Quiet op.spelling op.symbol := by
  cases op <;> decide

theorem operatorOf_none {ops : List BinOp}
    (missing : ∀ op : BinOp, ¬ s.next.Is op.spelling op.symbol) :
    Parser.operatorOf ops s = .ok none s := by
  refine congrArg (EStateM.Result.ok · s) (List.find?_eq_none.2 fun op _ => ?_)
  rw [decide_eq_true_eq]
  exact missing op

theorem operatorOf {ops : List BinOp} {f g : Option BinOp → Parser α}
    (yes : ∀ op, x.Forks (fun s => P s ∧ s.rest ≠ []) (f (some op)) (g (some op)) Q)
    (no : x.Forks P (f none) (g none) Q) :
    x.ForksIf taken P (Parser.operatorOf ops >>= f) (Parser.operatorOf ops >>= g) Q := by
  refine split (fun s follows here empty => ?_) ?_
  · rw [bind_of_ok (operatorOf_none fun op => follows.next_not empty (operator_quiet op).1)]
    have h := no s follows here
    by_cases opening : x.opening
    · rw [bind_of_ok (operatorOf_none fun op =>
        (operator_quiet op).not_is (fresh_next opening empty))]
      exact h.trans (Nat.le_refl _) False.elim
    · exact h.closes opening empty
  · refine lookAhead _ (fun s some => ?_) fun found => ?_
    · rw [next_extend some]
    · cases found with
      | none => exact no.after.weaken (fun s here => here.1.1) fun _ => id
      | some op => exact (yes op).after.weaken (fun s => And.left) fun _ => id

theorem blame_stopsShort {symbol : String} {place : Span} {e : Error} (here : x.inside place)
    (short : x.StopsShort e) : x.StopsShort (Parser.operandAfter.blame symbol place e) := by
  unfold Parser.operandAfter.blame
  split
  · split
    · exact ⟨_, rfl, here⟩
    · exact short
  · exact short

theorem operandAfter {symbol : String} (h : x.ForksIf taken P p q Q) :
    x.ForksIf taken P (Parser.operandAfter symbol p) (Parser.operandAfter symbol q) Q := by
  intro s follows here
  have agree := h s follows here
  change x.Agree taken Q s (EStateM.adaptExcept _ p s) (EStateM.adaptExcept _ q (x.extend s))
  unfold EStateM.adaptExcept
  cases run : p s with
  | ok a t =>
    rw [run] at agree
    cases run' : q (x.extend s) with
    | ok b t' =>
      rw [run'] at agree
      cases agree with
      | along follows' shorter good => exact .along follows' shorter good
      | ends closed follows' empty good => exact .ends closed follows' empty good
    | error e t' =>
      rw [run'] at agree
      cases agree with
      | ends closed follows' empty good => exact .ends closed follows' empty good
  | error e t =>
    rw [run] at agree
    cases run' : q (x.extend s) with
    | ok b t' =>
      rw [run'] at agree
      cases agree with
      | stops short => exact .stops (blame_stopsShort follows.last short)
    | error e' t' =>
      rw [run'] at agree
      cases agree with
      | fails some => exact .fails some
      | stops short => exact .stops (blame_stopsShort follows.last short)

/-- Before the end, or before a token that opens a statement, `p` does what `q` does. -/
def Skips (p q : Parser α) : Prop :=
  ∀ s : Stream, s.next.kind = .eof ∨ s.next.Opens → p s = q s

theorem skips_refl (p : Parser α) : Skips p p := fun _ _ => rfl

theorem skips_eat {kind : Token.Kind} {text : String} {f : Bool → Parser α}
    (quiet : Token.Quiet kind text) : Skips (Parser.eat kind text >>= f) (f false) := by
  intro s fresh
  rw [bind_of_ok (eat_no (quiet.not_is fresh))]

theorem skip {p' q' : Parser α} (short : Skips p p') (long : Skips q q')
    (h : x.Forks (Stream.Left 0) p' q' Q) : x.ForksIf taken (Stream.Left 0) p q Q := by
  intro s follows left
  have empty := Stream.Left.empty left
  rw [short s (.inl (follows.next empty ▸ x.ends))]
  by_cases opening : x.opening
  · rw [long _ (fresh_next opening empty)]
    exact h.after s follows left
  · exact (h s follows left).closes opening empty

/-- A loop that finds nothing to go on with. -/
theorem idle {a : α} (short : Skips p (pure a)) (long : Skips q (pure a)) :
    x.ForksIf taken (Stream.Left 0) p q (Stream.Left 0) :=
  skip short long (done fun _ => id)

section Lists

variable {item item' : List α → Parser α} {b k n m : Nat} {T : Token → Prop}

theorem listed_first (item : List α → Parser α) (n : Nat) (seen : List α) :
    ∃ f, Parser.listed item n seen = item seen >>= f ∧ ∀ a, Skips (f a) (pure [a]) := by
  cases n with
  | zero => exact ⟨_, rfl, fun a => skips_refl _⟩
  | succ n => exact ⟨_, rfl, fun a => skips_eat (by decide)⟩

/-- Items that may look at the comma before them. -/
theorem listed (commas : ∀ t : Token, t.kind = .delimiter → T t)
    (each : ∀ seen, x.Forks (Stream.After T b) (item seen) (item' seen) (Stream.Left b))
    (within : k ≤ b) (enough : x.Enough k n m) (seen : List α) :
    x.Forks (Stream.After T k) (Parser.listed item n seen) (Parser.listed item' m seen)
      (Stream.Left k) := by
  have one {k : Nat} (within : k ≤ b) (seen : List α) :
      x.Forks (Stream.After T k) (item seen) (item' seen) (Stream.Left k) :=
    (each seen).within fun s after => ⟨⟨after.1.mono within, after.2⟩, after.1⟩
  induction k generalizing n m seen with
  | zero =>
    obtain ⟨f, run, skips⟩ := listed_first item n seen
    obtain ⟨f', run', skips'⟩ := listed_first item' m seen
    rw [run, run']
    exact (one within seen).bind fun a => idle (skips a) (skips' a)
  | succ k ih =>
    obtain ⟨n, m, rfl, rfl, fewer⟩ := enough.succ
    refine (one within seen).bind fun a => ?_
    refine eat (R := Stream.After T k) (by decide) ?_ (done fun _ => id) ?_
    · refine (ih (Nat.le_of_succ_le within) fewer (a :: seen)).after.bind fun as => done ?_
      exact fun s left => left.mono (Nat.le_succ k)
    · intro s left some found
      exact ⟨left.advance some, (last_advance some).symm ▸ commas _ found.1⟩

theorem listedUntil {close : String} (commas : ∀ t : Token, t.kind = .delimiter → T t)
    (each : ∀ seen, x.Forks (Stream.After T b) (item seen) (item' seen) (Stream.Left b))
    (within : k ≤ b) (enough : x.Enough k n m) :
    x.ForksIf taken (Stream.After T k) (Parser.listedUntil close n item)
      (Parser.listedUntil close m item') (Stream.Left k) :=
  sees (Token.quiet_delimiter close) (done fun _ here => here.1.1)
    (listed commas each within enough [])

/-- Items that do not look back. -/
theorem listedUntil_left {close : String}
    (each : ∀ seen, x.Forks (Stream.Left b) (item seen) (item' seen) (Stream.Left b))
    (within : k ≤ b) (enough : x.Enough k n m) :
    x.ForksIf taken (Stream.Left k) (Parser.listedUntil close n item)
      (Parser.listedUntil close m item') (Stream.Left k) := by
  have each' (seen : List α) :
      x.Forks (Stream.After (fun _ => True) b) (item seen) (item' seen) (Stream.Left b) :=
    (each seen).weaken (fun _ => And.left) fun _ => id
  exact (listedUntil (fun _ _ => trivial) each' within enough).weaken
    (fun _ left => ⟨left, trivial⟩) fun _ => id

end Lists

end ForksIf

end Continuation

end Script
