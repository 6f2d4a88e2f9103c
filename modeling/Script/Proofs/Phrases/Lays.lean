import Script.Proofs.Phrases.Laid
import Script.Proofs.Reads

/-! A logic of what parsers build. An assertion is about the tokens taken since a phrase began,
which are at hand while the phrase is read, so that its place can be told from them. -/

namespace Script

/-- The second state of a stream is the first after these tokens. -/
structure Stream.Moves (s : Stream) (ts : List Token) (s' : Stream) : Prop where
  stop : s'.stop = s.stop
  rest : s.rest = ts ++ s'.rest
  last : s'.last = ts.getLast?.getD s.last

namespace Stream.Moves

variable {s s₁ s' : Stream} {ts us : List Token}

theorem refl (s : Stream) : s.Moves [] s :=
  ⟨rfl, rfl, rfl⟩

theorem trans (first : s.Moves ts s₁) (next : s₁.Moves us s') : s.Moves (ts ++ us) s' := by
  refine ⟨next.stop.trans first.stop, by simp [first.rest, next.rest], ?_⟩
  rw [next.last, first.last, List.getLast?_append]
  cases us.getLast? <;> rfl

theorem length_le (moves : s.Moves ts s') : s'.rest.length ≤ s.rest.length := by
  rw [moves.rest, List.length_append]
  exact Nat.le_add_left _ _

/-- A token of a kind that does not end the row is there to be taken. -/
theorem token {kind : Token.Kind} (ends : s.stop.kind = .eof) (found : s.next.kind = kind)
    (proper : kind ≠ .eof) : s.Moves [s.next] s.advance := by
  obtain ⟨rest, took, taken⟩ := Parser.next_mem ends found proper
  rw [taken]
  exact ⟨rfl, took, rfl⟩

end Stream.Moves

namespace Parser

variable {α β : Type}

/-- After the tokens `us`, which a first state has left behind, what `p` takes makes with its answer
what is wanted. The row is in order and ends properly, and at most `n` tokens are left. -/
def Lays (n : Nat) (us : List Token) (p : Parser α) (post : α → List Token → Prop) : Prop :=
  ∀ (s₀ s : Stream) a s', s.stop.kind = .eof → s.rest.length ≤ n → InOrder s₀.rest → s₀.Moves us s →
    p s = .ok a s' → ∃ ts, s.Moves ts s' ∧ post a (us ++ ts)

/-- The fragments of the answer are laid over what `p` takes. -/
abbrev Composes (n : Nat) (p : Parser α) (fragments : α → List Fragment) : Prop :=
  Lays n [] p fun a ts => Laid (fragments a) ts

namespace Lays

variable {n : Nat} {us : List Token} {p : Parser α} {post : α → List Token → Prop}
  {mid : β → List Token → Prop}

theorem bind {q : Parser β} {f : β → Parser α} (first : Lays n us q mid)
    (next : ∀ b vs, InOrder vs → mid b vs → Lays n vs (f b) post) :
    Lays n us (q >>= f) post := by
  intro s₀ s a s' ends short order moved run
  obtain ⟨b, t, hq, hf⟩ := bind_ok.1 run
  obtain ⟨ts, moved₁, met⟩ := first s₀ s b t ends short order moved hq
  have whole := moved.trans moved₁
  have order₁ : InOrder (us ++ ts) := (whole.rest ▸ order).left
  have short₁ := Nat.le_trans moved₁.length_le short
  obtain ⟨ts', moved₂, done⟩ :=
    next b (us ++ ts) order₁ met s₀ t a s' (moved₁.stop ▸ ends) short₁ order whole hf
  exact ⟨ts ++ ts', moved₁.trans moved₂, by simpa using done⟩

theorem pure {a : α} (done : InOrder us → post a us) : Lays n us (pure a) post := by
  rintro s₀ s _ _ ends short order moved ⟨⟩
  exact ⟨[], .refl s, by simpa using done (moved.rest ▸ order).left⟩

theorem fail (f : ParseFault) (span : Span) : Lays n us (fail f span) post := by
  intro s₀ s a s' _ _ _ _ run
  cases run

theorem consequence {post' : α → List Token → Prop} (lays : Lays n us p post)
    (implies : ∀ a vs, InOrder vs → post a vs → post' a vs) : Lays n us p post' := by
  intro s₀ s a s' ends short order moved run
  obtain ⟨ts, moved₁, done⟩ := lays s₀ s a s' ends short order moved run
  have whole := moved.trans moved₁
  exact ⟨ts, moved₁, implies a _ (whole.rest ▸ order).left done⟩

theorem ite {c : Prop} [Decidable c] {q : Parser α} (yes : c → Lays n us p post)
    (no : ¬ c → Lays n us q post) : Lays n us (if c then p else q) post := by
  split
  · rename_i h
    exact yes h
  · rename_i h
    exact no h

/-- What begins here is added to what was taken before. -/
theorem after {mid : α → List Token → Prop} (fresh : Lays n [] p mid)
    (done : ∀ a ts, mid a ts → post a (us ++ ts)) : Lays n us p post := by
  intro s₀ s a s' ends short order moved run
  have later : InOrder s.rest := (moved.rest ▸ order).right
  obtain ⟨ts, moved₁, met⟩ := fresh s s a s' ends short later (.refl s) run
  exact ⟨ts, moved₁, done a ts met⟩

theorem first {q : Parser β} {f : β → Parser α} (fresh : Lays n [] q mid)
    (next : ∀ b ts, InOrder (us ++ ts) → mid b ts → Lays n (us ++ ts) (f b) post) :
    Lays n us (q >>= f) post := by
  have whole : Lays n us q fun b vs => ∃ ts, vs = us ++ ts ∧ mid b ts :=
    fresh.after fun b ts met => ⟨ts, rfl, met⟩
  apply whole.bind
  rintro b _ order ⟨ts, rfl, met⟩
  exact next b ts order met

/-! Steps that take nothing. -/

theorem look {view : Stream → β} {f : β → Parser α} (next : ∀ b, Lays n us (f b) post) :
    Lays n us ((fun s => .ok (view s) s : Parser β) >>= f) post :=
  fun s₀ s => next (view s) s₀ s

theorem peek {f : Token → Parser α} (next : ∀ t, Lays n us (f t) post) :
    Lays n us (peek >>= f) post := look next

theorem atEnd {f : Bool → Parser α} (next : ∀ b, Lays n us (f b) post) :
    Lays n us (atEnd >>= f) post := look next

theorem sees {kind : Token.Kind} {text : String} {f : Bool → Parser α}
    (next : ∀ b, Lays n us (f b) post) : Lays n us (sees kind text >>= f) post := look next

theorem seesKeyword {words : List String} {f : Bool → Parser α}
    (next : ∀ b, Lays n us (f b) post) : Lays n us (seesKeyword words >>= f) post := look next

theorem last {f : Token → Parser α} {t : Token} (here : us.getLast? = some t)
    (next : Lays n us (f t) post) : Lays n us (last >>= f) post := by
  intro s₀ s a s' ends short order moved run
  have same : s.last = t := by rw [moved.last, here, Option.getD_some]
  subst same
  exact next s₀ s a s' ends short order moved run

/-- The place since the first of the tokens taken. -/
theorem since {start : Span} {f : Span → Parser α} (begins : start.Begins us)
    (next : ∀ span, span.Delimits us → Lays n us (f span) post) :
    Lays n us (since start >>= f) post := by
  intro s₀ s a s' ends short order moved run
  have order₁ : InOrder us := (moved.rest ▸ order).left
  obtain ⟨t, last⟩ : ∃ t, us.getLast? = some t := by
    obtain ⟨t, first, -⟩ := begins
    cases us with
    | nil => cases first
    | cons u us => exact ⟨_, List.getLast?_cons⟩
  have same : s.last = t := by rw [moved.last, last, Option.getD_some]
  have delimits : (start.through s.last.span).Delimits us :=
    begins.through order₁ ⟨t, last, by rw [same]⟩
  exact next _ delimits s₀ s a s' ends short order moved run

/-- What is built with that place, at the end of a parser. -/
theorem placed {start : Span} {x : Span → α} (begins : start.Begins us)
    (done : ∀ span, span.Delimits us → post (x span) us) :
    Lays n us (Parser.since start >>= fun span => Pure.pure (x span)) post :=
  since begins fun span delimits => pure fun _ => done span delimits

/-! Steps that take a token. -/

/-- Tokens taken, then `p`. -/
theorem step {s₀ s s₁ s' : Stream} {a : α} {ts : List Token} (ends : s.stop.kind = .eof)
    (short : s.rest.length ≤ n) (order : InOrder s₀.rest) (moved : s₀.Moves us s)
    (took : s.Moves ts s₁) (lays : Lays n (us ++ ts) p post) (run : p s₁ = .ok a s') :
    ∃ ts, s.Moves ts s' ∧ post a (us ++ ts) := by
  have short₁ := Nat.le_trans took.length_le short
  obtain ⟨ts', moved₁, done⟩ :=
    lays s₀ s₁ a s' (took.stop ▸ ends) short₁ order (moved.trans took) run
  exact ⟨ts ++ ts', took.trans moved₁, by simpa using done⟩

theorem eat {kind : Token.Kind} {text : String} {f : Bool → Parser α} (proper : kind ≠ .eof)
    (yes : ∀ t : Token, t.Is kind text → Lays n (us ++ [t]) (f true) post)
    (no : Lays n us (f false) post) : Lays n us (eat kind text >>= f) post := by
  intro s₀ s a s' ends short order moved run
  by_cases h : s.next.Is kind text
  · rw [bind_of_ok (eat_yes h)] at run
    exact step ends short order moved (.token ends h.1 proper) (yes s.next h) run
  · rw [bind_of_ok (eat_no h)] at run
    exact no s₀ s a s' ends short order moved run

theorem refuse (what : Wanted) : Lays n us (refuse what) post := by
  intro s₀ s a s' _ _ _ _ run
  cases run

theorem expect {kind : Token.Kind} {text : String} {what : Wanted} {f : Unit → Parser α}
    (proper : kind ≠ .eof) (next : ∀ t : Token, t.Is kind text → Lays n (us ++ [t]) (f ()) post) :
    Lays n us (expect kind text what >>= f) post := by
  have taken : Lays n us (Parser.expect kind text what) fun _ vs =>
      ∃ t : Token, vs = us ++ [t] ∧ t.Is kind text :=
    eat proper (fun t is => pure fun _ => ⟨t, rfl, is⟩) (refuse what)
  apply taken.bind
  rintro _ _ - ⟨t, rfl, is⟩
  exact next t is

theorem delimiter {text : String} {what : Wanted} {f : Unit → Parser α}
    (next : ∀ t : Token, t.Is .delimiter text → Lays n (us ++ [t]) (f ()) post) :
    Lays n us (delimiter text what >>= f) post := expect (by decide) next

theorem keyword {text : String} {what : Wanted} {f : Unit → Parser α}
    (next : ∀ t : Token, t.Is .keyword text → Lays n (us ++ [t]) (f ()) post) :
    Lays n us (keyword text what >>= f) post := expect (by decide) next

theorem expectKind {kind : Token.Kind} {what : Wanted} {f : String → Parser α}
    (proper : kind ≠ .eof)
    (next : ∀ t : Token, t.Is kind t.text → Lays n (us ++ [t]) (f t.text) post) :
    Lays n us (expectKind kind what >>= f) post := by
  intro s₀ s a s' ends short order moved run
  obtain ⟨x, s₂, took, run⟩ := bind_ok.1 run
  obtain ⟨t, s₁, look, took⟩ := bind_ok.1 took
  cases look
  split at took
  · rename_i found
    obtain ⟨u, s₃, stepped, took⟩ := bind_ok.1 took
    cases stepped
    cases took
    obtain ⟨rest, -, taken⟩ := next_mem ends found proper
    have same : s.advance.last = s.next := by rw [taken]
    rw [same] at run
    have took := Stream.Moves.token ends found proper
    exact step ends short order moved took (next s.next ⟨found, rfl⟩) run
  · cases took

theorem name {what : Wanted} {f : String → Parser α}
    (next : ∀ t : Token, t.Is .name t.text → Lays n (us ++ [t]) (f t.text) post) :
    Lays n us (name what >>= f) post := expectKind (by decide) next

theorem operandAfter {symbol : String} (lays : Lays n us p post) :
    Lays n us (operandAfter symbol p) post := by
  intro s₀ s a s' ends short order moved run
  apply lays s₀ s a s' ends short order moved
  obtain ⟨t, s₁, look, run⟩ := bind_ok.1 run
  cases look
  change EStateM.adaptExcept _ p s = _ at run
  unfold EStateM.adaptExcept at run
  cases hp : p s with
  | ok b t =>
    rw [hp] at run
    exact run
  | error e t =>
    rw [hp] at run
    cases run

end Lays

/-! Rows of items. -/

section Listed

variable {n : Nat} {item : List α → Parser α} {fragments : α → List Fragment}
  (each : ∀ seen, Composes n (item seen) fragments)

include each

theorem listed_lays (m : Nat) (seen : List α) :
    Lays n [] (listed item m seen) fun xs ts =>
      xs ≠ [] ∧ Laid (Fragment.commas (xs.map fragments)) ts := by
  have single (x : α) (ts : List Token) (laid : Laid (fragments x) ts) :
      [x] ≠ [] ∧ Laid (Fragment.commas ([x].map fragments)) ts := ⟨by simp, laid⟩
  induction m generalizing seen with
  | zero => exact (each seen).bind fun x ts _ laid => .pure fun _ => single x ts laid
  | succ m ih =>
    refine (each seen).bind fun x ts _ laid => .eat (by decide) (fun t comma => ?_) ?_
    · refine (ih (x :: seen)).first fun xs ts' _ ⟨items, laid'⟩ => .pure fun _ => ⟨by simp, ?_⟩
      cases xs with
      | nil => exact absurd rfl items
      | cons y ys => simpa [Fragment.commas] using (laid.append (.token comma)).append laid'
    · exact .pure fun _ => single x ts laid

theorem listedUntil_lays (close : String) (bound : Nat) :
    Composes n (listedUntil close bound item) fun xs => Fragment.commas (xs.map fragments) := by
  refine .sees fun b => .ite (fun _ => ?_) fun _ => ?_
  · exact .pure fun _ => .nil
  · exact (listed_lays each bound []).consequence fun xs ts _ both => both.2

end Listed

end Parser

end Script
