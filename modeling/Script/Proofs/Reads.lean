import Script.Proofs.Spelling

/-! A logic of what parsers take. An assertion is the words that have been read so far: a parser that
succeeds turns a spelling of the words before it into one of the words after it. -/

namespace Script.Parser

variable {α β : Type}

theorem bind_ok {x : Parser α} {f : α → Parser β} {s s' : Stream} {b : β} :
    (x >>= f) s = .ok b s' ↔ ∃ a t, x s = .ok a t ∧ f a t = .ok b s' := by
  change EStateM.bind x f s = _ ↔ _
  unfold EStateM.bind
  cases x s with
  | ok a t => simp [and_assoc]
  | error e t => simp

theorem bind_of_ok {x : Parser α} {f : α → Parser β} {s t : Stream} {a : α}
    (h : x s = .ok a t) : (x >>= f) s = f a t := by
  change EStateM.bind x f s = _
  simp only [EStateM.bind, h]

theorem bind_of_error {p : Parser α} {f : α → Parser β} {s t : Stream}
    {e : Error} (h : p s = .error e t) : (p >>= f) s = .error e t := by
  change EStateM.bind p f s = _
  simp only [EStateM.bind, h]

/-- What `p` takes after a spelling of `before` completes it to one of the words `after` its answer,
which is `good`. The stream ends properly and has at most `n` tokens left when `p` starts. -/
def Reads (n : Nat) (before : List Word) (p : Parser α) (after : α → List Word)
    (good : α → Prop) : Prop :=
  ∀ s a s', s.stop.kind = .eof → s.rest.length ≤ n → p s = .ok a s' →
    good a ∧ s'.stop = s.stop ∧
      ∃ ts, s.rest = ts ++ s'.rest ∧ ∀ us, Spells before us → Spells (after a) (us ++ ts)

namespace Reads

variable {n : Nat} {before : List Word} {p : Parser α} {after : α → List Word} {good : α → Prop}

theorem bind {mid : α → List Word} {f : α → Parser β} {after : β → List Word}
    {good' : β → Prop} (first : Reads n before p mid good)
    (next : ∀ a, good a → Reads n (mid a) (f a) after good') :
    Reads n before (p >>= f) after good' := by
  intro s b s' ends short run
  obtain ⟨a, t, hp, hf⟩ := bind_ok.1 run
  obtain ⟨ga, stop, ts, taken, spelt⟩ := first s a t ends short hp
  have short' : t.rest.length ≤ n := by
    have := congrArg List.length taken
    simp only [List.length_append] at this
    omega
  obtain ⟨gb, stop', ts', taken', spelt'⟩ := next a ga t b s' (stop ▸ ends) short' hf
  refine ⟨gb, stop'.trans stop, ts ++ ts', by simp [taken, taken'], ?_⟩
  intro us hus
  simpa using spelt' (us ++ ts) (spelt us hus)

theorem pure {a : α} (ga : good a) (same : before = after a) :
    Reads n before (pure a) after good := by
  rintro s _ _ _ _ ⟨⟩
  exact ⟨ga, rfl, [], rfl, fun us hus => by simpa [same] using hus⟩

theorem fail (f : ParseFault) (span : Span) : Reads n before (fail f span) after good := by
  intro s a s' _ _ run
  cases run

/-- What was read before stays read. -/
theorem after_words (h : Reads n [] p after good) :
    Reads n before p (fun a => before ++ after a) good := by
  intro s a s' ends short run
  obtain ⟨ga, stop, ts, taken, spelt⟩ := h s a s' ends short run
  refine ⟨ga, stop, ts, taken, fun us hus => hus.append ?_⟩
  simpa using spelt [] rfl

theorem consequence {after' : α → List Word} {good' : α → Prop} (h : Reads n before p after good)
    (implies : ∀ a, good a → good' a ∧ after a = after' a) : Reads n before p after' good' := by
  intro s a s' ends short run
  obtain ⟨ga, stop, ts, taken, spelt⟩ := h s a s' ends short run
  obtain ⟨ga', same⟩ := implies a ga
  exact ⟨ga', stop, ts, taken, same ▸ spelt⟩

/-- What was read may be seen as a spelling of other words. -/
theorem respell {before' : List Word} (h : Reads n before' p after good)
    (same : ∀ us, Spells before us → Spells before' us) : Reads n before p after good := by
  intro s a s' ends short run
  obtain ⟨ga, stop, ts, taken, spelt⟩ := h s a s' ends short run
  exact ⟨ga, stop, ts, taken, fun us hus => spelt us (same us hus)⟩

theorem ite {c : Prop} [Decidable c] {q : Parser α}
    (yes : c → Reads n before p after good) (no : ¬ c → Reads n before q after good) :
    Reads n before (if c then p else q) after good := by
  split
  · rename_i h
    exact yes h
  · rename_i h
    exact no h

/-- Looking at the stream takes nothing. -/
theorem look (view : Stream → α) : Reads n before (fun s => .ok (view s) s) (fun _ => before)
    fun _ => True := by
  rintro s _ _ _ _ ⟨⟩
  exact ⟨trivial, rfl, [], rfl, fun us hus => by simpa using hus⟩

end Reads

section Steps

variable {n : Nat} {before : List Word}

theorem peek_reads : Reads n before peek (fun _ => before) fun _ => True := Reads.look _

theorem atEnd_reads : Reads n before atEnd (fun _ => before) fun _ => True := Reads.look _

theorem last_reads : Reads n before last (fun _ => before) fun _ => True := Reads.look _

theorem since_reads (start : Span) : Reads n before (since start) (fun _ => before) fun _ => True :=
  Reads.look _

theorem sees_reads (kind : Token.Kind) (text : String) :
    Reads n before (sees kind text) (fun _ => before) fun _ => True := Reads.look _

theorem seesKeyword_reads (words : List String) :
    Reads n before (seesKeyword words) (fun _ => before) fun _ => True := Reads.look _

/-! Steps that take a token. -/

theorem next_mem {s : Stream} {kind : Token.Kind} (ends : s.stop.kind = .eof)
    (found : s.next.kind = kind) (proper : kind ≠ .eof) :
    ∃ ts, s.rest = s.next :: ts ∧ s.advance = ⟨s.next, ts, s.stop⟩ := by
  obtain ⟨last, rest, stop⟩ := s
  cases rest with
  | nil => exact absurd (found.symm.trans ends) proper
  | cons t ts => exact ⟨ts, rfl, rfl⟩

theorem eat_yes {s : Stream} {kind : Token.Kind} {text : String} (h : s.next.Is kind text) :
    eat kind text s = .ok true s.advance := by
  have found : sees kind text s = .ok true s := congrArg (EStateM.Result.ok · s) (decide_eq_true h)
  unfold eat
  rw [bind_of_ok found]
  rfl

theorem eat_no {s : Stream} {kind : Token.Kind} {text : String} (h : ¬ s.next.Is kind text) :
    eat kind text s = .ok false s := by
  have missed : sees kind text s = .ok false s :=
    congrArg (EStateM.Result.ok · s) (decide_eq_false h)
  unfold eat
  rw [bind_of_ok missed]
  rfl

variable {p : Parser α} {after : α → List Word} {good : α → Prop}

/-- One token taken by hand, then `p`. -/
theorem Reads.take {ws : List Word} (h : Reads n (before ++ ws) p after good) {s s' : Stream}
    {a : α} {l t : Token} {ts : List Token} (ends : s.stop.kind = .eof)
    (rest : s.rest = t :: ts) (short : ts.length ≤ n) (spelt : Spells ws [t])
    (run : p ⟨l, ts, s.stop⟩ = .ok a s') :
    good a ∧ s'.stop = s.stop ∧
      ∃ us, s.rest = us ++ s'.rest ∧ ∀ vs, Spells before vs → Spells (after a) (vs ++ us) := by
  obtain ⟨ga, stop, us, taken, done⟩ := h ⟨l, ts, s.stop⟩ a s' ends short run
  have taken : ts = us ++ s'.rest := taken
  refine ⟨ga, stop, t :: us, by simp [rest, taken], fun vs hvs => ?_⟩
  simpa using done (vs ++ [t]) (hvs.append spelt)

theorem Reads.eat {kind : Token.Kind} {text : String} {f : Bool → Parser α}
    (proper : kind ≠ .eof) (yes : Reads n (before ++ [.token kind text]) (f true) after good)
    (no : Reads n before (f false) after good) :
    Reads n before (eat kind text >>= f) after good := by
  intro s a s' ends short run
  by_cases h : s.next.Is kind text
  · rw [bind_of_ok (eat_yes h)] at run
    obtain ⟨ts, rest, taken⟩ := next_mem ends h.1 proper
    rw [taken] at run
    have short' : ts.length ≤ n := by
      rw [rest, List.length_cons] at short
      omega
    exact yes.take ends rest short' (spells_singleton.2 h.spelt) run
  · rw [bind_of_ok (eat_no h)] at run
    exact no s a s' ends short run

theorem refuse_reads (what : Wanted) : Reads n before (refuse what) after good := by
  intro s a s' _ _ run
  cases run

theorem expect_reads {kind : Token.Kind} (text : String) (what : Wanted) (proper : kind ≠ .eof) :
    Reads n before (expect kind text what) (fun _ => before ++ [.token kind text])
      fun _ => True :=
  Reads.eat proper (Reads.pure trivial rfl) (refuse_reads what)

theorem delimiter_reads (text : String) (what : Wanted) :
    Reads n before (delimiter text what) (fun _ => before ++ [.delimiter text]) fun _ => True :=
  expect_reads text what (by decide)

theorem keyword_reads (text : String) (what : Wanted) :
    Reads n before (keyword text what) (fun _ => before ++ [.keyword text]) fun _ => True :=
  expect_reads text what (by decide)

theorem expectKind_reads {kind : Token.Kind} (what : Wanted) (proper : kind ≠ .eof) :
    Reads n before (expectKind kind what) (fun x => before ++ [.token kind x]) fun _ => True := by
  intro s a s' ends short run
  obtain ⟨t, s₁, look, run⟩ := bind_ok.1 run
  cases look
  split at run
  · rename_i found
    obtain ⟨ts, rest, taken⟩ := next_mem ends found proper
    obtain ⟨u, s₂, took, run⟩ := bind_ok.1 run
    cases took
    cases run
    refine ⟨trivial, by simp [taken], [s.next], by simp [rest, taken], fun us hus => ?_⟩
    refine hus.append (spells_singleton.2 ⟨s.next, rfl, found, ?_⟩)
    simp [taken]
  · cases run

theorem name_reads (what : Wanted) :
    Reads n before (name what) (fun x => before ++ [.name x]) fun _ => True :=
  expectKind_reads what (by decide)

theorem operandAfter_reads {symbol : String} (h : Reads n before p after good) :
    Reads n before (operandAfter symbol p) after good := by
  intro s a s' ends short run
  apply h s a s' ends short
  obtain ⟨t, s₁, look, run⟩ := bind_ok.1 run
  cases look
  change EStateM.adaptExcept _ p s = _ at run
  unfold EStateM.adaptExcept at run
  cases hp : p s with
  | ok b t =>
    rw [hp] at run
    exact run
  | error e t =>
    rw [hp] at run
    cases run

/-- Each item is good after those that stand before it, the latest first. -/
def Each (good : List α → α → Prop) : List α → List α → Prop
  | _, [] => True
  | seen, x :: xs => good seen x ∧ Each good (x :: seen) xs

theorem each_forall {good : α → Prop} {seen xs : List α} (h : Each (fun _ => good) seen xs) :
    ∀ x ∈ xs, good x := by
  induction xs generalizing seen with
  | nil => simp
  | cons x xs ih =>
    rw [List.forall_mem_cons]
    exact ⟨h.1, ih h.2⟩

theorem listed_reads {item : List α → Parser α} {words : α → List Word}
    {good : List α → α → Prop} (each : ∀ seen, Reads n [] (item seen) words (good seen))
    (m : Nat) (seen : List α) :
    Reads n [] (listed item m seen) (fun xs => commas (xs.map words))
      fun xs => xs ≠ [] ∧ Each good seen xs := by
  induction m generalizing seen with
  | zero =>
    apply (each seen).bind
    intro x gx
    exact Reads.pure ⟨by simp, gx, trivial⟩ (by simp)
  | succ m ih =>
    refine (each seen).bind fun x gx => Reads.eat (by decide) ?_ ?_
    · refine (ih (x :: seen)).after_words.bind fun xs gxs => Reads.pure ⟨by simp, gx, gxs.2⟩ ?_
      cases xs with
      | nil => exact absurd rfl gxs.1
      | cons y ys => simp
    · exact Reads.pure ⟨by simp, gx, trivial⟩ (by simp)

theorem listedUntil_reads {close : String} {item : List α → Parser α} {words : α → List Word}
    {good : List α → α → Prop} (each : ∀ seen, Reads n [] (item seen) words (good seen))
    (bound : Nat) :
    Reads n [] (listedUntil close bound item) (fun xs => commas (xs.map words)) (Each good []) := by
  refine (sees_reads _ _).bind fun b _ => Reads.ite (fun _ => ?_) fun _ => ?_
  · exact Reads.pure trivial rfl
  · exact (listed_reads each bound []).consequence fun xs gxs => ⟨gxs.2, rfl⟩

end Steps

end Script.Parser
