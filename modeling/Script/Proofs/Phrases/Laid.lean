import Script.Proofs.Phrases.Fragments

/-! Phrases laid over rows of tokens, so that their places delimit the tokens that they are written
with. -/

namespace Script

/-- The tokens in the order of the text, where none reaches into a later one. -/
structure InOrder (ts : List Token) : Prop where
  proper : ∀ t ∈ ts, t.span.start ≤ t.span.stop
  apart : ts.Pairwise fun t u => t.span.stop ≤ u.span.start

namespace Span

/-- The place starts where the first of the tokens does. -/
def Begins (s : Span) (ts : List Token) : Prop :=
  ∃ t, ts.head? = some t ∧ s.start = t.span.start ∧ s.line = t.span.line ∧ s.column = t.span.column

/-- The place ends where the last of the tokens does. -/
def Ends (s : Span) (ts : List Token) : Prop :=
  ∃ t, ts.getLast? = some t ∧ s.stop = t.span.stop

/-- The place starts at the first of the tokens and ends with the last. -/
def Delimits (s : Span) (ts : List Token) : Prop :=
  s.Begins ts ∧ s.Ends ts

end Span

/-- Fragments laid over tokens: each word is spelt by those that it stands for, and the place of
each phrase delimits those that its own fragments are laid over. -/
inductive Laid : List Fragment → List Token → Prop
  | nil : Laid [] []
  | word {w : Word} {us : List Token} {ps : List Fragment} {vs : List Token} (spelt : w.Spelt us)
    (rest : Laid ps vs) : Laid (.word w :: ps) (us ++ vs)
  | phrase {p : Phrase} {us : List Token} {ps : List Fragment} {vs : List Token}
    (delimits : p.span.Delimits us) (inner : Laid p.fragments us) (rest : Laid ps vs) :
    Laid (.phrase p :: ps) (us ++ vs)

/-- A phrase laid over tokens that its place delimits. -/
def Phrase.Over (p : Phrase) (ts : List Token) : Prop :=
  p.span.Delimits ts ∧ Laid p.fragments ts

variable {us vs ts : List Token} {s : Span} {ps qs : List Fragment} {p : Phrase}

namespace InOrder

theorem sublist (order : InOrder ts) (sub : us.Sublist ts) : InOrder us :=
  ⟨fun t member => order.proper t (sub.subset member), order.apart.sublist sub⟩

theorem left (order : InOrder (us ++ vs)) : InOrder us :=
  order.sublist (List.sublist_append_left us vs)

theorem right (order : InOrder (us ++ vs)) : InOrder vs :=
  order.sublist (List.sublist_append_right us vs)

theorem across (order : InOrder (us ++ vs)) {t u : Token} (first : t ∈ us) (second : u ∈ vs) :
    t.span.stop ≤ u.span.start :=
  (List.pairwise_append.1 order.apart).2.2 t first u second

theorem head_le (order : InOrder ts) {t u : Token} (first : ts.head? = some t) (member : u ∈ ts) :
    t.span.start ≤ u.span.start := by
  cases ts with
  | nil => cases first
  | cons x xs =>
    obtain rfl := Option.some.inj first
    rcases List.mem_cons.1 member with rfl | later
    · exact Nat.le_refl _
    · have proper := order.proper x List.mem_cons_self
      exact Nat.le_trans proper (List.rel_of_pairwise_cons order.apart later)

theorem le_last (order : InOrder ts) {t u : Token} (last : ts.getLast? = some u) (member : t ∈ ts) :
    t.span.stop ≤ u.span.stop := by
  obtain ⟨front, rfl⟩ := List.getLast?_eq_some_iff.1 last
  have here : u ∈ [u] := List.mem_singleton_self u
  rcases List.mem_append.1 member with earlier | same
  · have proper := order.proper u (List.mem_append_right front here)
    exact Nat.le_trans (order.across earlier here) proper
  · obtain rfl := List.mem_singleton.1 same
    exact Nat.le_refl _

end InOrder

namespace Span

theorem Begins.of_head {t : Token} (first : ts.head? = some t) : t.span.Begins ts :=
  ⟨t, first, rfl, rfl, rfl⟩

theorem Begins.append (begins : s.Begins us) (vs : List Token) : s.Begins (us ++ vs) := by
  obtain ⟨t, first, same⟩ := begins
  exact ⟨t, by simp [List.head?_append, first], same⟩

theorem Ends.after (ends : s.Ends vs) (us : List Token) : s.Ends (us ++ vs) := by
  obtain ⟨t, last, same⟩ := ends
  exact ⟨t, by simp [List.getLast?_append, last], same⟩

theorem Begins.through (begins : s.Begins ts) (order : InOrder ts) {t : Span} (ends : t.Ends ts) :
    (s.through t).Delimits ts := by
  obtain ⟨a, first, start, place⟩ := begins
  obtain ⟨b, last, stop⟩ := ends
  have forward : s.start ≤ t.stop := by
    have member := List.mem_of_head? first
    rw [start, stop]
    exact Nat.le_trans (order.proper a member) (order.le_last last member)
  exact ⟨⟨a, first, start, place⟩, b, last, (Nat.max_eq_left forward).trans stop⟩

theorem Delimits.single (t : Token) : t.span.Delimits [t] :=
  ⟨.of_head rfl, t, rfl, rfl⟩

theorem Delimits.start_mem (delimits : s.Delimits ts) : ∃ t ∈ ts, s.start = t.span.start := by
  obtain ⟨⟨t, first, start, -⟩, -⟩ := delimits
  exact ⟨t, List.mem_of_head? first, start⟩

theorem Delimits.stop_mem (delimits : s.Delimits ts) : ∃ t ∈ ts, s.stop = t.span.stop := by
  obtain ⟨-, t, last, stop⟩ := delimits
  exact ⟨t, List.mem_of_getLast? last, stop⟩

end Span

namespace Laid

theorem append (first : Laid ps us) (second : Laid qs vs) : Laid (ps ++ qs) (us ++ vs) := by
  induction first with
  | nil => exact second
  | word spelt rest ih =>
    rw [List.append_assoc]
    exact .word spelt ih
  | phrase delimits inner rest ih ih' =>
    rw [List.append_assoc]
    exact .phrase delimits inner ih'

theorem of_spelt {w : Word} (spelt : w.Spelt ts) : Laid [.word w] ts := by
  simpa using Laid.word spelt .nil

theorem token {t : Token} {kind : Token.Kind} {x : String} (is : t.Is kind x) :
    Laid [.word (.token kind x)] [t] :=
  of_spelt is.spelt

theorem of_over (lies : p.Over ts) : Laid [.phrase p] ts := by
  simpa using Laid.phrase lies.1 lies.2 .nil

/-- What fragments are laid over spells their words. -/
theorem spells (laid : Laid ps ts) : Spells (wordsOfFragments ps) ts := by
  induction laid with
  | nil => rfl
  | word spelt rest ih => exact (spells_singleton.2 spelt).append ih
  | @phrase p us ps vs delimits inner rest ih ih' =>
    rw [Phrase.words_fragments] at ih
    exact ih.append ih'

/-- Each phrase is laid over a stretch of the tokens. -/
theorem stretch (laid : Laid ps ts) :
    ∀ p ∈ ps.filterMap Fragment.phrase?,
      ∃ before us after, ts = before ++ us ++ after ∧ p.Over us := by
  induction laid with
  | nil => exact List.forall_mem_nil _
  | @word w us ps vs spelt rest ih =>
    intro p member
    obtain ⟨before, us', after, rfl, lies⟩ := ih p member
    exact ⟨us ++ before, us', after, by simp, lies⟩
  | @phrase q us ps vs delimits inner rest ih ih' =>
    intro p member
    rcases List.mem_cons.1 member with rfl | later
    · exact ⟨[], us, vs, rfl, delimits, inner⟩
    · obtain ⟨before, us', after, rfl, lies⟩ := ih' p later
      exact ⟨us ++ before, us', after, by simp, lies⟩

theorem start_mem (laid : Laid ps ts) (member : p ∈ ps.filterMap Fragment.phrase?) :
    ∃ t ∈ ts, p.span.start = t.span.start := by
  obtain ⟨before, us, after, rfl, lies⟩ := laid.stretch p member
  obtain ⟨t, among, start⟩ := lies.1.start_mem
  exact ⟨t, by simp [among], start⟩

theorem stop_mem (laid : Laid ps ts) (member : p ∈ ps.filterMap Fragment.phrase?) :
    ∃ t ∈ ts, p.span.stop = t.span.stop := by
  obtain ⟨before, us, after, rfl, lies⟩ := laid.stretch p member
  obtain ⟨t, among, stop⟩ := lies.1.stop_mem
  exact ⟨t, by simp [among], stop⟩

/-- Phrases side by side are in order and do not overlap. -/
theorem siblings (laid : Laid ps ts) (order : InOrder ts) :
    (ps.filterMap Fragment.phrase?).Pairwise fun p q => p.span.stop ≤ q.span.start := by
  induction laid with
  | nil => exact .nil
  | word spelt rest ih => exact ih order.right
  | @phrase p us ps vs delimits inner rest ih ih' =>
    refine List.pairwise_cons.2 ⟨fun q member => ?_, ih' order.right⟩
    obtain ⟨t, first, stop⟩ := delimits.stop_mem
    obtain ⟨u, second, start⟩ := rest.start_mem member
    rw [stop, start]
    exact order.across first second

end Laid

theorem Phrase.Over.of_laid (laid : Laid [.phrase p] ts) : p.Over ts := by
  cases laid with
  | phrase delimits inner rest =>
    cases rest
    rw [List.append_nil]
    exact ⟨delimits, inner⟩

/-- The parts of a phrase lie within it. -/
theorem Phrase.Over.inside (lies : p.Over ts) (order : InOrder ts) {q : Phrase}
    (part : q ∈ p.parts) : p.span.start ≤ q.span.start ∧ q.span.stop ≤ p.span.stop := by
  obtain ⟨⟨⟨a, first, start, -⟩, b, last, stop⟩, laid⟩ := lies
  obtain ⟨t, member, start'⟩ := laid.start_mem part
  obtain ⟨u, member', stop'⟩ := laid.stop_mem part
  rw [start, stop, start', stop']
  exact ⟨order.head_le first member, order.le_last last member'⟩

end Script
