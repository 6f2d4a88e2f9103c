import Script.Proofs.Phrases.Nodes
import Script.Proofs.Phrases.Statements
import Script.Proofs.Tiling

/-! The places in the tree of a source text. -/

namespace Script

/-- The place of a phrase delimits its own tokens among those of a row, which spell it. The places
of its parts lie within it, one after another. -/
structure Phrase.Exact (p : Phrase) (row : List Token) : Prop where
  own : ∃ before us after, row = before ++ us ++ after ∧ Spells p.words us ∧ p.span.Delimits us
  inside : ∀ q ∈ p.parts, p.span.start ≤ q.span.start ∧ q.span.stop ≤ p.span.stop
  ordered : p.parts.Pairwise fun q r => q.span.stop ≤ r.span.start

variable {b : Block} {p : Phrase} {ts tokens : List Token}

theorem Phrase.Over.exact (lies : p.Over ts) {before after : List Token}
    (order : InOrder (before ++ ts ++ after)) : p.Exact (before ++ ts ++ after) where
  own := ⟨before, ts, after, rfl, p.words_fragments ▸ lies.2.spells, lies.1⟩
  inside := fun _ below => lies.inside order.left.right below
  ordered := lies.2.siblings order.left.right

theorem phrases_of_block (b : Block) :
    (fragmentsOfBlock b).filterMap Fragment.phrase? = b.map .statement := by
  induction b with
  | nil => rfl
  | cons x b ih => exact congrArg (Phrase.statement x :: ·) ih

/-- What is below a phrase that is laid over tokens is laid over some of them. -/
theorem Laid.within (laid : Laid (fragmentsOfBlock b) ts) (inside : p.In b) :
    ∃ before us after, ts = before ++ us ++ after ∧ p.Over us := by
  induction inside with
  | top listed =>
    refine laid.stretch _ ?_
    rw [phrases_of_block]
    exact List.mem_map_of_mem listed
  | part _ below ih =>
    obtain ⟨before, us, after, rfl, lies⟩ := ih
    obtain ⟨before', us', after', rfl, lies'⟩ := lies.2.stretch _ below
    exact ⟨before ++ before', us', after' ++ after, by simp, lies'⟩

theorem program_laid (accepted : Parser.program tokens = .ok b)
    (order : InOrder (Token.row tokens)) : Laid (fragmentsOfBlock b) (Token.row tokens) := by
  have ends := Stream.ofTokens_ends tokens
  simp only [Parser.program] at accepted
  split at accepted
  · rename_i b s' run
    cases accepted
    obtain ⟨ts, moved, laid⟩ :=
      Parser.statements_lays _ _ _ _ _ _ ends (Nat.le_refl _) order (.refl _) run
    obtain ⟨-, done, -⟩ := Parser.statements_took _ ends (Nat.le_refl _) (Nat.le_refl _) run
    have row : Token.row tokens = ts := by
      have rest := moved.rest
      rwa [done, List.append_nil] at rest
    rw [row]
    exact laid
  · cases accepted

theorem Token.row_inOrder {source : String} (scanned : Token.scan source = .ok tokens) :
    InOrder (Token.row tokens) := by
  have tiling := scan_tiles scanned
  have whole : InOrder tokens := ⟨fun t member => (tiling.placed t member).ordered, tiling.ordered⟩
  exact whole.sublist ((List.takeWhile_sublist _).trans List.filter_sublist)

/-- Places delimit the tokens of their phrases. In the tree of a source, the place of each
statement, expression, declaration and member starts at the first of the tokens that it is written
with and ends with the last of them, the places of its parts lie within it, and phrases side by side
are in the order of the source and do not overlap. -/
theorem places_exact (source : String) (b : Block) (parsed : parse source = .ok b) :
    ∃ tokens, Token.scan source = .ok tokens ∧ (∀ s ∈ blockSpans b, s.OfPhrase b) ∧
      (b.Pairwise fun x y => x.span.stop ≤ y.span.start) ∧
      ∀ p : Phrase, p.In b → p.Exact (Token.row tokens) := by
  unfold parse at parsed
  cases scanned : Token.scan source with
  | error e =>
    rw [scanned] at parsed
    cases parsed
  | ok tokens =>
    rw [scanned] at parsed
    have order := Token.row_inOrder scanned
    have laid := program_laid parsed order
    refine ⟨tokens, rfl, places_of_phrases b, ?_, fun p inside => ?_⟩
    · have siblings := laid.siblings order
      rw [phrases_of_block, List.pairwise_map] at siblings
      exact siblings
    · obtain ⟨before, us, after, row, lies⟩ := laid.within inside
      rw [row] at order ⊢
      exact lies.exact order

def sumTree : Block :=
  [.print (.binary .add (.name "a" ⟨6, 7, 1, 7⟩) (.name "b" ⟨10, 11, 1, 11⟩) ⟨6, 11, 1, 7⟩)
    ⟨0, 12, 1, 1⟩]

/-- A statement with two names in it, and a comment after it. -/
theorem sumTree_placed : parse "print(a + b) >> sum" = .ok sumTree ∧
    ∃ tokens, Token.scan "print(a + b) >> sum" = .ok tokens ∧
      (∀ s ∈ blockSpans sumTree, s.OfPhrase sumTree) ∧
      (sumTree.Pairwise fun x y => x.span.stop ≤ y.span.start) ∧
      ∀ p : Phrase, p.In sumTree → p.Exact (Token.row tokens) := by
  have parsed : parse "print(a + b) >> sum" = .ok sumTree := by cbv
  exact ⟨parsed, places_exact _ _ parsed⟩

end Script
