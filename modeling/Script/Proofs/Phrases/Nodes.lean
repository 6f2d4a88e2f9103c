import Script.Proofs.Phrases.Fragments
import Script.Proofs.Places.Spans

/-! The phrases of a tree. All places in it are places of phrases. -/

namespace Script

/-- The phrases of a block: its statements and all that is below them. -/
inductive Phrase.In (b : Block) : Phrase → Prop
  | top {x : Stmt} (listed : x ∈ b) : In b (.statement x)
  | part {p q : Phrase} (within : In b p) (below : q ∈ p.parts) : In b q

/-- The place is that of a phrase of the block. -/
def Span.OfPhrase (s : Span) (b : Block) : Prop :=
  ∃ p : Phrase, p.In b ∧ p.span = s

theorem mem_commas {rows : List (List Fragment)} {fs : List Fragment} {f : Fragment}
    (listed : fs ∈ rows) (member : f ∈ fs) : f ∈ Fragment.commas rows := by
  fun_induction Fragment.commas rows with
  | case1 => cases listed
  | case2 gs =>
    rw [List.mem_singleton.1 listed] at member
    exact member
  | case3 gs rest more ih =>
    rcases List.mem_cons.1 listed with rfl | later
    · exact List.mem_append_left _ member
    · exact List.mem_append_right _ (List.mem_cons_of_mem _ (ih later))

theorem mem_fragmentsOfAll {es : List Expr} {e : Expr} (close : String) (listed : e ∈ es) :
    Fragment.expression e ∈ fragmentsOfAll close es :=
  List.mem_append_left _
    (mem_commas (List.mem_map_of_mem listed) (List.mem_singleton_self _))

section Nodes

variable {b : Block}

theorem Phrase.In.child {p q : Phrase} (inside : p.In b) (listed : .phrase q ∈ p.fragments) :
    q.In b :=
  inside.part (List.mem_filterMap.2 ⟨_, listed, rfl⟩)

mutual

theorem Expr.spans_of_phrases (e : Expr) (inside : (Phrase.expression e).In b) :
    ∀ s ∈ e.spans, s.OfPhrase b := by
  have own : e.span.OfPhrase b := ⟨_, inside, rfl⟩
  cases e with
  | literal v s | name x s => exact List.forall_mem_singleton.2 own
  | binary op l r s | logic op l r s | index l r s =>
    have left := l.spans_of_phrases (inside.child (by simp [Phrase.fragments, Expr.fragments]))
    have right := r.spans_of_phrases (inside.child (by simp [Phrase.fragments, Expr.fragments]))
    exact List.forall_mem_cons.2 ⟨own, List.forall_mem_append.2 ⟨left, right⟩⟩
  | negate e s | property e x s | group e s =>
    have inner := e.spans_of_phrases (inside.child (by simp [Phrase.fragments, Expr.fragments]))
    exact List.forall_mem_cons.2 ⟨own, inner⟩
  | call x args s | create x args s | list args s =>
    refine List.forall_mem_cons.2 ⟨own, spansOfAll_of_phrases args fun e listed => ?_⟩
    exact inside.child (by simp [Phrase.fragments, Expr.fragments, mem_fragmentsOfAll _ listed])
  | method e x args s =>
    have object := e.spans_of_phrases (inside.child (by simp [Phrase.fragments, Expr.fragments]))
    refine List.forall_mem_cons.2 ⟨own, List.forall_mem_append.2 ⟨object, ?_⟩⟩
    refine spansOfAll_of_phrases args fun e listed => inside.child ?_
    simp [Phrase.fragments, Expr.fragments, mem_fragmentsOfAll _ listed]
  | object entries s =>
    refine List.forall_mem_cons.2 ⟨own, spansOfEntries_of_phrases entries fun x listed => ?_⟩
    have member : Fragment.expression x.2 ∈ fragmentsOfEntry x := by simp [fragmentsOfEntry]
    have among := mem_commas (List.mem_map_of_mem listed) member
    exact inside.child (by simp [Phrase.fragments, Expr.fragments, among])

theorem spansOfAll_of_phrases (es : List Expr)
    (inside : ∀ e ∈ es, (Phrase.expression e).In b) : ∀ s ∈ spansOfAll es, s.OfPhrase b := by
  cases es with
  | nil => exact List.forall_mem_nil _
  | cons e es =>
    obtain ⟨first, others⟩ := List.forall_mem_cons.1 inside
    exact List.forall_mem_append.2 ⟨e.spans_of_phrases first, spansOfAll_of_phrases es others⟩

theorem spansOfEntries_of_phrases (entries : List (String × Expr))
    (inside : ∀ x ∈ entries, (Phrase.expression x.2).In b) :
    ∀ s ∈ spansOfEntries entries, s.OfPhrase b := by
  match entries with
  | [] => exact List.forall_mem_nil _
  | (key, e) :: rest =>
    obtain ⟨first, others⟩ := List.forall_mem_cons.1 inside
    exact List.forall_mem_append.2
      ⟨e.spans_of_phrases first, spansOfEntries_of_phrases rest others⟩

end

theorem Target.spans_of_phrases (target : Target) {p : Phrase} (inside : p.In b)
    (all : ∀ f ∈ target.fragments, f ∈ p.fragments) : ∀ s ∈ target.spans, s.OfPhrase b := by
  cases target with
  | name x => exact List.forall_mem_nil _
  | index e k =>
    have object := e.spans_of_phrases (inside.child (all _ (by simp [Target.fragments])))
    have key := k.spans_of_phrases (inside.child (all _ (by simp [Target.fragments])))
    exact List.forall_mem_append.2 ⟨object, key⟩
  | property e x => exact e.spans_of_phrases (inside.child (all _ (by simp [Target.fragments])))

theorem Header.spans_of_phrases (header : Header) {p : Phrase} (inside : p.In b)
    (all : ∀ f ∈ header.fragments, f ∈ p.fragments) : ∀ s ∈ header.spans, s.OfPhrase b := by
  cases header with
  | range x start stop =>
    have first := start.spans_of_phrases (inside.child (all _ (by simp [Header.fragments])))
    have last := stop.spans_of_phrases (inside.child (all _ (by simp [Header.fragments])))
    exact List.forall_mem_append.2 ⟨first, last⟩
  | each x e | pairs k v e =>
    exact e.spans_of_phrases (inside.child (all _ (by simp [Header.fragments])))

mutual

theorem Stmt.spans_of_phrases (x : Stmt) (inside : (Phrase.statement x).In b) :
    ∀ s ∈ x.spans, s.OfPhrase b := by
  have own : x.span.OfPhrase b := ⟨_, inside, rfl⟩
  cases x with
  | leave s | share names s | imports file items s | load file x s =>
    exact List.forall_mem_singleton.2 own
  | expression e s | print e s =>
    have inner := e.spans_of_phrases
      (inside.child (by simp [Phrase.fragments, Stmt.fragments, fragmentsOfCondition]))
    exact List.forall_mem_cons.2 ⟨own, inner⟩
  | give e s =>
    cases e with
    | none => exact List.forall_mem_singleton.2 own
    | some e =>
      have inner := e.spans_of_phrases (inside.child (by simp [Phrase.fragments, Stmt.fragments]))
      exact List.forall_mem_cons.2 ⟨own, inner⟩
  | assign target e s =>
    have value := e.spans_of_phrases (inside.child (by simp [Phrase.fragments, Stmt.fragments]))
    refine List.forall_mem_cons.2 ⟨own, List.forall_mem_append.2 ⟨?_, value⟩⟩
    refine target.spans_of_phrases inside fun f member => ?_
    simp [Phrase.fragments, Stmt.fragments, member]
  | branch bs otherwise s =>
    refine List.forall_mem_cons.2 ⟨own, List.forall_mem_append.2 ⟨?_, ?_⟩⟩
    · refine branchSpans_of_phrases "if" bs inside fun f member => ?_
      simp [Phrase.fragments, Stmt.fragments, member]
    · refine otherwiseSpans_of_phrases otherwise inside fun f member => ?_
      simp [Phrase.fragments, Stmt.fragments, member]
  | loop e body s =>
    have condition := e.spans_of_phrases
      (inside.child (by simp [Phrase.fragments, Stmt.fragments, fragmentsOfCondition]))
    refine List.forall_mem_cons.2 ⟨own, List.forall_mem_append.2 ⟨condition, ?_⟩⟩
    refine blockSpans_of_phrases body inside fun f member => ?_
    simp [Phrase.fragments, Stmt.fragments, member]
  | iterate header body s =>
    refine List.forall_mem_cons.2 ⟨own, List.forall_mem_append.2 ⟨?_, ?_⟩⟩
    · refine header.spans_of_phrases inside fun f member => ?_
      simp [Phrase.fragments, Stmt.fragments, member]
    · refine blockSpans_of_phrases body inside fun f member => ?_
      simp [Phrase.fragments, Stmt.fragments, member]
  | function d s =>
    have declared : (Phrase.function d).In b :=
      inside.child (by simp [Phrase.fragments, Stmt.fragments])
    refine List.forall_mem_cons.2 ⟨own, d.spans_of_phrases declared rfl fun f member => ?_⟩
    simp [Phrase.fragments, member]
  | init d s =>
    have declared : (Phrase.constructor d).In b :=
      inside.child (by simp [Phrase.fragments, Stmt.fragments])
    refine List.forall_mem_cons.2 ⟨own, d.spans_of_phrases declared rfl fun f member => ?_⟩
    simp [Phrase.fragments, member]
  | cls x parent ms s =>
    refine List.forall_mem_cons.2 ⟨own, memberSpans_of_phrases ms fun m listed => ?_⟩
    exact inside.child (by simp [Phrase.fragments, Stmt.fragments, listed])
  | super args s =>
    refine List.forall_mem_cons.2 ⟨own, spansOfAll_of_phrases args fun e listed => ?_⟩
    exact inside.child (by simp [Phrase.fragments, Stmt.fragments, mem_fragmentsOfAll _ listed])

/-- Of a phrase that the declaration is. -/
theorem Decl.spans_of_phrases (d : Decl) {p : Phrase} (inside : p.In b) (same : p.span = d.span)
    (all : ∀ f ∈ d.fragments, f ∈ p.fragments) : ∀ s ∈ d.spans, s.OfPhrase b := by
  obtain ⟨name, params, body, s⟩ := d
  refine List.forall_mem_cons.2 ⟨⟨p, inside, same⟩, blockSpans_of_phrases body inside ?_⟩
  exact fun f member => all f (List.mem_append_right _ member)

theorem Member.spans_of_phrases (m : Member) (inside : (Phrase.member m).In b) :
    ∀ s ∈ m.spans, s.OfPhrase b := by
  cases m with
  | property x e s =>
    have value := e.spans_of_phrases (inside.child (by simp [Phrase.fragments, Member.fragments]))
    exact List.forall_mem_cons.2 ⟨⟨_, inside, rfl⟩, value⟩
  | method d =>
    have declared : (Phrase.function d).In b :=
      inside.child (by simp [Phrase.fragments, Member.fragments])
    exact d.spans_of_phrases declared rfl fun f member => by simp [Phrase.fragments, member]
  | constructor d =>
    have declared : (Phrase.constructor d).In b :=
      inside.child (by simp [Phrase.fragments, Member.fragments])
    exact d.spans_of_phrases declared rfl fun f member => by simp [Phrase.fragments, member]

/-- Of a block among the fragments of a phrase. -/
theorem blockSpans_of_phrases (body : Block) {p : Phrase} (inside : p.In b)
    (all : ∀ f ∈ fragmentsOfBlock body, f ∈ p.fragments) : ∀ s ∈ blockSpans body, s.OfPhrase b := by
  cases body with
  | nil => exact List.forall_mem_nil _
  | cons x body =>
    obtain ⟨first, others⟩ := List.forall_mem_cons.1 all
    exact List.forall_mem_append.2
      ⟨x.spans_of_phrases (inside.child first), blockSpans_of_phrases body inside others⟩

theorem branchSpans_of_phrases (word : String) (bs : List (Expr × Block)) {p : Phrase}
    (inside : p.In b) (all : ∀ f ∈ fragmentsOfBranches word bs, f ∈ p.fragments) :
    ∀ s ∈ branchSpans bs, s.OfPhrase b := by
  match bs with
  | [] => exact List.forall_mem_nil _
  | (e, body) :: rest =>
    have condition := e.spans_of_phrases (inside.child (all _ (by simp [fragmentsOfBranches,
      fragmentsOfCondition])))
    refine List.forall_mem_append.2 ⟨condition, List.forall_mem_append.2 ⟨?_, ?_⟩⟩
    · refine blockSpans_of_phrases body inside fun f member => all f ?_
      simp [fragmentsOfBranches, member]
    · refine branchSpans_of_phrases "elif" rest inside fun f member => all f ?_
      simp [fragmentsOfBranches, member]

theorem otherwiseSpans_of_phrases (otherwise : Option Block) {p : Phrase} (inside : p.In b)
    (all : ∀ f ∈ fragmentsOfOtherwise otherwise, f ∈ p.fragments) :
    ∀ s ∈ otherwiseSpans otherwise, s.OfPhrase b := by
  match otherwise with
  | none => exact List.forall_mem_nil _
  | some body =>
    refine blockSpans_of_phrases body inside fun f member => all f ?_
    exact List.mem_cons_of_mem _ member

theorem memberSpans_of_phrases (ms : List Member) (inside : ∀ m ∈ ms, (Phrase.member m).In b) :
    ∀ s ∈ memberSpans ms, s.OfPhrase b := by
  cases ms with
  | nil => exact List.forall_mem_nil _
  | cons m ms =>
    obtain ⟨first, others⟩ := List.forall_mem_cons.1 inside
    exact List.forall_mem_append.2 ⟨m.spans_of_phrases first, memberSpans_of_phrases ms others⟩

end

/-- No place in a tree is missed by its phrases. -/
theorem places_of_phrases (b : Block) : ∀ s ∈ blockSpans b, s.OfPhrase b := by
  rw [forall_blockSpans]
  exact fun x listed => x.spans_of_phrases (.top listed)

end Nodes

end Script
