import Script.Proofs.Phrases.Nodes
import Script.Proofs.StatementSoundness

/-! What is below a well-formed tree is well formed. -/

namespace Script

@[simp] def Phrase.WellFormed : Phrase → Prop
  | expression e => e.WellFormed
  | statement x => x.WellFormed
  | function d | constructor d => d.WellFormed
  | member m => m.WellFormed

/-- Of a fragment only its phrase can be ill formed. -/
def Fragment.WellFormed : Fragment → Prop
  | word _ => True
  | phrase p => p.WellFormed

def FragmentsWellFormed (fs : List Fragment) : Prop :=
  ∀ f ∈ fs, f.WellFormed

@[simp] theorem fragmentsWellFormed_nil : FragmentsWellFormed [] :=
  List.forall_mem_nil _

@[simp] theorem fragmentsWellFormed_word (w : Word) (fs : List Fragment) :
    FragmentsWellFormed (.word w :: fs) ↔ FragmentsWellFormed fs :=
  List.forall_mem_cons.trans (and_iff_right trivial)

@[simp] theorem fragmentsWellFormed_phrase (p : Phrase) (fs : List Fragment) :
    FragmentsWellFormed (.phrase p :: fs) ↔ p.WellFormed ∧ FragmentsWellFormed fs :=
  List.forall_mem_cons

@[simp] theorem fragmentsWellFormed_append (fs gs : List Fragment) :
    FragmentsWellFormed (fs ++ gs) ↔ FragmentsWellFormed fs ∧ FragmentsWellFormed gs :=
  List.forall_mem_append

@[simp] theorem fragmentsWellFormed_words (ws : List Word) :
    FragmentsWellFormed (ws.map .word) :=
  List.forall_mem_map.2 fun _ _ => trivial

theorem FragmentsWellFormed.commas {rows : List (List Fragment)}
    (all : ∀ fs ∈ rows, FragmentsWellFormed fs) : FragmentsWellFormed (Fragment.commas rows) := by
  fun_induction Fragment.commas rows with
  | case1 => exact fragmentsWellFormed_nil
  | case2 fs => exact all fs (List.mem_singleton_self fs)
  | case3 fs rest more ih =>
    obtain ⟨first, others⟩ := List.forall_mem_cons.1 all
    rw [fragmentsWellFormed_append, fragmentsWellFormed_word]
    exact ⟨first, ih others⟩

theorem fragmentsOfAll_wellFormed {es : List Expr} (closing : String) (formed : AllWellFormed es) :
    FragmentsWellFormed (fragmentsOfAll closing es) := by
  have rows : ∀ fs ∈ es.map fun e => [Fragment.expression e], FragmentsWellFormed fs := by
    intro fs listed
    obtain ⟨e, member, rfl⟩ := List.mem_map.1 listed
    rw [fragmentsWellFormed_phrase]
    exact ⟨(allWellFormed_iff es).1 formed e member, fragmentsWellFormed_nil⟩
  rw [fragmentsOfAll, fragmentsWellFormed_append]
  exact ⟨.commas rows, (fragmentsWellFormed_word _ _).2 fragmentsWellFormed_nil⟩

theorem fragmentsOfEntries_wellFormed {entries : List (String × Expr)}
    (formed : EntriesWellFormed entries) :
    FragmentsWellFormed (Fragment.commas (entries.map fragmentsOfEntry)) := by
  apply FragmentsWellFormed.commas
  intro fs listed
  obtain ⟨x, member, rfl⟩ := List.mem_map.1 listed
  simpa [fragmentsOfEntry] using (entriesWellFormed_iff entries).1 formed x member

theorem Expr.fragments_wellFormed {e : Expr} (formed : e.WellFormed) :
    FragmentsWellFormed e.fragments := by
  cases e with
  | literal v s | name x s => simp [Expr.fragments]
  | binary op l r s | logic op l r s =>
    simpa [Expr.fragments] using ⟨formed.1, formed.2.1⟩
  | index l r s => simpa [Expr.fragments] using ⟨formed.1, formed.2.2⟩
  | negate e s | property e x s => simpa [Expr.fragments] using formed.1
  | group e s => simpa [Expr.fragments] using (show e.WellFormed from formed)
  | call x args s | list args s =>
    simpa [Expr.fragments] using fragmentsOfAll_wellFormed _ formed
  | create x args s => simpa [Expr.fragments] using fragmentsOfAll_wellFormed _ formed
  | method e x args s =>
    simpa [Expr.fragments] using
      ⟨formed.1, fragmentsOfAll_wellFormed _ formed.2.2⟩
  | object entries s => simpa [Expr.fragments] using fragmentsOfEntries_wellFormed formed.2

theorem Target.fragments_wellFormed {target : Target} (formed : target.WellFormed) :
    FragmentsWellFormed target.fragments := by
  cases target with
  | name x => simp [Target.fragments]
  | index e k => simpa [Target.fragments] using ⟨formed.1, formed.2.2.2⟩
  | property e x => simpa [Target.fragments] using formed.1

theorem Header.fragments_wellFormed {header : Header} (formed : header.WellFormed) :
    FragmentsWellFormed header.fragments := by
  cases header with
  | range x a b => simpa [Header.fragments] using (show a.WellFormed ∧ b.WellFormed from formed)
  | each x e | pairs k v e => simpa [Header.fragments] using (show e.WellFormed from formed)

theorem fragmentsOfBlock_wellFormed {b : Block} (formed : BlockWellFormed b) :
    FragmentsWellFormed (fragmentsOfBlock b) := by
  induction b with
  | nil => exact fragmentsWellFormed_nil
  | cons x b ih => exact (fragmentsWellFormed_phrase _ _).2 ⟨formed.1, ih formed.2.2⟩

theorem fragmentsOfBranches_wellFormed {bs : List (Expr × Block)} (word : String)
    (formed : BranchesWellFormed bs) : FragmentsWellFormed (fragmentsOfBranches word bs) := by
  induction bs generalizing word with
  | nil => exact fragmentsWellFormed_nil
  | cons x rest ih =>
    obtain ⟨condition, body, others⟩ := formed
    simp [fragmentsOfBranches, fragmentsOfCondition, condition, fragmentsOfBlock_wellFormed body,
      ih _ others]

theorem fragmentsOfOtherwise_wellFormed {otherwise : Option Block}
    (formed : OtherwiseWellFormed otherwise) :
    FragmentsWellFormed (fragmentsOfOtherwise otherwise) := by
  cases otherwise with
  | none => exact fragmentsWellFormed_nil
  | some b => exact (fragmentsWellFormed_word _ _).2 (fragmentsOfBlock_wellFormed formed)

theorem Stmt.fragments_wellFormed {x : Stmt} (formed : x.WellFormed) :
    FragmentsWellFormed x.fragments := by
  cases x with
  | leave s => simp [Stmt.fragments]
  | load file x s => simp [Stmt.fragments]
  | share names s | imports file items s => exact fragmentsWellFormed_words _
  | expression e s => simpa [Stmt.fragments] using formed.1
  | print e s =>
    simpa [Stmt.fragments, fragmentsOfCondition] using (show e.WellFormed from formed)
  | give e s =>
    cases e with
    | none => simp [Stmt.fragments]
    | some e => simpa [Stmt.fragments] using (show e.WellFormed from formed)
  | assign target e s =>
    simpa [Stmt.fragments] using ⟨target.fragments_wellFormed formed.1, formed.2⟩
  | branch bs otherwise s =>
    simpa [Stmt.fragments] using ⟨fragmentsOfBranches_wellFormed "if" formed.2.1,
      fragmentsOfOtherwise_wellFormed formed.2.2⟩
  | loop e body s =>
    simpa [Stmt.fragments, fragmentsOfCondition] using
      ⟨formed.1, fragmentsOfBlock_wellFormed formed.2⟩
  | iterate header body s =>
    simpa [Stmt.fragments] using
      ⟨header.fragments_wellFormed formed.1, fragmentsOfBlock_wellFormed formed.2⟩
  | function d s => simpa [Stmt.fragments] using (show d.WellFormed from formed)
  | init d s => simpa [Stmt.fragments] using formed.2
  | cls x parent ms s =>
    have members : ∀ m ∈ ms, m.WellFormed := (membersWellFormed_iff ms).1 formed.2
    have all : FragmentsWellFormed (ms.map fun m => .phrase (.member m)) :=
      List.forall_mem_map.2 members
    simp [Stmt.fragments, all]
  | super args s => simpa [Stmt.fragments] using fragmentsOfAll_wellFormed ")" formed

theorem Decl.fragments_wellFormed {d : Decl} (formed : d.WellFormed) :
    FragmentsWellFormed d.fragments := by
  obtain ⟨name, params, body, span⟩ := d
  simpa [Decl.fragments] using fragmentsOfBlock_wellFormed formed.2

theorem Phrase.fragments_wellFormed {p : Phrase} (formed : p.WellFormed) :
    FragmentsWellFormed p.fragments := by
  cases p with
  | expression e => exact e.fragments_wellFormed formed
  | statement x => exact x.fragments_wellFormed formed
  | function d | constructor d =>
    simpa [Phrase.fragments] using Decl.fragments_wellFormed formed
  | member m =>
    cases m with
    | property x e s =>
      simpa [Phrase.fragments, Member.fragments] using (show e.WellFormed from formed)
    | method d => simpa [Phrase.fragments, Member.fragments] using (show d.WellFormed from formed)
    | constructor d => simpa [Phrase.fragments, Member.fragments] using formed.2

/-- All phrases of a well-formed block are well formed. -/
theorem Phrase.In.wellFormed {b : Block} {p : Phrase} (inside : p.In b)
    (formed : BlockWellFormed b) : p.WellFormed := by
  induction inside with
  | top listed => exact fragmentsOfBlock_wellFormed formed _ (List.mem_map_of_mem listed)
  | part _ below ih =>
    obtain ⟨f, member, here⟩ := List.mem_filterMap.1 below
    have good := Phrase.fragments_wellFormed ih f member
    cases f with
    | word w => cases here
    | phrase q =>
      cases here
      exact good

/-- What is accepted is well formed. -/
theorem program_wellFormed {tokens : List Token} {b : Block}
    (accepted : Parser.program tokens = .ok b) : BlockWellFormed b := by
  simp only [Parser.program] at accepted
  split at accepted
  · rename_i b s run
    cases accepted
    exact (Parser.statements_took _ (Stream.ofTokens_ends tokens) (Nat.le_refl _) (Nat.le_refl _)
      run).1.1
  · cases accepted

end Script
