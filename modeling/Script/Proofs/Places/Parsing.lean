import Script.Parser.Statement
import Script.Proofs.Places.Spans
import Script.Proofs.Safe

/-! The places in what is read from a row of tokens. If those of the tokens are good, and good
places span good ones, so are those of all nodes of the tree, or that of the fault. -/

namespace Script

variable {R : Span → Prop}

/-- Stretches of text from one good place to another are good. -/
def Spanning (R : Span → Prop) : Prop :=
  ∀ s t, R s → R t → R (s.through t)

structure Stream.Placed (R : Span → Prop) (s : Stream) : Prop where
  last : R s.last.span
  rest : ∀ t ∈ s.rest, R t.span
  stop : R s.stop.span

theorem Stream.Placed.next {s : Stream} (placed : s.Placed R) : R s.next.span := by
  obtain ⟨last, rest, stop⟩ := s
  cases rest with
  | nil => exact placed.stop
  | cons t ts => exact placed.rest t List.mem_cons_self

theorem Stream.Placed.advance {s : Stream} (placed : s.Placed R) : s.advance.Placed R := by
  obtain ⟨last, rest, stop⟩ := s
  cases rest with
  | nil => exact placed
  | cons t ts =>
    obtain ⟨first, others⟩ := List.forall_mem_cons.1 placed.rest
    exact ⟨first, others, placed.stop⟩

namespace Parser

variable {α : Type} {good : α → Prop}

/-- The parser answers with something good, or fails at a good place. -/
abbrev Places (R : Span → Prop) (good : α → Prop) (p : Parser α) : Prop :=
  Safe (Stream.Placed R) (fun e => R e.span) good p

theorem Places.fail (f : ParseFault) {s : Span} (here : R s) : Places R good (fail f s) :=
  Safe.throw here

theorem peek_places : Places R (fun t => R t.span) peek :=
  Safe.look fun _ placed => placed.next

theorem last_places : Places R (fun t => R t.span) last :=
  Safe.look fun _ placed => placed.last

theorem atEnd_places : Places R (fun _ => True) atEnd :=
  Safe.look fun _ _ => trivial

theorem step_places : Places R (fun _ => True) (modify Stream.advance) :=
  Safe.modify fun _ placed => placed.advance

theorem advance_places : Places R (fun t => R t.span) advance :=
  Safe.bind step_places fun _ _ => last_places

theorem since_places (spanning : Spanning R) {start : Span} (here : R start) :
    Places R R (since start) :=
  Safe.look fun _ placed => spanning _ _ here placed.last

theorem sees_places (kind : Token.Kind) (text : String) :
    Places R (fun _ => True) (sees kind text) :=
  Safe.look fun _ _ => trivial

theorem seesKeyword_places (words : List String) :
    Places R (fun _ => True) (seesKeyword words) :=
  Safe.look fun _ _ => trivial

theorem eat_places (kind : Token.Kind) (text : String) :
    Places R (fun _ => True) (eat kind text) := by
  apply Safe.bind (sees_places kind text)
  intro found _
  cases found with
  | true => exact Safe.bind step_places fun _ _ => Safe.pure trivial
  | false => exact Safe.pure trivial

theorem refuse_places (what : Wanted) : Places R good (refuse what) := by
  apply Safe.bind peek_places
  intro t here
  exact Safe.bind atEnd_places fun _ _ => Places.fail _ here

theorem expect_places (kind : Token.Kind) (text : String) (what : Wanted) :
    Places R (fun _ => True) (expect kind text what) := by
  apply Safe.bind (eat_places kind text)
  intro found _
  exact Safe.ite (refuse_places what) (Safe.pure trivial)

theorem delimiter_places (text : String) (what : Wanted) :
    Places R (fun _ => True) (delimiter text what) :=
  expect_places .delimiter text what

theorem keyword_places (text : String) (what : Wanted) :
    Places R (fun _ => True) (keyword text what) :=
  expect_places .keyword text what

theorem expectKind_places (kind : Token.Kind) (what : Wanted) :
    Places R (fun _ => True) (expectKind kind what) := by
  apply Safe.bind peek_places
  intro t _
  apply Safe.ite
  · exact Safe.bind advance_places fun _ _ => Safe.pure trivial
  · exact refuse_places what

theorem name_places (what : Wanted) : Places R (fun _ => True) (name what) :=
  expectKind_places .name what

theorem listed_places {item : List α → Parser α} (each : ∀ seen, Places R good (item seen))
    (n : Nat) (seen : List α) : Places R (fun xs => ∀ x ∈ xs, good x) (listed item n seen) := by
  induction n generalizing seen with
  | zero =>
    apply Safe.bind (each seen)
    intro x here
    exact Safe.pure (List.forall_mem_singleton.2 here)
  | succ n ih =>
    refine Safe.bind (each seen) fun x here => Safe.bind (eat_places _ _) fun found _ => ?_
    apply Safe.ite
    · apply Safe.bind (ih (x :: seen))
      intro xs others
      exact Safe.pure (List.forall_mem_cons.2 ⟨here, others⟩)
    · exact Safe.pure (List.forall_mem_singleton.2 here)

theorem listedUntil_places {item : List α → Parser α} (close : String) (bound : Nat)
    (each : ∀ seen, Places R good (item seen)) :
    Places R (fun xs => ∀ x ∈ xs, good x) (listedUntil close bound item) := by
  apply Safe.bind (sees_places _ _)
  intro found _
  apply Safe.ite
  · exact Safe.pure (List.forall_mem_nil _)
  · exact listed_places each bound []

theorem operandAfter_places (symbol : String) {operand : Parser α}
    (operands : Places R good operand) : Places R good (operandAfter symbol operand) := by
  apply Safe.bind last_places
  intro t here s placed
  have ended := operands s placed
  change EndSafe _ _ _ (EStateM.adaptExcept _ operand s)
  unfold EStateM.adaptExcept
  cases run : operand s with
  | ok a s' =>
    rw [run] at ended
    exact ended
  | error e s' =>
    rw [run] at ended
    refine ⟨?_, ended.2⟩
    unfold operandAfter.blame
    split
    · split
      · exact here
      · exact ended.1
    · exact ended.1

/-! Expressions. -/

abbrev ExprPlaces (R : Span → Prop) (p : Parser Expr) : Prop :=
  Places R (fun e => ∀ s ∈ e.spans, R s) p

theorem operatorOf_places (ops : List BinOp) : Places R (fun _ => True) (operatorOf ops) :=
  Safe.look fun _ _ => trivial

/-- Two expressions with something between them. -/
theorem through_placed (spanning : Spanning R) {l r : Expr} (left : ∀ s ∈ l.spans, R s)
    (right : ∀ s ∈ r.spans, R s) : ∀ s ∈ l.span.through r.span :: (l.spans ++ r.spans), R s :=
  List.forall_mem_cons.2 ⟨spanning _ _ (left _ l.span_mem) (right _ r.span_mem),
    List.forall_mem_append.2 ⟨left, right⟩⟩

variable {operand expression : Parser Expr} (spanning : Spanning R)

include spanning

theorem joinLeft_places (operands : ExprPlaces R operand) (ops : List BinOp) (n : Nat)
    {left : Expr} (before : ∀ s ∈ left.spans, R s) :
    ExprPlaces R (joinLeft ops operand n left) := by
  induction n generalizing left with
  | zero => exact Safe.pure before
  | succ n ih =>
    apply Safe.bind (operatorOf_places ops)
    intro found _
    cases found with
    | none => exact Safe.pure before
    | some op =>
      apply Safe.bind step_places
      intro _ _
      apply Safe.bind (operandAfter_places op.symbol operands)
      intro right after
      exact ih (through_placed spanning before after)

theorem level_places (bound : Nat) (ops : List BinOp) (operands : ExprPlaces R operand) :
    ExprPlaces R (level bound ops operand) :=
  Safe.bind operands fun _ before => joinLeft_places spanning operands ops bound before

theorem joinLogic_places (operands : ExprPlaces R operand) (op : Logic) (n : Nat) {left : Expr}
    (before : ∀ s ∈ left.spans, R s) : ExprPlaces R (joinLogic op operand n left) := by
  induction n generalizing left with
  | zero => exact Safe.pure before
  | succ n ih =>
    apply Safe.bind (eat_places _ _)
    intro found _
    apply Safe.ite
    · apply Safe.bind operands
      intro right after
      exact ih (through_placed spanning before after)
    · exact Safe.pure before

theorem logicLevel_places (bound : Nat) (op : Logic) (operands : ExprPlaces R operand) :
    ExprPlaces R (logicLevel bound op operand) :=
  Safe.bind operands fun _ before => joinLogic_places spanning operands op bound before

theorem power_places (bases : ExprPlaces R operand) (n : Nat) :
    ExprPlaces R (power operand n) := by
  induction n with
  | zero => exact bases
  | succ n ih =>
    refine Safe.bind bases fun left before => Safe.bind (eat_places _ _) fun found _ => ?_
    apply Safe.ite
    · apply Safe.bind (operandAfter_places _ ih)
      intro right after
      exact Safe.pure (through_placed spanning before after)
    · exact Safe.pure before

theorem negation_places (operands : ExprPlaces R operand) (n : Nat) :
    ExprPlaces R (negation operand n) := by
  induction n with
  | zero => exact operands
  | succ n ih =>
    apply Safe.bind (eat_places _ _)
    intro found _
    apply Safe.ite
    · refine Safe.bind last_places fun t here => Safe.bind (operandAfter_places _ ih) ?_
      intro e inner
      exact Safe.pure (List.forall_mem_cons.2 ⟨spanning _ _ here (inner _ e.span_mem), inner⟩)
    · exact operands

omit spanning in
theorem arguments_places (bound : Nat) (nested : ExprPlaces R expression) :
    Places R (fun es => ∀ s ∈ spansOfAll es, R s) (arguments bound expression) := by
  have each (seen : List Expr) : ExprPlaces R
      (do if (← atEnd) then fail .openArguments (← peek).span else expression) := by
    apply Safe.bind atEnd_places
    intro ended _
    apply Safe.ite
    · exact Safe.bind peek_places fun t here => Places.fail _ here
    · exact nested
  apply Safe.bind (listedUntil_places ")" bound each)
  intro args all
  apply Safe.bind (delimiter_places _ _)
  intro _ _
  exact Safe.pure (forall_spansOfAll.2 all)

theorem postfixes_places (bound : Nat) (nested : ExprPlaces R expression) (n : Nat) {e : Expr}
    (before : ∀ s ∈ e.spans, R s) : ExprPlaces R (postfixes bound expression n e) := by
  induction n generalizing e with
  | zero => exact Safe.pure before
  | succ n ih =>
    have since := since_places spanning (before _ e.span_mem)
    apply Safe.bind (eat_places _ _)
    intro point _
    apply Safe.ite
    · refine Safe.bind (name_places _) fun x _ => Safe.bind (eat_places _ _) fun opened _ => ?_
      apply Safe.ite
      · refine Safe.bind (arguments_places bound nested) fun args after => ?_
        refine Safe.bind since fun span here => ih ?_
        exact List.forall_mem_cons.2 ⟨here, List.forall_mem_append.2 ⟨before, after⟩⟩
      · exact Safe.bind since fun span here => ih (List.forall_mem_cons.2 ⟨here, before⟩)
    · apply Safe.bind (eat_places _ _)
      intro opened _
      apply Safe.ite
      · refine Safe.bind nested fun key after => Safe.bind (delimiter_places _ _) fun _ _ => ?_
        refine Safe.bind since fun span here => ih ?_
        exact List.forall_mem_cons.2 ⟨here, List.forall_mem_append.2 ⟨before, after⟩⟩
      · exact Safe.pure before

omit spanning

theorem pathRest_places (n : Nat) : Places R (fun _ => True) (pathRest n) := by
  induction n with
  | zero => exact Safe.pure trivial
  | succ n ih =>
    apply Safe.bind (eat_places _ _)
    intro found _
    apply Safe.ite
    · refine Safe.bind (name_places _) fun part _ => Safe.bind ih fun _ _ => Safe.pure trivial
    · exact Safe.pure trivial

theorem classPath_places (bound : Nat) (what : Wanted) :
    Places R (fun _ => True) (classPath bound what) :=
  Safe.bind (name_places what) fun _ _ =>
    Safe.bind (pathRest_places bound) fun _ _ => Safe.pure trivial

theorem entry_places (nested : ExprPlaces R expression) (seen : List (String × Expr)) :
    Places R (fun e => ∀ s ∈ e.2.spans, R s) (entry expression seen) := by
  apply Safe.bind advance_places
  intro t here
  apply Safe.ite
  · exact Places.fail _ here
  · apply Safe.ite
    · exact Places.fail _ here
    · refine Safe.bind (delimiter_places _ _) fun _ _ => Safe.bind nested fun e inner => ?_
      exact Safe.pure inner

include spanning

theorem primaryFrom_places (bound : Nat) (nested : ExprPlaces R expression) {t : Token}
    (here : R t.span) : ExprPlaces R (primaryFrom bound expression t) := by
  have since := since_places spanning here
  have leaf {e : Expr} (single : e.spans = [t.span]) : ExprPlaces R (Pure.pure e) := by
    apply Safe.pure
    rw [single]
    exact List.forall_mem_singleton.2 here
  unfold primaryFrom
  split
  · split
    · exact leaf rfl
    · exact Places.fail _ here
  · exact leaf rfl
  · exact leaf rfl
  · exact leaf rfl
  · exact leaf rfl
  · refine Safe.bind (classPath_places bound _) fun cls _ => ?_
    refine Safe.bind (delimiter_places _ _) fun _ _ => ?_
    refine Safe.bind (arguments_places bound nested) fun args inner => ?_
    exact Safe.bind since fun span whole => Safe.pure (List.forall_mem_cons.2 ⟨whole, inner⟩)
  · apply Safe.bind (eat_places _ _)
    intro opened _
    apply Safe.ite
    · refine Safe.bind (arguments_places bound nested) fun args inner => ?_
      exact Safe.bind since fun span whole => Safe.pure (List.forall_mem_cons.2 ⟨whole, inner⟩)
    · exact leaf rfl
  · apply Safe.bind (sees_places _ _)
    intro empty _
    apply Safe.ite
    · exact Safe.bind peek_places fun u after => Places.fail _ (spanning _ _ here after)
    · refine Safe.bind nested fun e inner => Safe.bind (delimiter_places _ _) fun _ _ => ?_
      exact Safe.bind since fun span whole => Safe.pure (List.forall_mem_cons.2 ⟨whole, inner⟩)
  · refine Safe.bind (listedUntil_places _ bound fun _ => nested) fun items all => ?_
    refine Safe.bind (delimiter_places _ _) fun _ _ => Safe.bind since fun span whole => ?_
    exact Safe.pure (List.forall_mem_cons.2 ⟨whole, forall_spansOfAll.2 all⟩)
  · refine Safe.bind (listedUntil_places _ bound (entry_places nested)) fun entries all => ?_
    refine Safe.bind (delimiter_places _ _) fun _ _ => Safe.bind since fun span whole => ?_
    exact Safe.pure (List.forall_mem_cons.2 ⟨whole, forall_spansOfEntries.2 all⟩)
  · exact Places.fail _ here

theorem primary_places (bound : Nat) (nested : ExprPlaces R expression) :
    ExprPlaces R (primary bound expression) := by
  apply Safe.bind atEnd_places
  intro ended _
  apply Safe.ite
  · exact Safe.bind peek_places fun t here => Places.fail _ here
  · exact Safe.bind advance_places fun t here => primaryFrom_places spanning bound nested here

theorem chain_places (bound : Nat) (nested : ExprPlaces R expression) :
    ExprPlaces R (chain bound expression) :=
  Safe.bind (primary_places spanning bound nested) fun _ before =>
    postfixes_places spanning bound nested bound before

theorem levels_places (bound : Nat) (nested : ExprPlaces R expression) :
    ExprPlaces R (levels bound expression) := by
  have tightest := power_places spanning
    (negation_places spanning (chain_places spanning bound nested) bound) bound
  apply logicLevel_places spanning
  apply logicLevel_places spanning
  apply level_places spanning
  apply level_places spanning
  apply level_places spanning
  apply level_places spanning
  exact level_places spanning _ _ tightest

theorem expression_places (n : Nat) : ExprPlaces R (Parser.expression n) := by
  induction n with
  | zero => exact Safe.bind peek_places fun t here => Places.fail _ here
  | succ n ih => exact levels_places spanning (n + 1) ih

/-! Statements. -/

omit spanning

abbrev StmtPlaces (R : Span → Prop) (p : Parser Stmt) : Prop :=
  Places R (fun x => ∀ s ∈ x.spans, R s) p

abbrev BlockPlaces (R : Span → Prop) (p : Parser Block) : Prop :=
  Places R (fun b => ∀ s ∈ blockSpans b, R s) p

variable {statement : Parser Stmt} {start : Span}

theorem block_places (statements : StmtPlaces R statement) (opener : String)
    (closers : List String) (n : Nat) : BlockPlaces R (block statement opener closers n) := by
  have open' : BlockPlaces R (do fail (.openBlock opener closers) (← peek).span) :=
    Safe.bind peek_places fun t here => Places.fail _ here
  induction n with
  | zero => exact open'
  | succ n ih =>
    apply Safe.bind (seesKeyword_places closers)
    intro closed _
    apply Safe.ite
    · exact Safe.pure (List.forall_mem_nil _)
    · apply Safe.bind atEnd_places
      intro ended _
      apply Safe.ite open'
      refine Safe.bind statements fun x first => Safe.bind ih fun b others => ?_
      exact Safe.pure (List.forall_mem_append.2 ⟨first, others⟩)

theorem closedBlock_places (bound : Nat) (statements : StmtPlaces R statement)
    (opener closer : String) : BlockPlaces R (closedBlock bound statement opener closer) := by
  apply Safe.bind (block_places statements opener [closer] bound)
  intro body inner
  exact Safe.bind step_places fun _ _ => Safe.pure inner

include spanning

theorem condition_places (bound : Nat) (word : String) : ExprPlaces R (condition bound word) := by
  apply Safe.bind (delimiter_places _ _)
  intro _ _
  apply Safe.bind (expression_places spanning bound)
  intro e inner
  exact Safe.bind (delimiter_places _ _) fun _ _ => Safe.pure inner

theorem guarded_places (bound : Nat) (statements : StmtPlaces R statement) (word : String) :
    Places R (fun b => (∀ s ∈ b.1.spans, R s) ∧ ∀ s ∈ blockSpans b.2, R s)
      (guarded bound statement word) := by
  apply Safe.bind (condition_places spanning bound word)
  intro e inner
  apply Safe.bind (block_places statements _ _ bound)
  intro b body
  exact Safe.pure ⟨inner, body⟩

theorem otherBranches_places (bound : Nat) (statements : StmtPlaces R statement) (n : Nat) :
    Places R (fun o => (∀ s ∈ branchSpans o.1, R s) ∧ ∀ s ∈ otherwiseSpans o.2, R s)
      (otherBranches bound statement n) := by
  have nothing : (∀ s ∈ branchSpans [], R s) ∧ ∀ s ∈ otherwiseSpans none, R s :=
    ⟨List.forall_mem_nil _, List.forall_mem_nil _⟩
  induction n with
  | zero => exact Safe.pure nothing
  | succ n ih =>
    apply Safe.bind advance_places
    intro closer _
    apply Safe.ite
    · apply Safe.bind (guarded_places spanning bound statements "elif")
      intro b first
      apply Safe.bind ih
      rintro ⟨bs, otherwise⟩ ⟨others, final⟩
      have all := List.forall_mem_append.2 ⟨first.1, List.forall_mem_append.2 ⟨first.2, others⟩⟩
      exact Safe.pure ⟨all, final⟩
    · apply Safe.ite
      · apply Safe.bind (closedBlock_places bound statements "else" "endif")
        intro b inner
        exact Safe.pure ⟨List.forall_mem_nil _, inner⟩
      · exact Safe.pure nothing

theorem branchStatement_places (bound : Nat) (statements : StmtPlaces R statement)
    (here : R start) : StmtPlaces R (branchStatement bound statement start) := by
  apply Safe.bind (guarded_places spanning bound statements "if")
  intro b first
  apply Safe.bind (otherBranches_places spanning bound statements bound)
  rintro ⟨bs, otherwise⟩ ⟨others, final⟩
  have all := List.forall_mem_append.2 ⟨first.1, List.forall_mem_append.2 ⟨first.2, others⟩⟩
  apply Safe.bind (since_places spanning here)
  intro span whole
  exact Safe.pure (List.forall_mem_cons.2 ⟨whole, List.forall_mem_append.2 ⟨all, final⟩⟩)

omit spanning in
theorem parameters_places (bound : Nat) : Places R (fun _ => True) (parameters bound) := by
  apply Safe.bind (delimiter_places _ _)
  intro _ _
  have each (seen : List String) : Places R (fun _ => True) (do
      let p ← name .parameter
      if seen.contains p then fail (.duplicateParameter p) (← last).span else return p) := by
    apply Safe.bind (name_places _)
    intro p _
    apply Safe.ite
    · exact Safe.bind last_places fun t here => Places.fail _ here
    · exact Safe.pure trivial
  apply Safe.bind (listedUntil_places ")" bound each)
  intro params _
  exact Safe.bind (delimiter_places _ _) fun _ _ => Safe.pure trivial

theorem functionDecl_places (bound : Nat) (statements : StmtPlaces R statement)
    (here : R start) :
    Places R (fun d => ∀ s ∈ d.spans, R s) (functionDecl bound statement start) := by
  refine Safe.bind (name_places _) fun f _ => Safe.bind (parameters_places bound) fun params _ => ?_
  refine Safe.bind (closedBlock_places bound statements "f" "endf") fun body inner => ?_
  apply Safe.bind (since_places spanning here)
  intro span whole
  exact Safe.pure (List.forall_mem_cons.2 ⟨whole, inner⟩)

theorem initDecl_places (bound : Nat) (statements : StmtPlaces R statement) (here : R start) :
    Places R (fun d => ∀ s ∈ d.spans, R s) (initDecl bound statement start) := by
  refine Safe.bind (parameters_places bound) fun params _ => ?_
  refine Safe.bind (closedBlock_places bound statements "init" "endinit") fun body inner => ?_
  apply Safe.bind (since_places spanning here)
  intro span whole
  exact Safe.pure (List.forall_mem_cons.2 ⟨whole, inner⟩)

theorem giveStatement_places (bound : Nat) (here : R start) :
    StmtPlaces R (giveStatement bound start) := by
  apply Safe.bind atEnd_places
  intro ended _
  apply Safe.bind (seesKeyword_places _)
  intro closed _
  apply Safe.ite
  · apply Safe.bind (since_places spanning here)
    intro span whole
    exact Safe.pure (List.forall_mem_singleton.2 whole)
  · apply Safe.bind (expression_places spanning bound)
    intro e inner
    apply Safe.bind (since_places spanning here)
    intro span whole
    exact Safe.pure (List.forall_mem_cons.2 ⟨whole, inner⟩)

omit spanning in
theorem loopBody_places (bound : Nat) (statements : StmtPlaces R statement)
    (opener closer : String) : BlockPlaces R (loopBody bound statement opener closer) :=
  Safe.bind (eat_places _ _) fun _ _ => closedBlock_places bound statements opener closer

theorem loopStatement_places (bound : Nat) (statements : StmtPlaces R statement)
    (here : R start) : StmtPlaces R (loopStatement bound statement start) := by
  apply Safe.bind (condition_places spanning bound "while")
  intro e inner
  apply Safe.bind (loopBody_places bound statements "while" "endwhile")
  intro body looped
  apply Safe.bind (since_places spanning here)
  intro span whole
  exact Safe.pure (List.forall_mem_cons.2 ⟨whole, List.forall_mem_append.2 ⟨inner, looped⟩⟩)

theorem header_places (bound : Nat) :
    Places R (fun h => ∀ s ∈ h.spans, R s) (header bound) := by
  have source := expression_places spanning bound
  apply Safe.bind (eat_places _ _)
  intro opened _
  apply Safe.ite
  · refine Safe.bind (name_places _) fun key _ => Safe.bind (delimiter_places _ _) fun _ _ => ?_
    refine Safe.bind (name_places _) fun value _ => Safe.bind (delimiter_places _ _) fun _ _ => ?_
    refine Safe.bind (keyword_places _ _) fun _ _ => Safe.bind source fun e inner => ?_
    exact Safe.pure inner
  · refine Safe.bind (name_places _) fun x _ => Safe.bind (eat_places _ _) fun each _ => ?_
    apply Safe.ite
    · exact Safe.bind source fun e inner => Safe.pure inner
    · apply Safe.bind (eat_places _ _)
      intro range _
      apply Safe.ite
      · refine Safe.bind source fun a first => Safe.bind (keyword_places _ _) fun _ _ => ?_
        apply Safe.bind source
        intro b second
        exact Safe.pure (List.forall_mem_append.2 ⟨first, second⟩)
      · apply Safe.bind (eat_places _ _)
        intro pairs _
        apply Safe.ite
        · refine Safe.bind (name_places _) fun value _ => ?_
          refine Safe.bind (keyword_places _ _) fun _ _ => Safe.bind source fun e inner => ?_
          exact Safe.pure inner
        · exact Safe.bind peek_places fun t here => Places.fail _ here

theorem iterateStatement_places (bound : Nat) (statements : StmtPlaces R statement)
    (here : R start) : StmtPlaces R (iterateStatement bound statement start) := by
  refine Safe.bind (delimiter_places _ _) fun _ _ => ?_
  refine Safe.bind (header_places spanning bound) fun h inner => ?_
  refine Safe.bind (delimiter_places _ _) fun _ _ => ?_
  refine Safe.bind (loopBody_places bound statements "for" "endfor") fun body looped => ?_
  apply Safe.bind (since_places spanning here)
  intro span whole
  exact Safe.pure (List.forall_mem_cons.2 ⟨whole, List.forall_mem_append.2 ⟨inner, looped⟩⟩)

omit spanning in
theorem memberOf_placed {x : Stmt} {m : Member} (placed : ∀ s ∈ x.spans, R s)
    (declares : memberOf x = some m) : ∀ s ∈ m.spans, R s := by
  unfold memberOf at declares
  split at declares
  · cases declares
    exact placed
  · cases declares
    exact (List.forall_mem_cons.1 placed).2
  · cases declares
    exact (List.forall_mem_cons.1 placed).2
  · cases declares

omit spanning in
theorem members_places (statements : StmtPlaces R statement) (cls : String) (n : Nat)
    (built : Bool) :
    Places R (fun ms => ∀ s ∈ memberSpans ms, R s) (members statement cls n built) := by
  have open' {α : Type} {good : α → Prop} :
      Places R good (do fail (.openClass cls) (← peek).span) :=
    Safe.bind peek_places fun t here => Places.fail _ here
  induction n generalizing built with
  | zero => exact open'
  | succ n ih =>
    have more {m : Member} {built : Bool} (first : ∀ s ∈ m.spans, R s) :
        Places R (fun ms => ∀ s ∈ memberSpans ms, R s)
          (do return m :: (← members statement cls n built)) :=
      Safe.bind (ih built) fun ms others =>
        Safe.pure (List.forall_mem_append.2 ⟨first, others⟩)
    apply Safe.bind (eat_places _ _)
    intro closed _
    apply Safe.ite
    · exact Safe.pure (List.forall_mem_nil _)
    · apply Safe.bind atEnd_places
      intro ended _
      apply Safe.ite open'
      refine Safe.bind peek_places fun t here => Safe.bind statements fun x placed => ?_
      split
      · exact Places.fail _ here
      · rename_i d found
        apply Safe.ite
        · exact Places.fail _ here
        · exact more (memberOf_placed placed found)
      · rename_i m _ found
        exact more (memberOf_placed placed found)

theorem classStatement_places (bound : Nat) (statements : StmtPlaces R statement)
    (here : R start) : StmtPlaces R (classStatement bound statement start) := by
  have rest (cls : String) (parent : Option ClassPath) : StmtPlaces R (do
      let ms ← members statement cls bound false
      return .cls cls parent ms (← since start)) := by
    apply Safe.bind (members_places statements cls bound false)
    intro ms inner
    apply Safe.bind (since_places spanning here)
    intro span whole
    exact Safe.pure (List.forall_mem_cons.2 ⟨whole, inner⟩)
  refine Safe.bind (name_places _) fun cls _ => Safe.bind (eat_places _ _) fun extends' _ => ?_
  cases extends' with
  | true =>
    have parents : Places R (fun _ => True) (some <$> classPath bound .parentName) := by
      rw [map_eq_pure_bind]
      exact Safe.bind (classPath_places bound _) fun _ _ => Safe.pure trivial
    exact Safe.bind parents fun parent _ => rest cls parent
  | false => exact rest cls none

omit spanning

theorem names_places (bound : Nat) (opening closing : String) :
    Places R (fun _ => True) (names bound opening closing) := by
  refine Safe.bind (delimiter_places _ _) fun _ _ => ?_
  refine Safe.bind (listedUntil_places closing bound fun _ => name_places _) fun ns _ => ?_
  exact Safe.bind (delimiter_places _ _) fun _ _ => Safe.pure trivial

theorem selection_places (bound : Nat) : Places R (fun _ => True) (selection bound) := by
  apply Safe.bind (eat_places _ _)
  intro all _
  apply Safe.ite
  · exact Safe.pure trivial
  · exact Safe.bind (names_places bound _ _) fun _ _ => Safe.pure trivial

theorem targetOf_placed {e : Expr} {target : Target} (placed : ∀ s ∈ e.spans, R s)
    (found : targetOf e = some target) : ∀ s ∈ target.spans, R s := by
  unfold targetOf at found
  split at found
  · cases found
    exact List.forall_mem_nil _
  · cases found
    exact (List.forall_mem_cons.1 placed).2
  · cases found
    exact (List.forall_mem_cons.1 placed).2
  · cases found

include spanning

theorem importStatement_places (bound : Nat) (here : R start) :
    StmtPlaces R (importStatement bound start) := by
  refine Safe.bind (expectKind_places _ _) fun file _ => ?_
  refine Safe.bind (keyword_places _ _) fun _ _ => ?_
  apply Safe.bind (selection_places bound)
  intro items _
  apply Safe.bind (since_places spanning here)
  intro span whole
  exact Safe.pure (List.forall_mem_singleton.2 whole)

theorem loadStatement_places (here : R start) : StmtPlaces R (loadStatement start) := by
  refine Safe.bind (expectKind_places _ _) fun file _ => ?_
  refine Safe.bind (keyword_places _ _) fun _ _ => ?_
  apply Safe.bind (name_places _)
  intro x _
  apply Safe.bind (since_places spanning here)
  intro span whole
  exact Safe.pure (List.forall_mem_singleton.2 whole)

theorem nameStatement_places (bound : Nat) : StmtPlaces R (nameStatement bound) := by
  apply Safe.bind peek_places
  intro t here
  apply Safe.bind (chain_places spanning bound (expression_places spanning bound))
  intro e inner
  have since := since_places spanning here
  apply Safe.bind (eat_places _ _)
  intro assigned _
  apply Safe.ite
  · split
    · exact Places.fail _ (inner _ e.span_mem)
    · rename_i target found
      apply Safe.bind (expression_places spanning bound)
      intro value given
      apply Safe.bind since
      intro span whole
      have parts := List.forall_mem_append.2 ⟨targetOf_placed inner found, given⟩
      exact Safe.pure (List.forall_mem_cons.2 ⟨whole, parts⟩)
  · apply Safe.ite
    · exact Safe.bind since fun span whole => Safe.pure (List.forall_mem_cons.2 ⟨whole, inner⟩)
    · exact Safe.bind peek_places fun u after => Places.fail _ after

theorem keywordStatement_places (bound : Nat) (statements : StmtPlaces R statement) {t : Token}
    (here : R t.span) : StmtPlaces R (keywordStatement bound statement t) := by
  have since := since_places spanning here
  unfold keywordStatement
  split
  · exact Safe.pure (List.forall_mem_singleton.2 here)
  · refine Safe.bind (delimiter_places _ _) fun _ _ => ?_
    refine Safe.bind (expression_places spanning bound) fun e inner => ?_
    refine Safe.bind (delimiter_places _ _) fun _ _ => Safe.bind since fun span whole => ?_
    exact Safe.pure (List.forall_mem_cons.2 ⟨whole, inner⟩)
  · exact branchStatement_places spanning bound statements here
  · apply Safe.bind (functionDecl_places spanning bound statements here)
    intro d inner
    exact Safe.bind since fun span whole => Safe.pure (List.forall_mem_cons.2 ⟨whole, inner⟩)
  · apply Safe.bind (initDecl_places spanning bound statements here)
    intro d inner
    exact Safe.bind since fun span whole => Safe.pure (List.forall_mem_cons.2 ⟨whole, inner⟩)
  · exact giveStatement_places spanning bound here
  · exact loopStatement_places spanning bound statements here
  · exact iterateStatement_places spanning bound statements here
  · exact classStatement_places spanning bound statements here
  · apply Safe.bind (names_places bound _ _)
    intro ns _
    exact Safe.bind since fun span whole => Safe.pure (List.forall_mem_singleton.2 whole)
  · exact importStatement_places spanning bound here
  · apply Safe.bind (delimiter_places _ _)
    intro _ _
    apply Safe.bind (arguments_places bound (expression_places spanning bound))
    intro args inner
    exact Safe.bind since fun span whole => Safe.pure (List.forall_mem_cons.2 ⟨whole, inner⟩)
  · exact loadStatement_places spanning here
  · exact Places.fail _ here

theorem statement_places (n : Nat) : StmtPlaces R (Parser.statement n) := by
  induction n with
  | zero => exact Safe.bind peek_places fun t here => Places.fail _ here
  | succ n ih =>
    apply Safe.bind peek_places
    intro t here
    split
    · exact Safe.bind step_places fun _ _ => keywordStatement_places spanning (n + 1) ih here
    · exact nameStatement_places spanning (n + 1)
    · exact Places.fail _ here
    · exact Places.fail _ here

theorem statements_places (bound n : Nat) : BlockPlaces R (statements bound n) := by
  induction n with
  | zero => exact Safe.pure (List.forall_mem_nil _)
  | succ n ih =>
    apply Safe.bind atEnd_places
    intro ended _
    apply Safe.ite
    · exact Safe.pure (List.forall_mem_nil _)
    · refine Safe.bind (statement_places spanning bound) fun x first => Safe.bind ih ?_
      intro b others
      exact Safe.pure (List.forall_mem_append.2 ⟨first, others⟩)

end Parser

end Script
