import Script.Proofs.Layout.Expressions
import Script.Proofs.Layout.Modules

/-! Two executions of one statement, written at different places, end alike; and so do two runs of
one block, as deep as calls and modules nest. -/

namespace Script.World

variable {w : World} {host : Host} {s t : Span}

/-! Loops. -/

theorem repeatWhile_execs {test test' : Exec Bool} {body body' : Exec Flow}
    (tests : w.Execs (Same fun _ => True) test test') (bodies : w.Execs (Same w.OwnsFlow) body body')
    (n : Nat) :
    w.Execs (Same w.OwnsFlow) (Exec.repeatWhile test body n) (Exec.repeatWhile test' body' n) := by
  induction n with
  | zero => exact Alike.throw trivial
  | succ n ih =>
    refine tests.bind_same fun b _ => Alike.ite ?_ (Alike.pure ⟨rfl, trivial⟩)
    apply bodies.bind_same
    intro flow owned
    cases flow with
    | done => exact ih
    | left => exact Alike.pure ⟨rfl, trivial⟩
    | gave v => exact Alike.pure ⟨rfl, owned⟩

theorem assignEach_execs {bindings : List (String × Value)} (all : w.OwnsEntries bindings) :
    w.Execs (Same fun _ => True) (bindings.forM fun b => Exec.assign b.1 b.2)
      (bindings.forM fun b => Exec.assign b.1 b.2) := by
  induction bindings with
  | nil => exact Alike.pure ⟨rfl, trivial⟩
  | cons b bindings ih =>
    obtain ⟨first, others⟩ := List.forall_mem_cons.1 all
    exact (execs_assign b.1 first).bind_same fun _ _ => ih others

theorem visit_execs {body body' : Exec Flow} (bodies : w.Execs (Same w.OwnsFlow) body body')
    {rounds : List (List (String × Value))} (all : ∀ bindings ∈ rounds, w.OwnsEntries bindings) :
    w.Execs (Same w.OwnsFlow) (Exec.visit body rounds) (Exec.visit body' rounds) := by
  induction rounds with
  | nil => exact Alike.pure ⟨rfl, trivial⟩
  | cons bindings rounds ih =>
    obtain ⟨first, others⟩ := List.forall_mem_cons.1 all
    apply (assignEach_execs first).bind_same
    intro _ _
    apply bodies.bind_same
    intro flow owned
    cases flow with
    | done => exact ih others
    | left => exact Alike.pure ⟨rfl, trivial⟩
    | gave v => exact Alike.pure ⟨rfl, owned⟩

theorem count_execs (name : String) {body body' : Exec Flow}
    (bodies : w.Execs (Same w.OwnsFlow) body body') (n : Nat) (i : Int) :
    w.Execs (Same w.OwnsFlow) (Exec.count name body n i) (Exec.count name body' n i) := by
  induction n generalizing i with
  | zero => exact Alike.pure ⟨rfl, trivial⟩
  | succ n ih =>
    have named : w.Owns (.int (Int64.ofInt i)) := trivial
    apply (execs_assign name named).bind_same
    intro _ _
    apply bodies.bind_same
    intro flow owned
    cases flow with
    | done => exact ih (i + 1)
    | left => exact Alike.pure ⟨rfl, trivial⟩
    | gave v => exact Alike.pure ⟨rfl, owned⟩

theorem evaluate_execs (uniform : Uniform host) {e e' : Expr}
    (same : e.relocate w.view = e'.relocate w.view) :
    w.Execs (Same w.Owns) (Exec.eval fun frame => host.evaluate frame e)
      (Exec.eval fun frame => host.evaluate frame e') :=
  execs_eval fun _ own => evaluate_evals uniform own e same

theorem truth_execs (uniform : Uniform host) {e e' : Expr}
    (same : e.relocate w.view = e'.relocate w.view) :
    w.Execs (Same fun _ => True) (Exec.eval fun frame => Eval.truth (host.evaluate frame e))
      (Exec.eval fun frame => Eval.truth (host.evaluate frame e')) :=
  execs_eval fun _ own => evals_truth (evaluate_evals uniform own e same)

theorem bound_execs (uniform : Uniform host) {e e' : Expr}
    (same : e.relocate w.view = e'.relocate w.view) :
    w.Execs (Same fun _ => True) (host.bound e) (host.bound e') := by
  have places : w.view e.span = w.view e'.span := by
    have spans := congrArg Expr.span same
    simpa only [Expr.span_relocate] using spans
  apply execs_eval
  intro _ own
  apply (evaluate_evals uniform own e same).bind_same
  intro v _
  cases v with
  | int n => exact Alike.pure ⟨rfl, trivial⟩
  | _ => exact evals_fail _ places

theorem iterate_execs (uniform : Uniform host) {header header' : Header}
    (same : header.relocate w.view = header'.relocate w.view) (places : w.view s = w.view t)
    {body body' : Exec Flow} (bodies : w.Execs (Same w.OwnsFlow) body body') :
    w.Execs (Same w.OwnsFlow) (host.iterate header s body) (host.iterate header' t body') := by
  cases header with
  | range x a b =>
    cases header' with
    | range x' a' b' =>
      simp only [Header.relocate, Header.range.injEq] at same
      obtain ⟨rfl, start, stop⟩ := same
      apply (bound_execs uniform start).bind_same
      intro m _
      apply (bound_execs uniform stop).bind_same
      intro n _
      exact count_execs x bodies _ _
    | _ => cases same
  | each x e =>
    cases header' with
    | each x' e' =>
      simp only [Header.relocate, Header.each.injEq] at same
      obtain ⟨rfl, inner⟩ := same
      have items : w.Execs (Same w.OwnsAll)
          (Exec.eval fun frame => do
            let v ← host.evaluate frame e
            Eval.lift ((← Eval.heap).items v) s)
          (Exec.eval fun frame => do
            let v ← host.evaluate frame e'
            Eval.lift ((← Eval.heap).items v) t) := by
        apply execs_eval
        intro _ own
        apply (evaluate_evals uniform own e inner).bind_same
        intro v owned
        exact evals_heap fun h k heaps => evals_lift (heaps.items owned) places
      refine items.bind_same fun vs all => visit_execs bodies ?_
      intro bindings member
      obtain ⟨v, here, rfl⟩ := List.mem_map.1 member
      exact List.forall_mem_singleton.2 (all v here)
    | _ => cases same
  | pairs x y e =>
    cases header' with
    | pairs x' y' e' =>
      simp only [Header.relocate, Header.pairs.injEq] at same
      obtain ⟨rfl, rfl, inner⟩ := same
      have pairs : w.Execs (Same fun ps => ∀ p ∈ ps, w.Owns p.1 ∧ w.Owns p.2)
          (Exec.eval fun frame => do
            let v ← host.evaluate frame e
            Eval.lift ((← Eval.heap).pairs v) s)
          (Exec.eval fun frame => do
            let v ← host.evaluate frame e'
            Eval.lift ((← Eval.heap).pairs v) t) := by
        apply execs_eval
        intro _ own
        apply (evaluate_evals uniform own e inner).bind_same
        intro v owned
        exact evals_heap fun h k heaps => evals_lift (heaps.pairs owned) places
      refine pairs.bind_same fun ps all => visit_execs bodies ?_
      intro bindings member
      obtain ⟨p, here, rfl⟩ := List.mem_map.1 member
      obtain ⟨first, second⟩ := all p here
      exact List.forall_mem_cons.2 ⟨first, List.forall_mem_singleton.2 second⟩
    | _ => cases same

/-! Assignments and classes. -/

theorem assign_execs (uniform : Uniform host) {target target' : Target}
    (same : target.relocate w.view = target'.relocate w.view) {v : Value} (owned : w.Owns v)
    (places : w.view s = w.view t) :
    w.Execs (Same fun _ => True) (host.assign target v s) (host.assign target' v t) := by
  cases target with
  | name x =>
    cases target' with
    | name x' =>
      simp only [Target.relocate, Target.name.injEq] at same
      subst same
      exact execs_assign x owned
    | _ => cases same
  | index o i =>
    cases target' with
    | index o' i' =>
      simp only [Target.relocate, Target.index.injEq] at same
      unfold Host.assign
      apply execs_eval
      intro _ own
      apply (evaluate_evals uniform own o same.1).bind_same
      intro u held
      apply (evaluate_evals uniform own i same.2).bind_same
      intro key _
      apply evals_heap
      intro h k heaps
      apply (evals_lift (heaps.setIndexed held owned) places).bind_same
      intro f change
      exact evals_changeHeap change
    | _ => cases same
  | property o x =>
    cases target' with
    | property o' x' =>
      simp only [Target.relocate, Target.property.injEq] at same
      obtain ⟨inner, rfl⟩ := same
      unfold Host.assign
      apply execs_eval
      intro _ own
      apply (evaluate_evals uniform own o inner).bind_same
      intro u held
      apply (evals_lift (setProperty_answers x held owned) places).bind_same
      intro f change
      exact evals_changeHeap change
    | _ => cases same

theorem plain_functions {d d' : Decl} (same : d.relocate w.view = d'.relocate w.view) :
    w.Functions ⟨d, none, false⟩ ⟨d', none, false⟩ :=
  ⟨same, rfl, by simp, rfl⟩

theorem Decl.name_eq {f : Span → Span} {d d' : Decl} (same : d.relocate f = d'.relocate f) :
    d.name = d'.name := by
  have h := congrArg Script.Decl.name same
  simpa only [Decl.name_relocate] using h

theorem addMembers_evals (uniform : Uniform host) {detached : Frame} (own : w.OwnsFrame detached)
    (ms : List Member) {ms' : List Member}
    (same : relocateMembers w.view ms = relocateMembers w.view ms') {c : Class}
    (cls : w.OwnsClass c) :
    w.Evals (Same w.OwnsClass) (host.addMembers detached ms c) (host.addMembers detached ms' c) := by
  induction ms generalizing ms' c with
  | nil =>
    cases ms' with
    | nil => exact Alike.pure ⟨rfl, cls⟩
    | cons m' ms' => cases same
  | cons m ms ih =>
    cases ms' with
    | nil => cases same
    | cons m' ms' =>
      simp only [relocateMembers, List.cons.injEq] at same
      obtain ⟨first, rest⟩ := same
      cases m with
      | property x e s =>
        cases m' with
        | property x' e' t =>
          simp only [Member.relocate, Member.property.injEq] at first
          obtain ⟨rfl, inner, -⟩ := first
          apply (evaluate_evals uniform own e inner).bind_same
          intro v owned
          exact ih rest { cls with properties := Object.holds_set cls.properties owned }
        | _ => cases first
      | method d =>
        cases m' with
        | method d' =>
          simp only [Member.relocate, Member.method.injEq] at first
          apply (evals_newFunction (plain_functions first)).bind_same
          intro r owned
          rw [Decl.name_eq first]
          exact ih rest (cls.setMethod owned)
        | _ => cases first
      | constructor d =>
        cases m' with
        | constructor d' =>
          simp only [Member.relocate, Member.constructor.injEq] at first
          apply (evals_newFunction (plain_functions first)).bind_same
          intro r owned
          refine ih rest { cls with constructor := ?_ }
          intro r' member
          cases member
          exact owned
        | _ => cases first

theorem declaredClass_evals (uniform : Uniform host) {frame : Frame} (own : w.OwnsFrame frame)
    (name : String) (parent : Option ClassPath) {ms ms' : List Member}
    (same : relocateMembers w.view ms = relocateMembers w.view ms')
    (places : w.view s = w.view t) :
    w.Evals (Same w.Owns) (host.declaredClass frame name parent ms s)
      (host.declaredClass frame name parent ms' t) := by
  have built (p : Option ClassRef) (owned : ∀ c ∈ p, w.Owns (.cls c)) :
      w.Evals (Same w.Owns)
        (do
          let c := Class.under (← Eval.heap) name p
          let detached ← Eval.onHeap Frame.new
          let c ← host.addMembers detached ms c
          return .cls (← Eval.onHeap (·.newClass c)))
        (do
          let c := Class.under (← Eval.heap) name p
          let detached ← Eval.onHeap Frame.new
          let c ← host.addMembers detached ms' c
          return .cls (← Eval.onHeap (·.newClass c))) := by
    apply evals_heap
    intro h k heaps
    obtain ⟨under, cls⟩ := OwnsClass.under heaps owned name
    dsimp only
    rw [← under]
    have new : w.Evals (Same w.OwnsFrame) (Eval.onHeap Frame.new) (Eval.onHeap Frame.new) :=
      evals_onHeap fun h k heaps => heaps.newFrame
    apply new.bind_same
    intro detached inner
    apply (addMembers_evals uniform inner ms same cls).bind_same
    intro c cls
    have made : w.Evals (Same fun r => w.Owns (.cls r)) (Eval.onHeap (·.newClass c))
        (Eval.onHeap (·.newClass c)) := evals_onHeap fun h k heaps => heaps.newClass cls
    exact made.bind_same fun r owned => Alike.pure ⟨rfl, owned⟩
  unfold Host.declaredClass
  cases parent with
  | none => exact built none (by simp)
  | some path =>
    have found : w.Evals (Same fun p => ∀ c ∈ p, w.Owns (.cls c))
        (do return some (← Eval.lift ((← Eval.heap).resolveClass frame path) s))
        (do return some (← Eval.lift ((← Eval.heap).resolveClass frame path) t)) := by
      apply evals_heap
      intro h k heaps
      apply (evals_lift (heaps.resolveClass own path) places).bind_same
      intro c owned
      refine Alike.pure ⟨rfl, ?_⟩
      intro c' member
      cases member
      exact owned
    exact found.bind_same fun p owned => built p owned

/-! Statements. -/

theorem done_execs : w.Execs (Same w.OwnsFlow) (pure .done) (pure .done) :=
  Alike.pure ⟨rfl, trivial⟩

theorem effect_execs {f g : Frame → Eval Unit}
    (h : ∀ frame, w.OwnsFrame frame → w.Evals (Same fun _ => True) (f frame) (g frame)) :
    w.Execs (Same w.OwnsFlow) (Exec.eval f >>= fun _ => pure .done)
      (Exec.eval g >>= fun _ => pure .done) :=
  (execs_eval h).bind_same fun _ _ => done_execs

/-- What runs when no condition holds. -/
def otherwise (host : Host) : Option Block → Exec Flow
  | some b => host.executeBlock b
  | none => return .done

theorem execute_branch (bs : List (Expr × Block)) (o : Option Block) (s : Span) :
    host.execute (.branch bs o s) =
      (do
        match ← host.executeBranches bs with
        | some flow => return flow
        | none => otherwise host o) := by
  cases o <;> rfl

mutual

theorem execute_execs (uniform : Uniform host) (x : Stmt) {y : Stmt}
    (same : x.relocate w.view = y.relocate w.view) :
    w.Execs (Same w.OwnsFlow) (host.execute x) (host.execute y) := by
  cases x with
  | expression e s =>
    cases Stmt.relocates same with
    | expression inner places =>
      simp only [Host.execute]
      exact (evaluate_execs uniform inner).bind_same fun _ _ => done_execs
  | print e s =>
    cases Stmt.relocates same with
    | print inner places =>
      simp only [Host.execute]
      apply effect_execs
      intro _ own
      apply (evaluate_evals uniform own e inner).bind_same
      intro v owned
      exact print_evals owned places
  | assign target e s =>
    cases Stmt.relocates same with
    | assign targets inner places =>
      simp only [Host.execute]
      apply (evaluate_execs uniform inner).bind_same
      intro v owned
      exact (assign_execs uniform targets owned places).bind_same fun _ _ => done_execs
  | branch branches o s =>
    cases Stmt.relocates same with
    | branch branches' last places =>
      rw [execute_branch, execute_branch]
      apply (executeBranches_execs uniform branches branches').bind_same
      intro flow owned
      cases flow with
      | some flow => exact Alike.pure ⟨rfl, owned flow rfl⟩
      | none => exact otherwise_execs uniform o last
  | loop e b s =>
    cases Stmt.relocates same with
    | loop test body places =>
      simp only [Host.execute]
      exact repeatWhile_execs (truth_execs uniform test) (executeBlock_execs uniform b body) _
  | iterate header b s =>
    cases Stmt.relocates same with
    | iterate headers body places =>
      simp only [Host.execute]
      exact iterate_execs uniform headers places (executeBlock_execs uniform b body)
  | leave s =>
    cases Stmt.relocates same with
    | leave places => exact Alike.pure ⟨rfl, trivial⟩
  | give value s =>
    cases value with
    | none =>
      cases Stmt.relocates same with
      | giveNothing places => exact Alike.pure ⟨rfl, trivial⟩
    | some e =>
      cases Stmt.relocates same with
      | give inner places =>
        simp only [Host.execute]
        exact (evaluate_execs uniform inner).bind_same fun v owned => Alike.pure ⟨rfl, owned⟩
  | function d s =>
    cases Stmt.relocates same with
    | function decls places =>
      simp only [Host.execute]
      apply effect_execs
      intro frame own
      apply (evals_newFunction (plain_functions decls)).bind_same
      intro r owned
      rw [Decl.name_eq decls]
      exact evals_changeHeap fun h k heaps => heaps.define own.table owned
  | init d s =>
    cases Stmt.relocates same with
    | init decls places =>
      simp only [Host.execute]
      exact execs_eval fun _ _ => evals_fail _ places
  | cls x parent ms s =>
    cases Stmt.relocates same with
    | @cls _ _ ms' _ t _ members places =>
      simp only [Host.execute]
      have declared : w.Execs (Same w.Owns)
          (Exec.eval fun frame => host.declaredClass frame x parent ms s)
          (Exec.eval fun frame => host.declaredClass frame x parent ms' t) :=
        execs_eval fun _ own => declaredClass_evals uniform own x parent members places
      apply declared.bind_same
      intro v owned
      exact (execs_assign x owned).bind_same fun _ _ => done_execs
  | super args s =>
    cases Stmt.relocates same with
    | super arguments places =>
      simp only [Host.execute]
      apply effect_execs
      intro frame own
      refine (parentConstructor_evals own places).bind_same ?_
      rintro ⟨self, c, f⟩ ⟨instance', cls, owned⟩
      apply (evaluateAll_evals uniform own args arguments).bind_same
      intro vs all
      exact construct_evals uniform own cls owned instance' all places
  | share names s =>
    cases Stmt.relocates same with
    | share places =>
      simp only [Host.execute]
      apply effect_execs
      intro _ own
      exact share_evals own places names
  | imports file items s =>
    cases Stmt.relocates same with
    | imports places =>
      simp only [Host.execute]
      exact (importFile_execs uniform file items places).bind_same fun _ _ => done_execs
  | load file x s =>
    cases Stmt.relocates same with
    | load places =>
      simp only [Host.execute]
      exact (loadFile_execs uniform file x places).bind_same fun _ _ => done_execs

theorem executeBlock_execs (uniform : Uniform host) (b : List Stmt) {b' : List Stmt}
    (same : relocateBlock w.view b = relocateBlock w.view b') :
    w.Execs (Same w.OwnsFlow) (host.executeBlock b) (host.executeBlock b') := by
  cases b with
  | nil =>
    cases b' with
    | nil => exact done_execs
    | cons y b' => cases same
  | cons x b =>
    cases b' with
    | nil => cases same
    | cons y b' =>
      simp only [relocateBlock, List.cons.injEq] at same
      simp only [Host.executeBlock]
      apply (execute_execs uniform x same.1).bind_same
      intro flow owned
      cases flow with
      | done => exact executeBlock_execs uniform b same.2
      | left => exact Alike.pure ⟨rfl, trivial⟩
      | gave v => exact Alike.pure ⟨rfl, owned⟩

theorem executeBranches_execs (uniform : Uniform host) (bs : List (Expr × List Stmt))
    {bs' : List (Expr × List Stmt)}
    (same : relocateBranches w.view bs = relocateBranches w.view bs') :
    w.Execs (Same fun flow => ∀ f, flow = some f → w.OwnsFlow f) (host.executeBranches bs)
      (host.executeBranches bs') := by
  match bs, bs' with
  | [], [] => exact Alike.pure ⟨rfl, by simp⟩
  | [], _ :: _ => cases same
  | _ :: _, [] => cases same
  | (e, b) :: bs, (e', b') :: bs' =>
    simp only [relocateBranches, List.cons.injEq, Prod.mk.injEq] at same
    obtain ⟨⟨test, body⟩, rest⟩ := same
    simp only [Host.executeBranches]
    refine (truth_execs uniform test).bind_same fun c _ => Alike.ite ?_ ?_
    · apply (executeBlock_execs uniform b body).bind_same
      intro flow owned
      refine Alike.pure ⟨rfl, ?_⟩
      intro f chosen
      cases chosen
      exact owned
    · exact executeBranches_execs uniform bs rest

theorem otherwise_execs (uniform : Uniform host) (o : Option (List Stmt))
    {o' : Option (List Stmt)}
    (same : relocateOtherwise w.view o = relocateOtherwise w.view o') :
    w.Execs (Same w.OwnsFlow) (otherwise host o) (otherwise host o') := by
  cases o with
  | none =>
    cases o' with
    | none => exact done_execs
    | some b' => cases same
  | some b =>
    cases o' with
    | none => cases same
    | some b' =>
      simp only [relocateOtherwise, Option.some.injEq] at same
      exact executeBlock_execs uniform b same

end

/-- However deep calls and modules may nest, a block runs alike wherever it is written. -/
theorem run_runsAlike (limit : Nat) (w : World) (c : Context) : w.RunsAlike (run limit c) := by
  induction limit generalizing w c with
  | zero =>
    intro b b' _
    exact Alike.throw trivial
  | succ n ih =>
    intro b b' same
    have uniform : Uniform ⟨c, n, run n⟩ := ih
    rw [← relocateBlock_eq_map, ← relocateBlock_eq_map] at same
    exact executeBlock_execs uniform b same

/-- The run of a module beside itself, above what is there: what the module makes is its own. -/
theorem ofFile_beside (limit : Nat) (c : Context) (access : Access) (file : String) (span : Span)
    (a : Machine) :
    EndAlike (within a.heap a.heap).Machines (within a.heap a.heap).Halts
      (Same fun m => (within a.heap a.heap).OwnsFrame m.frame)
      (Module.ofFile (.of limit c) access file span a)
      (Module.ofFile (.of limit c) access file span a) := by
  have uniform : Uniform (.of limit c) := run_runsAlike limit
  have machines : (within a.heap a.heap).Machines a a := ⟨within_self a.heap, rfl, rfl⟩
  exact ofFile_evals uniform access file (rfl : id span = id span) a a machines

end Script.World
