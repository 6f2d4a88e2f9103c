import Script.Proofs.Loops
import Script.Proofs.Parts
import Script.Proofs.Termination.Expressions

/-! Programs come to an end if they have no code of their own to call and no loop on a condition.
All other loops go round for what their headers yield at the start, and nothing else can go on for
ever but the text of a value that contains itself. -/

namespace Script

/-- No loop on a condition, nothing that makes functions or classes, and nothing that runs files. -/
def Stmt.Plain : Stmt → Prop
  | .loop .. | .function .. | .cls .. | .imports .. | .load .. => False
  | _ => True

/-- Nothing that the statements of a log render contains itself. -/
def Quiet (l : List Moment) : Prop :=
  ∀ x ∈ l, AllAcyclic x.renderings

namespace Quiet

variable {σ α : Type} {x : EStateM Halt σ α} {first : Log σ} {next : α → Log σ} {s : σ}

theorem chain (quiet : Quiet (Log.chain x first next s)) :
    Quiet (first s) ∧ ∀ a t, x s = .ok a t → Quiet (next a t) := by
  obtain ⟨here, rest⟩ := List.forall_mem_append.1 quiet
  refine ⟨here, fun a t ran => ?_⟩
  rw [ran] at rest
  exact rest

theorem after (quiet : Quiet (Log.after x next s)) {a : α} {t : σ} (ran : x s = .ok a t) :
    Quiet (next a t) :=
  quiet.chain.2 a t ran

end Quiet

/-- What an evaluation in the running frame comes to. -/
theorem ran_of_eval {α : Type} {f : Frame → Eval α} {s t : State} {a : α}
    (ran : Exec.eval f s = .ok a t) :
    f s.frame s.machine = .ok a t.machine ∧ t.frame = s.frame := by
  unfold Exec.eval at ran
  dsimp only at ran
  cases here : f s.frame s.machine with
  | error e m =>
    rw [here] at ran
    cases ran
  | ok b m =>
    rw [here] at ran
    cases ran
    exact ⟨rfl, rfl⟩

namespace Settles

variable {h : Host} {nested : Context → Block → Log State} {s : State}

/-! Loops. -/

theorem next {rest : Exec Flow} {flow : Flow} (start : s.Codeless)
    (settles : flow = .done → ExecSettles anything s rest) :
    ExecSettles anything s
      (match flow with
        | .done => rest
        | .left => return .done
        | .gave v => return .gave v) := by
  cases flow with
  | done => exact settles rfl
  | left | gave => exact pure start trivial

section Rounds

variable {body : Exec Flow} {bodies : Log State}
  (round : ∀ t : State, t.Codeless → Quiet (bodies t) → ExecSettles anything t body)

include round

theorem visit (start : s.Codeless) {rounds : List (List (String × Value))}
    (plain : ∀ bindings ∈ rounds, s.machine.heap.PlainEntries bindings)
    (quiet : Quiet (Log.visit body bodies rounds s)) :
    ExecSettles anything s (Exec.visit body rounds) := by
  induction rounds generalizing s with
  | nil => exact pure start trivial
  | cons bindings rounds ih =>
    obtain ⟨first, others⟩ := List.forall_mem_cons.1 plain
    refine bind (assignEach start first) fun _ t ran spans start _ => ?_
    obtain ⟨here, later⟩ := (quiet.after ran).chain
    refine bind (round t start here) fun flow u ran spans' start _ => next start ?_
    rintro rfl
    exact ih start (fun b member => (spans.trans spans').entries (others b member))
      (later .done u ran)

theorem count (start : s.Codeless) (name : String) {n : Nat} {i : Int}
    (quiet : Quiet (Log.count name body bodies n i s)) :
    ExecSettles anything s (Exec.count name body n i) := by
  induction n generalizing s i with
  | zero => exact pure start trivial
  | succ n ih =>
    refine bind (assign start name trivial) fun _ t ran _ start _ => ?_
    obtain ⟨here, later⟩ := (quiet.after ran).chain
    refine bind (round t start here) fun flow u ran _ start _ => next start ?_
    rintro rfl
    exact ih start (later .done u ran)

end Rounds

theorem bound (start : s.Codeless) (e : Expr)
    (acyclic : AllAcyclic (h.renderings s.frame e s.machine)) :
    ExecSettles anything s (h.bound e) := by
  refine eval start (bind (evaluate start.heap start.frame e acyclic) fun v m _ _ start _ => ?_)
  cases v with
  | int n => exact answer start trivial
  | _ => exact fail _

theorem visited {α : Type} {good : Heap → α → Prop} (start : s.Codeless) (e : Expr)
    (acyclic : AllAcyclic (h.renderings s.frame e s.machine))
    {read : Heap → Value → Except RunFault α}
    (yields : ∀ k : Heap, k.Codeless → ∀ v a, read k v = .ok a → good k a) (span : Span) :
    ExecSettles good s (h.visited e read span) :=
  eval start (bind (evaluate start.heap start.frame e acyclic) fun v _ _ _ start _ =>
    Settles.read (lift start fun a found => yields _ start v a found))

theorem iterate (start : s.Codeless) (header : Header) (span : Span) {body : Exec Flow}
    {bodies : Log State} (acyclic : AllAcyclic (h.headerRenderings s.frame header s.machine))
    (quiet : Quiet (h.iterateLog nested header span body bodies s))
    (round : ∀ t : State, t.Codeless → Quiet (bodies t) → ExecSettles anything t body) :
    ExecSettles anything s (h.iterate header span body) := by
  cases header with
  | range name a b =>
    obtain ⟨first, rest⟩ := acyclic.onward
    refine bind (bound start a first) fun i t ran _ start' _ => ?_
    have rest := rest i t ran
    obtain ⟨-, same⟩ := ran_of_eval ran
    rw [← same] at rest
    refine bind (bound start' b rest) fun j u ran' _ start _ => ?_
    exact count round start name ((quiet.chain.2 i t ran).chain.2 j u ran')
  | each name e =>
    have yields : ExecSettles Heap.AllPlain s (h.visited e Heap.items span) :=
      visited start e acyclic (fun k codeless v vs found => codeless.items found) span
    refine bind yields fun vs t ran _ start plain => ?_
    refine visit round start (List.forall_mem_map.2 fun v member => ?_) (quiet.chain.2 vs t ran)
    exact List.forall_mem_singleton.2 (plain v member)
  | pairs key value e =>
    have yields : ExecSettles (fun k ps => ∀ p ∈ ps, k.Plain p.1 ∧ k.Plain p.2) s
        (h.visited e Heap.pairs span) :=
      visited start e acyclic (fun k codeless v ps found => codeless.pairs found) span
    refine bind yields fun ps t ran _ start plain => ?_
    refine visit round start (List.forall_mem_map.2 fun p member => ?_) (quiet.chain.2 ps t ran)
    obtain ⟨first, second⟩ := plain p member
    exact List.forall_mem_cons.2 ⟨first, List.forall_mem_singleton.2 second⟩

/-! Statements. -/

theorem target (start : s.Codeless) (target : Target) {v : Value} (plain : s.machine.heap.Plain v)
    (span : Span) (acyclic : AllAcyclic (h.targetRenderings s.frame target s.machine)) :
    ExecSettles anything s (h.assign target v span) := by
  have changes {m : Machine} (codeless : m.heap.Codeless) {x : Except RunFault (Heap → Heap)}
      (keeps : ∀ f, x = .ok f → m.heap.Spans (f m.heap) ∧ (f m.heap).Codeless) :
      EvalSettles anything m (Eval.lift x span >>= Eval.changeHeap) := by
    cases x with
    | error f => exact fault _
    | ok f =>
      obtain ⟨spans, codeless⟩ := keeps f rfl
      exact changeHeap spans codeless
  unfold Host.assign
  cases target with
  | name x => exact assign start x plain
  | index o k =>
    obtain ⟨first, rest⟩ := acyclic.onward
    refine eval start ?_
    refine bind (evaluate start.heap start.frame o first) fun u m ran spans codeless _ => ?_
    refine bind (evaluate codeless (spans.frame start.frame) k (rest u m ran))
      fun w n _ spans' codeless _ => ?_
    exact read (changes codeless fun f =>
      codeless.setIndexed ((spans.trans spans').plain plain))
  | property o x =>
    refine eval start ?_
    refine bind (evaluate start.heap start.frame o acyclic) fun u m _ spans codeless _ => ?_
    exact changes codeless fun f => codeless.setProperty (spans.plain plain)

theorem print {m : Machine} (codeless : m.heap.Codeless) {v : Value} (plain : m.heap.Plain v)
    (acyclic : m.heap.Acyclic v) (span : Span) : EvalSettles anything m (h.print v span) := by
  obtain ⟨text, found⟩ := Option.isSome_iff_exists.1 ((codeless.isSome_text?_iff plain).2 acyclic)
  apply read
  rw [found]
  cases h.context.sink with
  | broken reason => exact fail _
  | working => exact ⟨.refl _, codeless, trivial⟩

theorem share {frame : Frame} {m : Machine} (codeless : m.heap.Codeless) (names : List String)
    (span : Span) : EvalSettles anything m (frame.share span names) := by
  induction names generalizing m with
  | nil => exact answer codeless trivial
  | cons name names ih =>
    apply read
    rw [codeless.function?_eq_none]
    have lists : EvalSettles anything m
        (modify fun m => { m with shared := m.shared.insert name () } : Eval Unit) :=
      ⟨.refl _, codeless, trivial⟩
    have refuses : EvalSettles anything m (Eval.raise (.cannotShare name) span : Eval Unit) :=
      fault _
    exact ite (fun _ => bind lists fun _ _ _ _ codeless _ => ih codeless)
      fun _ => bind refuses fun _ _ _ _ codeless _ => ih codeless

/-- Only the constructor of a class that extends another can run that of the other. -/
theorem parentConstructor {frame : Frame} {m : Machine} (frames : m.heap.PlainFrame frame)
    (span : Span) :
    EvalSettles (fun _ _ => False) m (frame.parentConstructor span) := by
  unfold Frame.parentConstructor
  rw [frames.parent]
  split
  · exact fault _
  · exact fault _

mutual

theorem execute {s : State} (start : s.Codeless) (x : Stmt) (plain : ∀ y ∈ x.parts, y.Plain)
    (acyclic : AllAcyclic (Moment.renderings ⟨h, x, s⟩)) (quiet : Quiet (h.executeLog nested x s)) :
    ExecSettles anything s (h.execute x) := by
  have own : x.Plain := plain x x.mem_parts
  cases x with
  | expression e span =>
    exact bind (eval start (evaluate start.heap start.frame e acyclic))
      fun _ _ _ _ start _ => pure start trivial
  | print e span =>
    obtain ⟨first, rest⟩ := acyclic.onward
    have printed : EvalSettles anything s.machine
        (h.evaluate s.frame e >>= fun v => h.print v span) :=
      bind (evaluate start.heap start.frame e first) fun v m ran _ codeless valid =>
        print codeless valid (rest v m ran _ List.mem_cons_self) span
    have whole : ExecSettles anything s
        (Exec.eval fun frame => h.evaluate frame e >>= fun v => h.print v span) :=
      eval start printed
    exact bind whole fun _ _ _ _ start _ => pure start trivial
  | assign left e span =>
    obtain ⟨first, rest⟩ := acyclic.onward
    refine bind (eval start (evaluate start.heap start.frame e first))
      fun v t ran _ start valid => ?_
    obtain ⟨ran, same⟩ := ran_of_eval ran
    have rest := rest v t.machine ran
    dsimp only at rest
    rw [← same] at rest
    exact bind (target start left valid span rest) fun _ _ _ _ start _ => pure start trivial
  | branch bs o span =>
    have inner : ∀ y ∈ branchParts bs ++ otherwiseParts o, y.Plain := fun y part =>
      plain y (List.mem_cons_of_mem _ part)
    obtain ⟨inBranches, inOther⟩ := List.forall_mem_append.1 inner
    cases o with
    | none =>
      obtain ⟨taken, -⟩ := quiet.chain
      refine bind (executeBranches start bs inBranches acyclic taken) fun flow _ _ _ start _ => ?_
      cases flow with
      | some | none => exact pure start trivial
    | some b =>
      obtain ⟨taken, other⟩ := quiet.chain
      refine bind (executeBranches start bs inBranches acyclic taken)
        fun flow t ran _ start _ => ?_
      cases flow with
      | some flow => exact pure start trivial
      | none => exact executeBlock start b inOther (other none t ran)
  | iterate header b span =>
    have inner : ∀ y ∈ blockParts b, y.Plain := fun y part =>
      plain y (List.mem_cons_of_mem _ part)
    exact iterate start header span acyclic quiet fun t start quiet =>
      executeBlock start b inner quiet
  | leave span => exact pure start trivial
  | give value span =>
    cases value with
    | none => exact pure start trivial
    | some e =>
      exact bind (eval start (evaluate start.heap start.frame e acyclic))
        fun _ _ _ _ start _ => pure start trivial
  | init d span => exact fault _
  | super args span =>
    have constructed : EvalSettles anything s.machine (do
        let (self, c, f) ← s.frame.parentConstructor span
        let vs ← h.evaluateAll s.frame args
        h.construct s.frame c f self vs span) :=
      bind (parentConstructor start.frame span) fun _ _ _ _ _ impossible => impossible.elim
    exact bind (eval start constructed) fun _ _ _ _ start _ => pure start trivial
  | share names span =>
    exact bind (eval start (share start.heap names span))
      fun _ _ _ _ start _ => pure start trivial
  | loop | function | cls | imports | load => exact own.elim

theorem executeBlock {s : State} (start : s.Codeless) (b : List Stmt)
    (plain : ∀ y ∈ blockParts b, y.Plain) (quiet : Quiet (h.blockLog nested b s)) :
    ExecSettles anything s (h.executeBlock b) := by
  cases b with
  | nil => exact pure start trivial
  | cons x b =>
    obtain ⟨here, later⟩ := quiet.chain
    obtain ⟨acyclic, inside⟩ := List.forall_mem_cons.1 here
    obtain ⟨first, rest⟩ := List.forall_mem_append.1 plain
    refine bind (execute start x first acyclic inside) fun flow t ran _ start _ => ?_
    cases flow with
    | done => exact executeBlock start b rest (later .done t ran)
    | left | gave => exact pure start trivial

theorem executeBranches {s : State} (start : s.Codeless) (bs : List (Expr × List Stmt))
    (plain : ∀ y ∈ branchParts bs, y.Plain)
    (acyclic : AllAcyclic (h.conditionRenderings s.frame bs s.machine))
    (quiet : Quiet (h.branchesLog nested bs s)) :
    ExecSettles anything s (h.executeBranches bs) := by
  match bs with
  | [] => exact pure start trivial
  | (e, b) :: rest =>
    obtain ⟨first, others⟩ := acyclic.onward
    obtain ⟨-, later⟩ := quiet.chain
    obtain ⟨inBlock, inRest⟩ := List.forall_mem_append.1 plain
    refine bind (eval start (truth (evaluate start.heap start.frame e first)))
      fun holds t ran _ start _ => ?_
    have later := later holds t ran
    obtain ⟨ran, same⟩ := ran_of_eval ran
    have others := others holds t.machine ran
    cases holds with
    | true =>
      exact bind (executeBlock start b inBlock later) fun _ _ _ _ start _ => pure start trivial
    | false =>
      rw [← same] at others
      exact executeBranches start rest inRest others later

end

theorem topLevel {limit : Nat} {c : Context} {s : State} (start : s.Codeless) {b : Block}
    (plain : ∀ x ∈ b, ∀ y ∈ x.parts, y.Plain)
    (quiet : Quiet (Log.topLevel (run (limit + 1) c) (runLog (limit + 1) c) b s)) :
    ExecSettles anything s (topLevel (run (limit + 1) c) b) := by
  induction b generalizing s with
  | nil => exact pure start trivial
  | cons x b ih =>
    obtain ⟨here, later⟩ := quiet.chain
    obtain ⟨first, others⟩ := List.forall_mem_cons.1 plain
    have alone : ∀ y ∈ blockParts [x], y.Plain := fun y part =>
      first y (by simpa [blockParts] using part)
    have ran : ExecSettles anything s (run (limit + 1) c [x]) := executeBlock start [x] alone here
    refine bind ran fun flow t ran _ start _ => ?_
    cases flow with
    | done => exact ih start others (later .done t ran)
    | left | gave => exact fault _

end Settles

/-- A plain program that starts afresh comes to its end, without a call and without a round of a
loop on a condition, if nothing that it renders contains itself. Its run is the same then within any
larger bounds. -/
theorem plain_program_ends {limit : Nat} {c : Context} {b : Block}
    (plain : ∀ x ∈ blockParts b, x.Plain)
    (acyclic : ∀ r ∈ programRenderings (limit + 1) c b State.start, r.heap.Acyclic r.value) :
    Ended (runProgram (run (limit + 1) c) b State.start) ∧
      ∀ more, limit ≤ more →
        runProgram (run (more + 1) c) b State.start =
          runProgram (run (limit + 1) c) b State.start := by
  have quiet : Quiet (Log.program (run (limit + 1) c) (runLog (limit + 1) c) b State.start) :=
    fun x member r rendered => acyclic r (List.mem_flatMap.2 ⟨x, member, rendered⟩)
  have parts : ∀ x ∈ b.filter Stmt.isImport ++ b.filter (!·.isImport), ∀ y ∈ x.parts, y.Plain := by
    intro x member y part
    have there : x ∈ b := (List.mem_append.1 member).elim (fun first => (List.mem_filter.1 first).1)
      fun later => (List.mem_filter.1 later).1
    exact plain y (blockParts_of_mem there part)
  have ended : Ended (runProgram (run (limit + 1) c) b State.start) :=
    (Settles.topLevel State.codeless_start parts quiet).ended
  refine ⟨ended, fun more less => ?_⟩
  have wider := run_widens (Nat.succ_le_succ less) c
  exact ((Widens.topLevel wider _).eq ended).symm

/-- Two loops, one in the other, over a list that both make longer, and then its text. -/
def growingLoops : Block :=
  let list := Expr.name "xs" default
  let add (x : String) : Stmt :=
    .expression (.method list "add" [.name x default] default) default
  [.assign (.name "xs") (.list [.literal (.int 1) default, .literal (.int 2) default] default)
      default,
    .iterate (.each "x" list) [add "x", .iterate (.each "y" list) [add "y"] default] default,
    .print list default]

theorem growingLoops_end :
    let c : Context := .inMemory ⟨[], []⟩ .working
    let ran (n : Nat) := runProgram (run (n + 1) c) growingLoops State.start
    (Ended (ran 0) ∧ ∀ more, 0 ≤ more → ran more = ran 0) ∧
      (programRenderings 1 c growingLoops State.start).map
        (fun r => (r.heap.list ⟨0⟩).size) = [14] := by
  intro c ran
  have plain : ∀ x ∈ blockParts growingLoops, x.Plain := by
    simp [growingLoops, blockParts, Stmt.parts, Stmt.Plain]
  have texts : (programRenderings 1 c growingLoops State.start).all
      (fun r => (r.heap.text? r.value).isSome) = true := by decide +kernel
  have acyclic (r : Rendering) (member : r ∈ programRenderings 1 c growingLoops State.start) :
      r.heap.Acyclic r.value :=
    Heap.acyclic_of_textUpTo _ (List.all_eq_true.1 texts r member)
  exact ⟨plain_program_ends plain acyclic, by decide +kernel⟩

end Script
