import Script.Proofs.Layout.Calls

/-! A module runs on the same text in both runs, in a frame of its own over heaps that may differ in
the places of the running script. It reaches nothing of these, so it ends in the same way, down to
the places of its own faults. -/

namespace Script.World

variable {w : World} {α β : Type} {good : α → β → Prop} {s t : Span}

theorem execs_eval {f g : Frame → Eval α} {good : α → α → Prop}
    (h : ∀ frame, w.OwnsFrame frame → w.Evals good (f frame) (g frame)) :
    w.Execs good (Exec.eval f) (Exec.eval g) := by
  rintro ⟨frame, m⟩ ⟨_, n⟩ ⟨rfl, own, machines⟩
  unfold Exec.eval
  dsimp only
  rcases (h frame own m n machines).cases with
    ⟨a, b, m', n', run, run', hab, after⟩ | ⟨e, e', m', n', run, run', halts, after⟩
  · rw [run, run']
    exact ⟨hab, rfl, own, after⟩
  · rw [run, run']
    exact ⟨halts, rfl, own, after⟩

theorem execs_assign (name : String) {v : Value} (owned : w.Owns v) :
    w.Execs (Same fun _ => True) (Exec.assign name v) (Exec.assign name v) := by
  apply Alike.modify
  rintro ⟨frame, m⟩ ⟨_, n⟩ ⟨rfl, own, machines⟩
  exact ⟨rfl, own.assign owned, machines⟩

/-! Programs. -/

theorem isImport_relocate (f : Span → Span) (s : Stmt) : (s.relocate f).isImport = s.isImport := by
  cases s with
  | give value s => cases value <;> rfl
  | _ => rfl

theorem filter_relocate {p : Stmt → Bool} {f : Span → Span}
    (stable : ∀ s : Stmt, p (s.relocate f) = p s) (b : Block) :
    (b.filter p).map (Stmt.relocate f) = (b.map (Stmt.relocate f)).filter p := by
  rw [List.filter_map]
  congr 2
  funext s
  exact (stable s).symm

theorem topLevel_execs {run : Block → Exec Flow} (alike : w.RunsAlike run) (b b' : Block)
    (same : b.map (Stmt.relocate w.view) = b'.map (Stmt.relocate w.view)) :
    w.Execs (Same fun _ => True) (topLevel run b) (topLevel run b') := by
  induction b generalizing b' with
  | nil =>
    cases b' with
    | nil => exact Alike.pure ⟨rfl, trivial⟩
    | cons s' b' => cases same
  | cons s b ih =>
    cases b' with
    | nil => cases same
    | cons s' b' =>
      simp only [List.map_cons, List.cons.injEq] at same
      obtain ⟨first, rest⟩ := same
      have places : w.view s.span = w.view s'.span := by
        have spans := congrArg Stmt.span first
        simpa only [Stmt.span_relocate] using spans
      have one : [s].map (Stmt.relocate w.view) = [s'].map (Stmt.relocate w.view) := by
        simp only [List.map_cons, List.map_nil, first]
      apply (alike [s] [s'] one).bind_same
      intro flow _
      cases flow with
      | done => exact ih b' rest
      | left => exact Alike.throw ⟨rfl, places, rfl⟩
      | gave v => exact Alike.throw ⟨rfl, places, rfl⟩

theorem runProgram_execs {run : Block → Exec Flow} (alike : w.RunsAlike run) {b b' : Block}
    (same : b.map (Stmt.relocate w.view) = b'.map (Stmt.relocate w.view)) :
    w.Execs (Same fun _ => True) (runProgram run b) (runProgram run b') := by
  apply topLevel_execs alike
  rw [List.map_append, List.map_append, filter_relocate (isImport_relocate _),
    filter_relocate (isImport_relocate _), filter_relocate, filter_relocate, same]
  all_goals
    intro s
    rw [isImport_relocate]

theorem runSource_execs {run : Block → Exec Flow} (alike : w.RunsAlike run) (text : String) :
    w.Execs (Same fun _ => True) (runSource run text) (runSource run text) := by
  unfold runSource
  cases parse text with
  | ok b => exact runProgram_execs alike rfl
  | error e => exact Alike.throw ⟨rfl, rfl, rfl⟩

/-! The world of a module, and the way back. -/

/-- Nothing that was there is owned, and places count as they are. -/
def within (h k : Heap) : World := ⟨id, h, k⟩

variable {h k h' k' : Heap}

theorem Heaps.within (heaps : w.Heaps h k) : (World.within h k).Heaps h k :=
  ⟨.start heaps.lists.size, .start heaps.objects.size, .start heaps.classes.size,
    .start heaps.functions.size, .start heaps.tables.size⟩

theorem within_self (h : Heap) : (World.within h h).Heaps h h :=
  ⟨.start rfl, .start rfl, .start rfl, .start rfl, .start rfl⟩

theorem Heaps.owns (heaps : w.Heaps h k) {v : Value} (owned : (World.within h k).Owns v) :
    w.Owns v := by
  cases v with
  | list r => exact Nat.le_trans heaps.lists.grown owned
  | object r => exact Nat.le_trans heaps.objects.grown owned
  | cls r => exact Nat.le_trans heaps.classes.grown owned
  | function r => exact Nat.le_trans heaps.functions.grown owned
  | _ => trivial

theorem Heaps.ownsFrame (heaps : w.Heaps h k) {f : Frame}
    (own : (World.within h k).OwnsFrame f) : w.OwnsFrame f where
  vars e member := heaps.owns (own.vars e member)
  table := Nat.le_trans heaps.tables.grown own.table
  parent p member := heaps.owns (own.parent p member)

theorem Heaps.ownsClass (heaps : w.Heaps h k) {c : Class}
    (own : (World.within h k).OwnsClass c) : w.OwnsClass c where
  parent p member := heaps.owns (own.parent p member)
  properties e member := heaps.owns (own.properties e member)
  methods m member := heaps.owns (own.methods m member)
  constructor r member := heaps.owns (own.constructor r member)

theorem Heaps.functionsAlike (heaps : w.Heaps h k) {f g : Function}
    (like : (World.within h k).Functions f g) : w.Functions f g where
  decl := by
    have same : f.decl.relocate id = g.decl.relocate id := like.decl
    rw [Decl.relocate_id, Decl.relocate_id] at same
    rw [same]
  scope := like.scope
  owned s member := heaps.ownsFrame (like.owned s member)
  shared := like.shared

/-- What a module leaves behind is the outer world's again. -/
theorem Heaps.after (outer : w.Heaps h k) (inner : (World.within h k).Heaps h' k') :
    w.Heaps h' k' where
  lists := outer.lists.trans inner.lists fun _ _ ⟨same, all⟩ =>
    ⟨same, fun v member => outer.owns (all v member)⟩
  objects := outer.objects.trans inner.objects fun _ _ ⟨same, all⟩ =>
    ⟨same, fun e member => outer.owns (all e member)⟩
  classes := outer.classes.trans inner.classes fun _ _ ⟨same, own⟩ => ⟨same, outer.ownsClass own⟩
  functions := outer.functions.trans inner.functions fun _ _ like => outer.functionsAlike like
  tables := outer.tables.trans inner.tables fun _ _ ⟨same, all⟩ =>
    ⟨same, fun e member => outer.owns (all e member)⟩

/-! Running modules. -/

theorem module_evals (access : Access) (file : String) (places : w.view s = w.view t)
    {x : Exec Unit} (alike : ∀ w : World, w.Execs (Same fun _ => True) x x) :
    w.Evals (Same fun m => w.OwnsFrame m.frame) (Module.run access file s x)
      (Module.run access file t x) := by
  intro m n machines
  obtain ⟨⟨frames, own⟩, heaps⟩ := machines.heap.within.newFrame
  have start : (World.within m.heap n.heap).States
      ⟨(Frame.new m.heap).1, (Frame.new m.heap).2, m.output, .empty⟩
      ⟨(Frame.new n.heap).1, (Frame.new n.heap).2, n.output, .empty⟩ :=
    ⟨frames, own, heaps, machines.output, rfl⟩
  unfold Module.run
  dsimp only
  rcases (alike _ _ _ start).cases with
    ⟨a, b, s', t', run, run', -, after⟩ | ⟨e, e', s', t', run, run', halts, after⟩
  · rw [run, run']
    obtain ⟨frame, own, inner⟩ := after
    refine ⟨⟨by rw [frame, inner.shared], machines.heap.ownsFrame own⟩, ?_⟩
    exact ⟨machines.heap.after inner.heap, inner.output, machines.shared⟩
  · rw [run, run']
    have outer : w.Machines { s'.machine with shared := m.shared }
        { t'.machine with shared := n.shared } :=
      ⟨machines.heap.after after.machine.heap, after.machine.output, machines.shared⟩
    cases e with
    | exhausted =>
      cases e' with
      | exhausted => exact ⟨trivial, outer⟩
      | fault e' => exact halts.elim
    | fault e =>
      cases e' with
      | exhausted => exact halts.elim
      | fault e' =>
        -- places count as they are in the module, so its fault is one and the same
        obtain ⟨faults, spans, -⟩ := halts
        have spans : e.span = e'.span := spans
        dsimp only
        rw [faults, spans]
        exact ⟨⟨rfl, places, rfl⟩, outer⟩

theorem ofFile_evals {host : Host} (uniform : Uniform host) (access : Access) (file : String)
    (places : w.view s = w.view t) :
    w.Evals (Same fun m => w.OwnsFrame m.frame) (Module.ofFile host access file s)
      (Module.ofFile host access file t) := by
  unfold Module.ofFile
  dsimp only
  cases host.context.files.resolve (host.context.locate file) with
  | none => exact evals_raise places rfl
  | some path =>
    refine Alike.ite (evals_raise places rfl) ?_
    cases host.context.files.read path with
    | error reason => exact evals_raise places rfl
    | ok text => exact module_evals access file places fun v => runSource_execs (uniform v _) text

/-! What passes from a module to the script that runs it. -/

variable {m : Module}

def OwnsFunctions (w : World) (fs : List (String × FunctionRef)) : Prop :=
  ∀ f ∈ fs, w.Owns (.function f.2)

theorem Heaps.functions_module (heaps : w.Heaps h k) (own : w.OwnsFrame m.frame) :
    m.functions h = m.functions k ∧ w.OwnsFunctions (m.functions h) := by
  obtain ⟨same, all⟩ := heaps.table own.table
  constructor
  · unfold Module.functions
    rw [← same]
    apply List.filter_congr
    intro e member
    rw [(heaps.function (all e member)).shared]
  · intro f member
    exact all f (List.mem_filter.1 member).1

theorem Heaps.function?_module (heaps : w.Heaps h k) (own : w.OwnsFrame m.frame) (name : String) :
    m.function? h name = m.function? k name ∧
      ∀ r, m.function? h name = some r → w.Owns (.function r) := by
  obtain ⟨same, all⟩ := own.function? heaps name
  constructor
  · unfold Module.function?
    rw [← same]
    cases found : m.frame.function? h name with
    | none => rfl
    | some r => simp only [Option.filter_some, (heaps.function (all r found)).shared]
  · intro r found
    exact all r (Option.eq_some_of_filter_eq_some found)

theorem exported_evals (own : w.OwnsFrame m.frame) {r : FunctionRef}
    (owned : w.Owns (.function r)) :
    w.Evals (Same fun r => w.Owns (.function r)) (m.exported r) (m.exported r) := by
  apply evals_onHeap
  intro h k heaps
  have like := heaps.function owned
  apply heaps.newFunction
  refine ⟨like.decl, rfl, ?_, like.shared⟩
  intro s member
  cases member
  exact own

theorem define_evals (own : w.OwnsFrame m.frame) {table : TableRef}
    (above : w.left.tables.size ≤ table.index) {fs : List (String × FunctionRef)}
    (all : w.OwnsFunctions fs) :
    w.Evals (Same fun _ => True) (m.define table fs) (m.define table fs) := by
  induction fs with
  | nil => exact Alike.pure ⟨rfl, trivial⟩
  | cons f fs ih =>
    obtain ⟨first, others⟩ := List.forall_mem_cons.1 all
    apply (exported_evals own first).bind_same
    intro copy owned
    have change : w.Change fun h => h.define table f.1 copy :=
      fun h k heaps => heaps.define above owned
    exact (evals_changeHeap change).bind_same fun _ _ => ih others

theorem collect_evals (own : w.OwnsFrame m.frame) {fs : List (String × FunctionRef)}
    (all : w.OwnsFunctions fs) {o : Object Value} (start : w.OwnsEntries o.entries) :
    w.Evals (Same fun o => w.OwnsEntries o.entries) (m.collect fs o) (m.collect fs o) := by
  induction fs generalizing o with
  | nil => exact Alike.pure ⟨rfl, start⟩
  | cons f fs ih =>
    obtain ⟨first, others⟩ := List.forall_mem_cons.1 all
    apply (exported_evals own first).bind_same
    intro copy owned
    exact ih others (Object.holds_set start owned)

theorem ownsEntries_sharedVars (own : w.OwnsFrame m.frame) : w.OwnsEntries m.sharedVars := by
  intro e member
  obtain ⟨shared, -, found⟩ := List.mem_filterMap.1 member
  obtain ⟨v, bound, rfl⟩ := Option.map_eq_some_iff.1 found
  exact own.get? bound

theorem bind_execs (own : w.OwnsFrame m.frame) (file : String) (places : w.view s = w.view t)
    (names : List String) :
    w.Execs (Same fun _ => True) (m.bind file s names) (m.bind file t names) := by
  induction names with
  | nil => exact Alike.pure ⟨rfl, trivial⟩
  | cons name names ih =>
    have read : w.Execs w.States get get := Alike.look fun _ _ states => states
    apply read.bind
    intro a b states
    obtain ⟨same, all⟩ := states.machine.heap.function?_module own name
    rw [← same]
    cases found : m.function? a.machine.heap name with
    | some r =>
      have one : w.OwnsFunctions [(name, r)] := List.forall_mem_singleton.2 (all r found)
      have defined : w.Execs (Same fun _ => True)
          (Exec.eval fun frame => m.define frame.table [(name, r)])
          (Exec.eval fun frame => m.define frame.table [(name, r)]) :=
        execs_eval fun frame outer => define_evals own outer.table one
      exact defined.bind_same fun _ _ => ih
    | none =>
      cases bound : m.frame.get? name with
      | some v => exact (execs_assign name (own.get? bound)).bind_same fun _ _ => ih
      | none =>
        have failed : w.Execs (Same fun _ : PUnit => True)
            (throw (.fault ⟨.notShared name file, s⟩)) (throw (.fault ⟨.notShared name file, t⟩)) :=
          Alike.throw ⟨rfl, places, rfl⟩
        exact failed.bind_same fun _ _ => ih

theorem importFile_execs {host : Host} (uniform : Uniform host) (file : String)
    (items : Selection) (places : w.view s = w.view t) :
    w.Execs (Same fun _ => True) (host.importFile file items s) (host.importFile file items t) := by
  have loaded : w.Execs (Same fun m => w.OwnsFrame m.frame)
      (Exec.eval fun _ => Module.ofFile host .importing file s)
      (Exec.eval fun _ => Module.ofFile host .importing file t) :=
    execs_eval fun _ _ => ofFile_evals uniform .importing file places
  apply loaded.bind_same
  intro m own
  cases items with
  | names names => exact bind_execs own file places names
  | all =>
    have bound : w.Execs (Same fun _ => True)
        (modify fun s =>
          { s with frame := { s.frame with vars := s.frame.vars.overlay m.frame.vars } })
        (modify fun s =>
          { s with frame := { s.frame with vars := s.frame.vars.overlay m.frame.vars } }) := by
      apply Alike.modify
      rintro ⟨frame, a⟩ ⟨_, b⟩ ⟨rfl, outer, machines⟩
      exact ⟨rfl, { outer with vars := Bindings.holds_overlay outer.vars own.vars }, machines⟩
    refine bound.bind_same fun _ _ => execs_eval fun frame outer => ?_
    apply evals_heap
    intro h k heaps
    obtain ⟨same, all⟩ := heaps.functions_module own
    rw [← same]
    exact define_evals own outer.table all

theorem loadFile_execs {host : Host} (uniform : Uniform host) (file name : String)
    (places : w.view s = w.view t) :
    w.Execs (Same fun _ => True) (host.loadFile file name s) (host.loadFile file name t) := by
  refine Alike.bind_same (execs_eval fun _ _ => ?_) fun v owned => execs_assign name owned
  apply (ofFile_evals uniform .loading file places).bind_same
  intro m own
  apply evals_heap
  intro h k heaps
  obtain ⟨same, all⟩ := heaps.functions_module own
  have none : w.OwnsEntries (Object.empty : Object Value).entries := by
    simp [OwnsEntries, Object.empty]
  have vars := Object.holds_setAll none (ownsEntries_sharedVars own)
  rw [← same]
  exact (collect_evals own all vars).bind_same fun o entries => evals_newObject entries

theorem share_evals {frame : Frame} (own : w.OwnsFrame frame) (places : w.view s = w.view t)
    (names : List String) :
    w.Evals (Same fun _ => True) (frame.share s names) (frame.share t names) := by
  induction names with
  | nil => exact Alike.pure ⟨rfl, trivial⟩
  | cons name names ih =>
    apply evals_heap
    intro h k heaps
    obtain ⟨same, all⟩ := own.function? heaps name
    rw [← same]
    cases found : frame.function? h name with
    | some r =>
      have change : w.Change fun h => h.markShared r := fun h k heaps => heaps.markShared (all r found)
      exact (evals_changeHeap change).bind_same fun _ _ => ih
    | none =>
      have noted : w.Evals (Same fun _ => True)
          (modify fun m => { m with shared := m.shared.insert name () })
          (modify fun m => { m with shared := m.shared.insert name () }) := by
        apply Alike.modify
        intro a b machines
        exact { machines with shared := by rw [machines.shared] }
      have failed : w.Evals (Same fun _ : PUnit => True) (Eval.raise (.cannotShare name) s)
          (Eval.raise (.cannotShare name) t) := evals_raise places rfl
      exact Alike.ite (noted.bind_same fun _ _ => ih) (failed.bind_same fun _ _ => ih)

end Script.World
