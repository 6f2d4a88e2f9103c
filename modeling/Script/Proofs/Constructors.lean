import Script.Proofs.Limits
import Script.Proofs.Sound.Reached
import Script.Proofs.Trace.Own

/-! Constructors that run each other. Where each starts with a `super`, an instance is built from
the root on: the constructors of all ancestors run first, on that same instance. -/

namespace Script

/-- The frame in which a constructor of the class starts. -/
def Class.opening (c : Class) (caller : Frame) (d : Decl) (cur : Value) (args : List Value) :
    Frame :=
  (Frame.assign { caller.callee with parent := c.parent } selfName cur).assignAll d.params args

/-- A class with the body of its constructor: what that hands to the constructor of the parent, if
it starts with a `super`, and the statements of its own. -/
structure Level where
  cls : ClassRef
  constructor : FunctionRef
  super : Option (List Expr × Span)
  own : Block

namespace Level

def body (l : Level) : Block :=
  match l.super with
  | none => l.own
  | some (args, span) => .super args span :: l.own

/-- The class declares the constructor, which has no parameter under the name of the instance. -/
structure In (l : Level) (h : Heap) : Prop where
  declares : (h.cls l.cls).constructor = some l.constructor
  there : l.constructor.index < h.functions.size
  body : (h.function l.constructor).decl.body = l.body
  free : selfName ∉ (h.function l.constructor).decl.params

theorem In.later {l : Level} {h k : Heap} (here : l.In h) (later : h.Later k) :
    l.In k ∧ k.cls l.cls = h.cls l.cls := by
  have known : h.Has (.cls l.cls) := by
    by_contra missing
    have declares := here.declares
    unfold Heap.cls at declares
    rw [Array.getElem?_eq_none (Nat.le_of_not_lt missing)] at declares
    cases declares
  have same := later.cls known
  obtain ⟨f, found, becomes⟩ := later.functions _ _ (Array.getElem?_eq_getElem here.there)
  obtain ⟨below, -⟩ := Array.getElem?_eq_some_iff.1 found
  have decl : (k.function l.constructor).decl = (h.function l.constructor).decl := by
    rw [Heap.function_of_getElem? found, becomes.decl,
      Heap.function_of_getElem? (Array.getElem?_eq_getElem here.there)]
  refine ⟨⟨?_, below, ?_, ?_⟩, same⟩
  · rw [same]
    exact here.declares
  · rw [decl]
    exact here.body
  · rw [decl]
    exact here.free

end Level

/-- A class and its ancestors up to one whose constructor starts with no `super`. All constructors
below that do, and each class has the next one as its parent. -/
inductive Heap.Lineage (h : Heap) : List Level → Prop
  | root {l : Level} (here : l.In h) (first : l.super = none) : h.Lineage [l]
  | under {l p : Level} {up : List Level} (here : l.In h) (calls : l.super ≠ none)
    (parent : (h.cls l.cls).parent = some p.cls) (lineage : h.Lineage (p :: up)) :
    h.Lineage (l :: p :: up)

theorem Heap.Lineage.later {h k : Heap} {line : List Level} (lineage : h.Lineage line)
    (later : h.Later k) : k.Lineage line := by
  induction lineage with
  | root here first => exact .root (here.later later).1 first
  | under here calls parent lineage ih =>
    obtain ⟨here', same⟩ := here.later later
    exact .under here' calls (same ▸ parent) ih

theorem Heap.Lineage.head {h : Heap} {l : Level} {up : List Level} (lineage : h.Lineage (l :: up)) :
    l.In h := by
  cases lineage with
  | root here first => exact here
  | under here calls parent lineage => exact here

/-- A constructor in a run: its frame, and the machine when it is entered, when the statements of
its own start and when they end. -/
structure Turn where
  level : Level
  host : Host
  frame : Frame
  entered : Machine
  started : Machine
  ended : Machine

namespace Turn

/-- The statements of its own run through. Their frame starts with the instance, and `super` means
the parent of the class that declares the constructor. -/
structure Done (c : Context) (cur : Value) (t : Turn) : Prop where
  host : ∃ limit, t.host = .of limit c
  instance_known : t.frame.get? selfName = some cur
  parent : t.frame.parent = (t.entered.heap.cls t.level.cls).parent
  ran : ∃ flow s, t.host.executeBlock t.level.own ⟨t.frame, t.started⟩ = .ok flow s ∧
    flow ≠ .left ∧ s.machine = t.ended

/-- What the `super` of a constructor runs is the other constructor, from its start to its end. -/
structure Calls (cur : Value) (t u : Turn) (args : List Expr) (span : Span) (vs : List Value) :
    Prop where
  super : t.level.super = some (args, span)
  target : t.frame.parentConstructor span t.entered =
    .ok (cur, t.entered.heap.cls u.level.cls, u.level.constructor) t.entered
  handed : t.host.evaluateAll t.frame args t.entered = .ok vs u.entered
  frame : u.frame = (t.entered.heap.cls u.level.cls).opening t.frame
    (u.entered.heap.function u.level.constructor).decl cur vs
  back : t.started = u.ended

/-- The `super` and what is executed for its arguments. -/
def calling (t : Turn) : List Moment :=
  match t.level.super with
  | none => []
  | some (args, span) =>
    ⟨t.host, .super args span, ⟨t.frame, t.entered⟩⟩ ::
      t.host.evaluateAllLog (runLog t.host.steps) t.frame args t.entered

/-- What the statements of its own execute. -/
def owned (t : Turn) : List Moment :=
  t.host.blockLog (runLog t.host.steps) t.level.own ⟨t.frame, t.started⟩

end Turn

/-- The constructors of a line take turns on one instance, the one at the head from a machine to
another. -/
structure Climbs (c : Context) (cur : Value) (line : List Level) (turns : List Turn)
    (m m' : Machine) : Prop where
  levels : turns.map Turn.level = line
  done : ∀ t ∈ turns, t.Done c cur
  calls : turns.IsChain fun t u => ∃ args span vs, t.Calls cur u args span vs
  whole : ∀ t ∈ turns.head?, t.entered = m ∧ t.ended = m'
  root : ∀ t ∈ turns.getLast?, t.started = t.entered

variable {σ α β : Type}

theorem parentConstructor_ran {frame : Frame} {span : Span} {m n : Machine} {cur : Value}
    {cls : Class} {f : FunctionRef}
    (ran : frame.parentConstructor span m = .ok (cur, cls, f) n) :
    n = m ∧ frame.get? selfName = some cur ∧
      ∃ p, frame.parent = some p ∧ cls = m.heap.cls p ∧ cls.constructor = some f := by
  unfold Frame.parentConstructor at ran
  cases known : frame.get? selfName with
  | none =>
    rw [known] at ran
    cases ran
  | some v =>
    rw [known] at ran
    cases v with
    | object o =>
      obtain ⟨p, k, found, ran⟩ := ran_of_bind ran
      cases parent : frame.parent with
      | none =>
        rw [parent] at found
        cases found
      | some q =>
        rw [parent] at found
        cases found
        obtain ⟨heap, k', read, ran⟩ := ran_of_bind ran
        cases read
        obtain ⟨f', k'', declared, ran⟩ := ran_of_bind ran
        cases ran
        cases constructor : (m.heap.cls p).constructor with
        | none =>
          rw [constructor] at declared
          cases declared
        | some f' =>
          rw [constructor] at declared
          cases declared
          exact ⟨rfl, rfl, p, rfl, rfl, rfl⟩
    | _ => cases ran

/-- A `super` that does not fail leaves the frame as it is. -/
theorem super_ran {host : Host} {args : List Expr} {span : Span} {frame : Frame} {m : Machine}
    {flow : Flow} {s : State} (ran : host.execute (.super args span) ⟨frame, m⟩ = .ok flow s) :
    flow = .done ∧ ∃ cur cls f vs n n', s = ⟨frame, n'⟩ ∧
      frame.parentConstructor span m = .ok (cur, cls, f) m ∧
      host.evaluateAll frame args m = .ok vs n ∧
      host.construct frame cls f cur vs span n = .ok () n' := by
  obtain ⟨u, t, built, rest⟩ := ran_of_bind ran
  cases rest
  unfold Exec.eval at built
  dsimp only at built
  split at built
  · rename_i a n inner
    cases built
    obtain ⟨⟨cur, cls, f⟩, k, target, passed⟩ := ran_of_bind inner
    obtain ⟨rfl, -⟩ := parentConstructor_ran target
    obtain ⟨vs, n', handed, made⟩ := ran_of_bind passed
    exact ⟨rfl, cur, cls, f, vs, n', n, rfl, target, handed, made⟩
  · cases built

/-- A constructor that does not fail runs its body in the frame that it starts in. -/
theorem construct_ran {limit : Nat} {c : Context} {caller : Frame} {cls : Class} {r : FunctionRef}
    {cur : Value} {args : List Value} {span : Span} {m m' : Machine}
    (ran : (Host.of limit c).construct caller cls r cur args span m = .ok () m') :
    ∃ k flow s, limit = k + 1 ∧
      (Host.of k c).executeBlock (m.heap.function r).decl.body
          ⟨cls.opening caller (m.heap.function r).decl cur args, m⟩ = .ok flow s ∧
      flow ≠ .left ∧ s.machine = m' ∧
      (Host.of limit c).constructLog (runLog limit) caller cls r cur args m =
        (Host.of k c).blockLog (runLog k) (m.heap.function r).decl.body
          ⟨cls.opening caller (m.heap.function r).decl cur args, m⟩ := by
  have logged : (Host.of limit c).constructLog (runLog limit) caller cls r cur args m =
      (if (m.heap.function r).decl.params.length ≠ args.length then Log.silent
        else (Host.of limit c).bodyLog (runLog limit) (m.heap.function r)
          (cls.opening caller (m.heap.function r).decl cur args)) m := rfl
  obtain ⟨heap, n, read, ran⟩ := ran_of_bind ran
  cases read
  dsimp only at ran
  by_cases fits : (m.heap.function r).decl.params.length ≠ args.length
  · rw [if_pos fits] at ran
    cases ran
  rw [if_neg fits] at ran logged
  obtain ⟨v, n', inner, rest⟩ := ran_of_bind ran
  cases rest
  obtain ⟨flow, n'', inside, rest⟩ := ran_of_bind inner
  unfold Exec.inside at inside
  split at inside
  · rename_i a s block
    cases inside
    cases limit with
    | zero => cases block
    | succ k =>
      refine ⟨k, flow, s, rfl, block, ?_, ?_, logged⟩
      · rintro rfl
        cases rest
      · cases flow with
        | done =>
          cases rest
          rfl
        | left => cases rest
        | gave v =>
          cases rest
          rfl
  · cases inside

theorem Frame.parent_assignAll (frame : Frame) (names : List String) (vs : List Value) :
    (frame.assignAll names vs).parent = frame.parent := by
  unfold Frame.assignAll
  generalize names.zip vs = entries
  induction entries generalizing frame with
  | nil => rfl
  | cons e entries ih => exact ih (frame.assign e.1 e.2)

theorem get?_opening {d : Decl} (free : selfName ∉ d.params) (cls : Class) (caller : Frame)
    (cur : Value) (args : List Value) :
    (cls.opening caller d cur args).get? selfName = some cur := by
  unfold Class.opening
  rw [Frame.get?_assignAll_of_notMem free]
  exact Bindings.get?_insert_self _ selfName cur

theorem parent_opening (cls : Class) (caller : Frame) (d : Decl) (cur : Value)
    (args : List Value) : (cls.opening caller d cur args).parent = cls.parent :=
  Frame.parent_assignAll _ d.params args

theorem later_of_ran {limit : Nat} {c : Context} {frame : Frame} {es : List Expr} {m n : Machine}
    {vs : List Value} (ran : (Host.of limit c).evaluateAll frame es m = .ok vs n) :
    m.heap.Later n.heap := by
  have bodies : HostStays Heap.Later (.of limit c) := later_law.run limit
  have later := later_law.evaluateAll bodies frame es m
  rw [ran] at later
  exact later

theorem Log.chain_ran {x : EStateM Halt σ α} {s t : σ} {a : α} (ran : x s = .ok a t)
    (first : Log σ) (next : α → Log σ) : Log.chain x first next s = first s ++ next a t := by
  unfold Log.chain
  rw [ran]

/-- What a `super` executes that does not fail. -/
theorem superLog_ran {host : Host} {nested : Context → Block → Log State} {args : List Expr}
    {span : Span} {frame : Frame} {m n : Machine} {cur : Value} {cls : Class} {f : FunctionRef}
    {vs : List Value} (target : frame.parentConstructor span m = .ok (cur, cls, f) m)
    (handed : host.evaluateAll frame args m = .ok vs n) :
    host.superLog nested frame args span m =
      host.evaluateAllLog nested frame args m ++ host.constructLog nested frame cls f cur vs n := by
  unfold Host.superLog Log.after
  rw [Log.chain_ran target]
  dsimp only
  rw [Log.chain_ran handed]
  rfl

namespace Climbs

variable {c : Context} {cur : Value} {t u : Turn} {m m' : Machine}

theorem single (done : t.Done c cur) (first : t.started = t.entered) :
    Climbs c cur [t.level] [t] t.entered t.ended := by
  refine ⟨rfl, List.forall_mem_singleton.2 done, .singleton t, ?_, ?_⟩
  · rintro u ⟨⟩
    exact ⟨rfl, rfl⟩
  · rintro u ⟨⟩
    exact first

theorem cons {line : List Level} {turns : List Turn} {args : List Expr} {span : Span}
    {vs : List Value} (climbs : Climbs c cur line (u :: turns) m m') (done : t.Done c cur)
    (calls : t.Calls cur u args span vs) :
    Climbs c cur (t.level :: line) (t :: u :: turns) t.entered t.ended := by
  refine ⟨?_, List.forall_mem_cons.2 ⟨done, climbs.done⟩,
    .cons_cons ⟨args, span, vs, calls⟩ climbs.calls, ?_, ?_⟩
  · rw [List.map_cons, climbs.levels]
  · rintro u ⟨⟩
    exact ⟨rfl, rfl⟩
  · intro v last
    rw [List.getLast?_cons_cons] at last
    exact climbs.root v last

end Climbs

/-- A constructor whose own statements run through in the frame that it starts in. -/
theorem Turn.done_opening {c : Context} {l : Level} {k : Nat} {caller : Frame} {cur : Value}
    {args : List Value} {m n : Machine} {flow : Flow} {s : State} (here : l.In m.heap)
    (block : (Host.of k c).executeBlock l.own
      ⟨(m.heap.cls l.cls).opening caller (m.heap.function l.constructor).decl cur args, n⟩ =
        .ok flow s)
    (stays : flow ≠ .left) :
    Turn.Done c cur ⟨l, .of k c,
      (m.heap.cls l.cls).opening caller (m.heap.function l.constructor).decl cur args, m, n,
      s.machine⟩ where
  host := ⟨k, rfl⟩
  instance_known := get?_opening here.free _ caller cur args
  parent := parent_opening _ caller _ cur args
  ran := ⟨flow, s, block, stays, rfl⟩

/-- A constructor with a `super` executes it first, then what its arguments do, then the constructor
that it runs, and last the statements of its own. -/
theorem Turn.log_of_super {t : Turn} {limit : Nat} {c : Context} {args : List Expr} {span : Span}
    {cur : Value} {cls : Class} {f : FunctionRef} {vs : List Value} {n : Machine}
    (super : t.level.super = some (args, span)) (host : t.host = .of limit c)
    (ran : (Host.of limit c).execute (.super args span) ⟨t.frame, t.entered⟩ =
      .ok .done ⟨t.frame, t.started⟩)
    (target : t.frame.parentConstructor span t.entered = .ok (cur, cls, f) t.entered)
    (handed : (Host.of limit c).evaluateAll t.frame args t.entered = .ok vs n) :
    (Host.of limit c).blockLog (runLog limit) (.super args span :: t.level.own)
        ⟨t.frame, t.entered⟩ =
      t.calling ++ (Host.of limit c).constructLog (runLog limit) t.frame cls f cur vs n ++
        t.owned := by
  have superLog : (Host.of limit c).executeLog (runLog limit) (.super args span)
      ⟨t.frame, t.entered⟩ = (Host.of limit c).evaluateAllLog (runLog limit) t.frame args t.entered ++
        (Host.of limit c).constructLog (runLog limit) t.frame cls f cur vs n :=
    superLog_ran target handed
  unfold Turn.calling Turn.owned
  rw [super, host]
  refine (Log.chain_ran ran _ _).trans ?_
  dsimp only [Host.note]
  rw [superLog]
  rfl

/-- The constructor of the class at the foot of a line does not fail, so all of them run through,
from the root on. -/
theorem construct_climbs {c : Context} {o : ObjectRef} {l : Level} {up : List Level}
    {limit : Nat} {caller : Frame} {args : List Value} {span : Span} {m m' : Machine}
    (lineage : m.heap.Lineage (l :: up))
    (ran : (Host.of limit c).construct caller (m.heap.cls l.cls) l.constructor (.object o) args
      span m = .ok () m') :
    ∃ t turns, Climbs c (.object o) (l :: up) (t :: turns) m m' ∧
      t.frame = (m.heap.cls l.cls).opening caller (m.heap.function l.constructor).decl (.object o)
        args ∧
      (Host.of limit c).constructLog (runLog limit) caller (m.heap.cls l.cls) l.constructor
          (.object o) args m =
        (t :: turns).flatMap Turn.calling ++ (t :: turns).reverse.flatMap Turn.owned := by
  induction up generalizing l limit caller args span m m' with
  | nil =>
    cases lineage with
    | root here first =>
      obtain ⟨k, flow, s, rfl, block, stays, rfl, logged⟩ := construct_ran ran
      have body : (m.heap.function l.constructor).decl.body = l.own := by
        rw [here.body, Level.body, first]
      rw [body] at block logged
      refine ⟨_, [], .single (Turn.done_opening here block stays) rfl, rfl, ?_⟩
      rw [logged, List.flatMap_singleton, List.reverse_singleton, List.flatMap_singleton]
      unfold Turn.calling
      rw [first]
      rfl
  | cons p up ih =>
    cases lineage with
    | under here calls parent lineage =>
      obtain ⟨k, flow, s, rfl, block, stays, rfl, logged⟩ := construct_ran ran
      obtain ⟨⟨es, span'⟩, super⟩ := Option.ne_none_iff_exists'.1 calls
      have body : (m.heap.function l.constructor).decl.body = .super es span' :: l.own := by
        rw [here.body, Level.body, super]
      rw [body] at block logged
      let frame : Frame :=
        (m.heap.cls l.cls).opening caller (m.heap.function l.constructor).decl (.object o) args
      obtain ⟨flow', s', first, rest⟩ := ran_of_bind block
      obtain ⟨rfl, cur, cls, f, vs, n, n', rfl, target, handed, made⟩ := super_ran first
      obtain ⟨-, known, q, above, rfl, declared⟩ := parentConstructor_ran target
      -- the frame tells the instance and the parent of the class that declares the constructor
      obtain rfl : cur = .object o :=
        Option.some.inj (known.symm.trans (get?_opening here.free _ _ _ _))
      obtain rfl : q = p.cls := by
        rw [parent_opening, parent] at above
        exact (Option.some.inj above).symm
      have up' : p.In m.heap := lineage.head
      obtain rfl : f = p.constructor := Option.some.inj (declared.symm.trans up'.declares)
      have later := later_of_ran handed
      have class_same := (up'.later later).2
      rw [← class_same] at made
      obtain ⟨u, turns, climbs, opened, logged'⟩ := ih (lineage.later later) made
      obtain ⟨entered, ended⟩ := climbs.whole u rfl
      have level : u.level = p := List.head_eq_of_cons_eq climbs.levels
      let t : Turn := ⟨l, .of k c, frame, m, n', s.machine⟩
      have done : t.Done c (.object o) := Turn.done_opening here rest stays
      have calls : t.Calls (.object o) u es span' vs := by
        refine ⟨super, ?_, ?_, ?_, ended.symm⟩
        · rw [level]
          exact target
        · rw [entered]
          exact handed
        · rw [opened, entered, level, class_same]
      refine ⟨t, u :: turns, climbs.cons done calls, rfl, ?_⟩
      rw [logged, Turn.log_of_super (t := t) super rfl first target handed, ← class_same, logged']
      simp only [List.flatMap_cons, List.reverse_cons, List.flatMap_append, List.flatMap_nil,
        List.append_nil, List.append_assoc]

/-! Frames of other bodies. -/

/-- What is executed in one frame that is no constructor's: that of a function, of a method, of a
text that is run outside of these, or of a module. -/
inductive Plain (limit : Nat) (c : Context) : List Moment → Prop
  | function (caller : Frame) (r : FunctionRef) (args : List Value) (span : Span) (m : Machine) :
    Plain limit c ((Host.of limit c).callLog (ownLog limit) caller r args span m)
  | method (caller : Frame) (r : FunctionRef) (cur : Value) (args : List Value) (span : Span)
    (m : Machine) :
    Plain limit c ((Host.of limit c).callMethodLog (ownLog limit) caller r cur args span m)
  | text {s : State} (outside : s.frame.parent = none) (text : String) :
    Plain limit c (Log.source (run limit c) (ownLog limit c) text s)
  | module (file : String) (m : Machine) :
    Plain limit c ((Host.of limit c).ofFileLog (ownLog limit) file m)

variable {limit : Nat} {c : Context}

theorem bodyLog_parent {p : Option ClassRef} {f : Function} {frame : Frame} (own : frame.parent = p)
    (m : Machine) :
    ∀ k ∈ (Host.of limit c).bodyLog (ownLog limit) f frame m, k.state.frame.parent = p :=
  (Homed.run (steady_parent p) limit c f.decl.body ⟨frame, m⟩ own).2

theorem Log.mem_after {x : EStateM Halt σ α} {next : α → Log σ} {s : σ} {k : Moment}
    (member : k ∈ Log.after x next s) : ∃ a t, x s = .ok a t ∧ k ∈ next a t := by
  unfold Log.after Log.chain at member
  cases ran : x s with
  | ok a t =>
    rw [ran] at member
    exact ⟨a, t, rfl, member⟩
  | error e t =>
    rw [ran] at member
    cases member

theorem constructLog_parent {caller : Frame} {cls : Class} {r : FunctionRef} {cur : Value}
    {args : List Value} {m : Machine} {k : Moment}
    (member : k ∈ (Host.of limit c).constructLog (ownLog limit) caller cls r cur args m) :
    k.state.frame.parent = cls.parent := by
  obtain ⟨heap, n, -, member⟩ := Log.mem_after member
  dsimp only at member
  split at member
  · cases member
  · exact bodyLog_parent (parent_opening cls caller _ cur args) n k member

theorem Plain.parent {log : List Moment} (plain : Plain limit c log) :
    ∀ k ∈ log, k.state.frame.parent = none := by
  intro k member
  cases plain with
  | function caller r args span m =>
    obtain ⟨heap, n, -, member⟩ := Log.mem_after member
    obtain ⟨-, n', -, member⟩ := Log.mem_after member
    refine bodyLog_parent ?_ n' k member
    rw [Frame.parent_assignAll]
    cases (heap.function r).scope with
    | none => rfl
    | some scope => rfl
  | method caller r cur args span m =>
    obtain ⟨heap, n, -, member⟩ := Log.mem_after member
    obtain ⟨-, n', -, member⟩ := Log.mem_after member
    exact bodyLog_parent (Frame.parent_assignAll _ _ _) n' k member
  | text outside text => exact (Homed.source (steady_parent none) limit c text _ outside).2 k member
  | module file m =>
    rcases Watch.Law.ofFile_cases (.of limit c) (ownLog limit) .importing file default with
      ⟨f, -, silent⟩ | ⟨p, text, -, -, -, -, logged⟩
    · rw [silent] at member
      cases member
    · rw [logged] at member
      exact (Homed.source (steady_parent none) limit _ text
        ⟨(Frame.new m.heap).1, ⟨(Frame.new m.heap).2, m.output, .empty⟩⟩ rfl).2 k member

/-- No session leaves a frame of a constructor behind. -/
theorem Reached.parent {runs : List (Files × String)} {s : State} (reached : Reached runs s) :
    s.frame.parent = none := by
  induction reached with
  | start => rfl
  | @run _ s earlier w c text ih =>
    have before : (Session.quiet s).frame.parent = none := ih
    have steady := steady_parent none
    cases w with
    | step => exact (Homed.source steady Session.unlimited c text _ before).1
    | entry =>
      unfold Way.run
      dsimp only
      cases parse text with
      | error e => exact before
      | ok b =>
        change (endState (Repl.runEntry c b (Session.quiet s))).frame.parent = none
        by_cases lone : ∃ e s, b = [.expression e s]
        · obtain ⟨e, s', rfl⟩ := lone
          unfold Repl.runEntry
          exact (Homed.evaluated (P := fun f => f.parent = none) _ _ before).1
        · rw [(Watch.Law.entry_program fun e s same => lone ⟨e, s, same⟩).1]
          exact (Homed.program steady _ c b _ before).1

theorem super_fails {host : Host} {s : State} (orphan : s.frame.parent = none) (args : List Expr)
    (span : Span) : ∃ f, (f = .noInstance ∨ f = .noParent) ∧
      host.execute (.super args span) s = .error (.fault ⟨.running f, span⟩) s := by
  have failed {f : RunFault}
      (fails : s.frame.parentConstructor span s.machine =
        .error (.fault ⟨.running f, span⟩) s.machine) :
      host.execute (.super args span) s = .error (.fault ⟨.running f, span⟩) s := by
    unfold Host.execute
    simp only [bind_apply, Exec.eval, fails]
  cases known : s.frame.get? selfName with
  | none =>
    refine ⟨.noInstance, .inl rfl, failed ?_⟩
    unfold Frame.parentConstructor
    rw [known]
    rfl
  | some v =>
    cases v with
    | object o =>
      refine ⟨.noParent, .inr rfl, failed ?_⟩
      unfold Frame.parentConstructor
      rw [known, orphan]
      rfl
    | _ =>
      refine ⟨.noInstance, .inl rfl, failed ?_⟩
      unfold Frame.parentConstructor
      rw [known]
      rfl

/-- An instance is made: its constructor and those above it take turns on it. -/
theorem create_climbs {l : Level} {up : List Level} {caller : Frame} {vs : List Value}
    {span : Span} {n m' : Machine} {v : Value} (lineage : n.heap.Lineage (l :: up))
    (ran : (Host.of limit c).create caller l.cls vs span n = .ok v m') :
    v = .object ⟨n.heap.objects.size⟩ ∧ ∃ t turns,
      Climbs c v (l :: up) (t :: turns)
        { n with heap := (n.heap.newObject (n.heap.blankInstance l.cls)).2 } m' ∧
      t.frame = (n.heap.cls l.cls).opening caller (n.heap.function l.constructor).decl v vs ∧
      (Host.of limit c).createLog (runLog limit) caller l.cls vs n =
        (t :: turns).flatMap Turn.calling ++ (t :: turns).reverse.flatMap Turn.owned := by
  have declares := lineage.head.declares
  obtain ⟨heap, k, read, ran⟩ := ran_of_bind ran
  cases read
  obtain ⟨cur, k, made, ran⟩ := ran_of_bind ran
  cases made
  rw [declares] at ran
  obtain ⟨u, k, built, ran⟩ := ran_of_bind ran
  cases ran
  let start : Machine := { n with heap := (n.heap.newObject (n.heap.blankInstance l.cls)).2 }
  have grown : n.heap.Later start.heap := later_law.newObject n.heap _
  have built : (Host.of limit c).construct caller (start.heap.cls l.cls) l.constructor
      (.object ⟨n.heap.objects.size⟩) vs span start = .ok u m' := built
  obtain ⟨t, turns, climbs, opened, logged⟩ := construct_climbs (lineage.later grown) built
  refine ⟨rfl, t, turns, climbs, opened, ?_⟩
  have read : Eval.heap n = .ok n.heap n := rfl
  have made : Eval.newObject (n.heap.blankInstance l.cls) n =
      .ok (.object ⟨n.heap.objects.size⟩) start := rfl
  rw [← logged]
  unfold Host.createLog Log.after
  rw [Log.chain_ran read, Log.chain_ran made, declares]
  rfl

/-- An instance is made from the root of its line on: `new` runs the own statements of all
constructors, each once, on the instance that it gives, and each `super` runs the constructor of the
parent of the class that declares it. In the frame of a constructor `super` never means another
class than that parent, and in no other frame is there one that it means. -/
theorem constructors_climb (limit : Nat) (c : Context) :
    (∀ {l : Level} {up : List Level} {caller : Frame} {path : ClassPath} {args : List Expr}
        {span : Span} {m m' : Machine} {v : Value}, m.heap.Lineage (l :: up) →
      m.heap.resolveClass caller path = .ok l.cls →
      (Host.of limit c).evaluate caller (.create path args span) m = .ok v m' →
      ∃ vs n t turns, (Host.of limit c).evaluateAll caller args m = .ok vs n ∧
        v = .object ⟨n.heap.objects.size⟩ ∧
        Climbs c v (l :: up) (t :: turns)
          { n with heap := (n.heap.newObject (n.heap.blankInstance l.cls)).2 } m' ∧
        t.frame = (m.heap.cls l.cls).opening caller (n.heap.function l.constructor).decl v vs ∧
        (Host.of limit c).evaluateLog (runLog limit) caller (.create path args span) m =
          (Host.of limit c).evaluateAllLog (runLog limit) caller args m ++
            ((t :: turns).flatMap Turn.calling ++ (t :: turns).reverse.flatMap Turn.owned)) ∧
    (∀ {caller : Frame} {cls : Class} {r : FunctionRef} {cur : Value} {args : List Value}
        {m : Machine} {k : Moment},
      k ∈ (Host.of limit c).constructLog (ownLog limit) caller cls r cur args m →
      ∀ span, match k.state.frame.parentConstructor span k.state.machine with
        | .ok (_, d, f) n => n = k.state.machine ∧ d.constructor = some f ∧
          ∃ p, cls.parent = some p ∧ d = n.heap.cls p
        | .error _ _ => True) ∧
    (∀ {log : List Moment} {k : Moment} {args : List Expr} {span : Span}, Plain limit c log →
      k ∈ log → k.statement = .super args span →
      ∃ f, (f = .noInstance ∨ f = .noParent) ∧
        k.host.execute k.statement k.state = .error (.fault ⟨.running f, span⟩) k.state) ∧
    ∀ {runs : List (Files × String)} {s : State}, Reached runs s → s.frame.parent = none := by
  refine ⟨?_, ?_, ?_, Reached.parent⟩
  · intro l up caller path args span m m' v lineage found ran
    obtain ⟨heap, m₁, read, ran⟩ := ran_of_bind ran
    cases read
    rw [found] at ran
    obtain ⟨r, m₂, resolved, ran⟩ := ran_of_bind ran
    cases resolved
    obtain ⟨vs, n, handed, ran⟩ := ran_of_bind ran
    have later := later_of_ran handed
    obtain ⟨rfl, t, turns, climbs, opened, logged⟩ := create_climbs (lineage.later later) ran
    refine ⟨vs, n, t, turns, handed, rfl, climbs, ?_, ?_⟩
    · rw [← (lineage.head.later later).2]
      exact opened
    · have resolved : Eval.lift (m.heap.resolveClass caller path) span m = .ok l.cls m := by
        rw [found]
        rfl
      rw [← logged]
      change Log.after (Eval.lift (m.heap.resolveClass caller path) span) _ m = _
      unfold Log.after
      rw [Log.chain_ran resolved, Log.chain_ran handed]
      rfl
  · intro caller cls r cur args m k member span
    split
    · rename_i d f n target
      obtain ⟨rfl, -, p, parent, is, declared⟩ := parentConstructor_ran target
      exact ⟨rfl, declared, p, (constructLog_parent member).symm.trans parent, is⟩
    · trivial
  · intro log k args span plain member is
    rw [is]
    exact super_fails (plain.parent k member) args span

/-! Three classes whose constructors put numbers into one list, and a function with a `super`. -/

def pushes (n : Int64) : Stmt :=
  .expression (.method (.property (.name selfName default) "log" default) "add"
    [.literal (.int n) default] default) default

def ground : Level where
  cls := ⟨0⟩
  constructor := ⟨0⟩
  super := none
  own := [.assign (.property (.name selfName default) "log") (.list [] default) default, pushes 1]

def middle : Level := ⟨⟨1⟩, ⟨1⟩, some ([], default), [pushes 2]⟩

def summit : Level := ⟨⟨2⟩, ⟨2⟩, some ([], default), [pushes 3]⟩

def storeys : Machine where
  heap := {
    lists := #[]
    objects := #[]
    classes := #[⟨"A", none, .empty, [], some ⟨0⟩⟩, ⟨"B", some ⟨0⟩, .empty, [], some ⟨1⟩⟩,
      ⟨"C", some ⟨1⟩, .empty, [], some ⟨2⟩⟩]
    functions := #[⟨⟨"init", [], ground.body, default⟩, none, false⟩,
      ⟨⟨"init", [], middle.body, default⟩, none, false⟩,
      ⟨⟨"init", [], summit.body, default⟩, none, false⟩,
      ⟨⟨"go", [], [.super [] default], default⟩, none, false⟩]
    tables := #[.empty] }
  output := ""
  shared := .empty

theorem storeys_lineage : storeys.heap.Lineage [summit, middle, ground] :=
  .under ⟨rfl, by decide, rfl, nofun⟩ nofun rfl <|
    .under ⟨rfl, by decide, rfl, nofun⟩ nofun rfl <|
      .root ⟨rfl, by decide, rfl, nofun⟩ rfl

/-- The numbers are put in from the root on. A function called by a constructor has no `super`. -/
theorem storeys_climbed :
    let c : Context := .inMemory ⟨[], []⟩ .working
    let caller : Frame := ⟨Bindings.empty.insert "C" (.cls ⟨2⟩), ⟨0⟩, none⟩
    let building : Frame := ⟨Bindings.empty.insert selfName (.object ⟨0⟩), ⟨0⟩, some ⟨0⟩⟩
    (∃ v m' t turns,
      (Host.of 9 c).evaluate caller (.create ⟨"C", []⟩ [] default) storeys = .ok v m' ∧
      (m'.heap.list ⟨0⟩).toList = [.int 1, .int 2, .int 3] ∧
      Climbs c v [summit, middle, ground] (t :: turns)
        { storeys with heap := (storeys.heap.newObject (storeys.heap.blankInstance ⟨2⟩)).2 } m') ∧
    (∃ k ∈ (Host.of 9 c).constructLog (ownLog 9) caller (storeys.heap.cls ⟨1⟩) ⟨1⟩ (.object ⟨0⟩) []
        storeys, ∃ n, k.state.frame.parentConstructor default k.state.machine =
          .ok (.object ⟨0⟩, n.heap.cls ⟨0⟩, ⟨0⟩) n) ∧
    (∃ k ∈ (Host.of 9 c).callLog (ownLog 9) building ⟨3⟩ [] default storeys, ∃ f,
      (f = .noInstance ∨ f = .noParent) ∧
        k.host.execute k.statement k.state = .error (.fault ⟨.running f, default⟩) k.state) ∧
    State.start.frame.parent = none := by
  intro c caller building
  obtain ⟨climb, own, orphan, outside⟩ := constructors_climb 9 c
  let made := (Host.of 9 c).evaluate caller (.create ⟨"C", []⟩ [] default) storeys
  obtain ⟨v, m', ran⟩ : ∃ v m', made = .ok v m' := ok_of_succeeded (by decide +kernel)
  have listed : ((endState made).heap.list ⟨0⟩).toList = [.int 1, .int 2, .int 3] := by
    decide +kernel
  rw [ran] at listed
  obtain ⟨vs, n, t, turns, handed, -, climbs, -⟩ := climb storeys_lineage rfl ran
  cases handed
  let inner : State :=
    ⟨(storeys.heap.cls ⟨1⟩).opening caller ⟨"init", [], middle.body, default⟩ (.object ⟨0⟩) [],
      storeys⟩
  have entered : ⟨.of 8 c, .super [] default, inner⟩ ∈ (Host.of 9 c).constructLog (ownLog 9) caller
      (storeys.heap.cls ⟨1⟩) ⟨1⟩ (.object ⟨0⟩) [] storeys := .head _
  have called : ⟨.of 8 c, .super [] default, ⟨building.callee, storeys⟩⟩ ∈
      (Host.of 9 c).callLog (ownLog 9) building ⟨3⟩ [] default storeys := .head _
  have target : inner.frame.parentConstructor default inner.machine =
      .ok (.object ⟨0⟩, storeys.heap.cls ⟨0⟩, ⟨0⟩) storeys := rfl
  have means := own entered default
  rw [target] at means
  obtain ⟨-, -, p, parent, is⟩ := means
  cases parent
  refine ⟨⟨v, m', t, turns, ran, listed, climbs⟩, ⟨_, entered, storeys, target⟩,
    ⟨_, called, orphan (.function building ⟨3⟩ [] default storeys) called rfl⟩, outside .start⟩

end Script
