import Script.Session

/-! Bounds on calls and on rounds of loops. A run that does not reach its bound is the same run within
any larger one, so that two bounds which a run stays within cannot be told apart. -/

namespace Script

variable {σ α β : Type} {x y : EStateM Halt σ α}

theorem bind_apply (x : EStateM Halt σ α) (f : α → EStateM Halt σ β) (s : σ) :
    (x >>= f) s =
      match x s with
      | .ok a t => f a t
      | .error e t => .error e t := by
  change EStateM.bind x f s = _
  unfold EStateM.bind
  cases x s <;> rfl

theorem ran_bind {f : α → EStateM Halt σ β} {s t : σ} {a : α} (ran : x s = .ok a t) :
    (x >>= f) s = f a t := by
  rw [bind_apply, ran]

theorem ran_of_bind {f : α → EStateM Halt σ β} {s t : σ} {b : β}
    (ran : (x >>= f) s = .ok b t) : ∃ a u, x s = .ok a u ∧ f a u = .ok b t := by
  rw [bind_apply] at ran
  cases first : x s with
  | ok a u =>
    rw [first] at ran
    exact ⟨a, u, rfl, ran⟩
  | error e u =>
    rw [first] at ran
    cases ran

/-- The run comes to its end, and not to its bound. -/
def Ended : EStateM.Result Halt σ α → Prop
  | .error .exhausted _ => False
  | _ => True

instance (r : EStateM.Result Halt σ α) : Decidable (Ended r) :=
  match r with
  | .error .exhausted _ => .isFalse id
  | .error (.fault _) _ => .isTrue trivial
  | .ok _ _ => .isTrue trivial

/-- The second does what the first does, unless the first stops at its bound. -/
def Widens (x y : EStateM Halt σ α) : Prop :=
  ∀ s, (∃ t, x s = .error .exhausted t) ∨ x s = y s

namespace Widens

theorem refl (x : EStateM Halt σ α) : Widens x x := fun _ => .inr rfl

theorem exhausted (y : EStateM Halt σ α) : Widens (throw .exhausted) y := fun s => .inl ⟨s, rfl⟩

theorem eq (wider : Widens x y) {s : σ} (ended : Ended (x s)) : x s = y s := by
  rcases wider s with ⟨t, stopped⟩ | same
  · rw [stopped] at ended
    exact ended.elim
  · exact same

theorem bind {f g : α → EStateM Halt σ β} (first : Widens x y) (next : ∀ a, Widens (f a) (g a)) :
    Widens (x >>= f) (y >>= g) := by
  intro s
  rw [bind_apply, bind_apply]
  rcases first s with ⟨t, stopped⟩ | same
  · rw [stopped]
    exact .inl ⟨t, rfl⟩
  · rw [← same]
    cases x s with
    | ok a t => exact next a t
    | error e t => exact .inr rfl

theorem ite {c : Prop} [Decidable c] {x' y' : EStateM Halt σ α} (yes : Widens x y)
    (no : Widens x' y') : Widens (if c then x else x') (if c then y else y') := by
  split
  · exact yes
  · exact no

theorem eval {f g : Frame → Eval α} (each : ∀ frame, Widens (f frame) (g frame)) :
    Widens (Exec.eval f) (Exec.eval g) := by
  rintro ⟨frame, m⟩
  unfold Exec.eval
  dsimp only
  rcases each frame m with ⟨t, stopped⟩ | same
  · rw [stopped]
    exact .inl ⟨_, rfl⟩
  · rw [same]
    exact .inr rfl

theorem inside {x y : Exec α} (wider : Widens x y) (frame : Frame) :
    Widens (Exec.inside frame x) (Exec.inside frame y) := by
  intro m
  unfold Exec.inside
  rcases wider ⟨frame, m⟩ with ⟨t, stopped⟩ | same
  · rw [stopped]
    exact .inl ⟨_, rfl⟩
  · rw [same]
    exact .inr rfl

theorem module (access : Access) (file : String) (s : Span) {x y : Exec Unit} (wider : Widens x y) :
    Widens (Module.run access file s x) (Module.run access file s y) := by
  intro m
  unfold Module.run
  dsimp only
  rcases wider ⟨(Frame.new m.heap).1, (Frame.new m.heap).2, m.output, .empty⟩ with
    ⟨t, stopped⟩ | same
  · rw [stopped]
    exact .inl ⟨_, rfl⟩
  · rw [same]
    exact .inr rfl

theorem truth {x y : Eval Value} (wider : Widens x y) : Widens (Eval.truth x) (Eval.truth y) :=
  wider.bind fun _ => refl _

/-! Loops. -/

theorem next {rest rest' : Exec Flow} (wider : Widens rest rest') (flow : Flow) :
    Widens
      (match flow with
        | .done => rest
        | .left => return .done
        | .gave v => return .gave v)
      (match flow with
        | .done => rest'
        | .left => return .done
        | .gave v => return .gave v) := by
  cases flow with
  | done => exact wider
  | left => exact refl _
  | gave v => exact refl _

theorem repeatWhile {test test' : Exec Bool} {body body' : Exec Flow} (tests : Widens test test')
    (bodies : Widens body body') {n m : Nat} (less : n ≤ m) :
    Widens (Exec.repeatWhile test body n) (Exec.repeatWhile test' body' m) := by
  induction n generalizing m with
  | zero => exact exhausted _
  | succ n ih =>
    obtain ⟨m, rfl⟩ := Nat.exists_eq_succ_of_ne_zero (Nat.ne_zero_of_lt less)
    apply tests.bind
    intro b
    exact ite (bodies.bind (next (ih (Nat.le_of_succ_le_succ less)))) (refl _)

theorem visit {body body' : Exec Flow} (bodies : Widens body body')
    (rounds : List (List (String × Value))) :
    Widens (Exec.visit body rounds) (Exec.visit body' rounds) := by
  induction rounds with
  | nil => exact refl _
  | cons bindings rounds ih => exact (refl _).bind fun _ => bodies.bind (next ih)

theorem count (name : String) {body body' : Exec Flow} (bodies : Widens body body') (n : Nat)
    (i : Int) : Widens (Exec.count name body n i) (Exec.count name body' n i) := by
  induction n generalizing i with
  | zero => exact refl _
  | succ n ih => exact (refl _).bind fun _ => bodies.bind (next (ih (i + 1)))

/-! Programs. -/

theorem topLevel {run run' : Block → Exec Flow} (each : ∀ b, Widens (run b) (run' b)) (b : Block) :
    Widens (topLevel run b) (topLevel run' b) := by
  induction b with
  | nil => exact refl _
  | cons s b ih =>
    apply (each [s]).bind
    intro flow
    cases flow with
    | done => exact ih
    | left | gave => exact refl _

theorem runSource {run run' : Block → Exec Flow} (each : ∀ b, Widens (run b) (run' b))
    (text : String) : Widens (runSource run text) (runSource run' text) := by
  unfold Script.runSource
  cases parse text with
  | ok b => exact topLevel each _
  | error e => exact refl _

end Widens

/-- The second way to run nested blocks does what the first does, unless that stops at its bound. -/
def NestedWidens (f g : Context → Block → Exec Flow) : Prop :=
  ∀ c b, Widens (f c b) (g c b)

namespace NestedWidens

variable {c : Context} {n m : Nat} {f g : Context → Block → Exec Flow}

/-! Calls. -/

theorem body (nested : NestedWidens f g) (function : Function) (frame : Frame) :
    Widens (Host.body ⟨c, n, f⟩ function frame) (Host.body ⟨c, m, g⟩ function frame) :=
  ((nested c _).inside frame).bind fun _ => .refl _

theorem call (nested : NestedWidens f g) (caller : Frame) (r : FunctionRef) (args : List Value)
    (s : Span) :
    Widens (Host.call ⟨c, n, f⟩ caller r args s) (Host.call ⟨c, m, g⟩ caller r args s) :=
  (Widens.refl _).bind fun _ => (Widens.refl _).bind fun _ => nested.body _ _

theorem construct (nested : NestedWidens f g) (caller : Frame) (cls : Class) (r : FunctionRef)
    (self : Value) (args : List Value) (s : Span) :
    Widens (Host.construct ⟨c, n, f⟩ caller cls r self args s)
      (Host.construct ⟨c, m, g⟩ caller cls r self args s) := by
  apply (Widens.refl _).bind
  intro h
  have run (frame : Frame) :
      Widens (Host.body ⟨c, n, f⟩ (h.function r) frame >>= fun _ => pure PUnit.unit)
        (Host.body ⟨c, m, g⟩ (h.function r) frame >>= fun _ => pure PUnit.unit) :=
    (nested.body _ frame).bind fun _ => .refl _
  exact .ite ((Widens.refl _).bind fun _ => run _) (run _)

theorem create (nested : NestedWidens f g) (caller : Frame) (r : ClassRef) (args : List Value)
    (s : Span) :
    Widens (Host.create ⟨c, n, f⟩ caller r args s) (Host.create ⟨c, m, g⟩ caller r args s) := by
  apply (Widens.refl _).bind
  intro h
  apply (Widens.refl _).bind
  intro self
  dsimp only
  cases (h.cls r).constructor with
  | some made => exact (nested.construct caller _ made self args s).bind fun _ => .refl _
  | none => exact .refl _

theorem callMethod (nested : NestedWidens f g) (caller : Frame) (r : FunctionRef) (self : Value)
    (args : List Value) (s : Span) :
    Widens (Host.callMethod ⟨c, n, f⟩ caller r self args s)
      (Host.callMethod ⟨c, m, g⟩ caller r self args s) :=
  (Widens.refl _).bind fun _ => (Widens.refl _).bind fun _ => nested.body _ _

/-! Expressions. -/

theorem callOn (nested : NestedWidens f g) (caller : Frame) (v : Value) (name : String)
    (callee : Callee) (args : List Value) (s : Span) :
    Widens (Host.callOn ⟨c, n, f⟩ caller v name callee args s)
      (Host.callOn ⟨c, m, g⟩ caller v name callee args s) := by
  cases callee with
  | method r => exact nested.callMethod caller r v args s
  | function r => exact nested.call caller r args s
  | cls r => exact nested.create caller r args s
  | builtin => exact .refl _

mutual

theorem evaluate (nested : NestedWidens f g) (frame : Frame) (e : Expr) :
    Widens (Host.evaluate ⟨c, n, f⟩ frame e) (Host.evaluate ⟨c, m, g⟩ frame e) := by
  cases e with
  | literal v s => exact .refl _
  | name x s => exact .refl _
  | binary op l r s =>
    exact (evaluate nested frame l).bind fun _ => (evaluate nested frame r).bind fun _ => .refl _
  | negate e s => exact (evaluate nested frame e).bind fun _ => .refl _
  | logic op l r s =>
    apply (evaluate nested frame l).truth.bind
    intro b
    exact .ite (.refl _) ((evaluate nested frame r).truth.bind fun _ => .refl _)
  | call x args s =>
    apply (Widens.refl _).bind
    intro r
    exact (evaluateAll nested frame args).bind fun _ => nested.call frame r _ s
  | method e x args s =>
    apply (evaluate nested frame e).bind
    intro v
    apply (Widens.refl _).bind
    intro callee
    exact (evaluateAll nested frame args).bind fun _ => nested.callOn frame v x callee _ s
  | property e x s => exact (evaluate nested frame e).bind fun _ => .refl _
  | index e i s =>
    exact (evaluate nested frame e).bind fun _ => (evaluate nested frame i).bind fun _ => .refl _
  | group e s => exact evaluate nested frame e
  | list items s => exact (evaluateAll nested frame items).bind fun _ => .refl _
  | object entries s => exact (evaluateEntries nested frame entries _).bind fun _ => .refl _
  | create path args s =>
    apply (Widens.refl _).bind
    intro h
    apply (Widens.refl _).bind
    intro cls
    exact (evaluateAll nested frame args).bind fun _ => nested.create frame cls _ s

theorem evaluateAll (nested : NestedWidens f g) (frame : Frame) (es : List Expr) :
    Widens (Host.evaluateAll ⟨c, n, f⟩ frame es) (Host.evaluateAll ⟨c, m, g⟩ frame es) := by
  cases es with
  | nil => exact .refl _
  | cons e es =>
    exact (evaluate nested frame e).bind fun _ => (evaluateAll nested frame es).bind fun _ => .refl _

theorem evaluateEntries (nested : NestedWidens f g) (frame : Frame) (es : List (String × Expr))
    (o : Object Value) :
    Widens (Host.evaluateEntries ⟨c, n, f⟩ frame es o)
      (Host.evaluateEntries ⟨c, m, g⟩ frame es o) := by
  match es with
  | [] => exact .refl _
  | (key, e) :: rest =>
    exact (evaluate nested frame e).bind fun _ => evaluateEntries nested frame rest _

end

/-! Modules. -/

theorem ofFile (nested : NestedWidens f g) (access : Access) (file : String) (s : Span) :
    Widens (Module.ofFile ⟨c, n, f⟩ access file s) (Module.ofFile ⟨c, m, g⟩ access file s) := by
  unfold Module.ofFile
  dsimp only
  split
  · exact .refl _
  · apply Widens.ite (.refl _)
    split
    · exact .refl _
    · exact .module access file s (.runSource (nested _) _)

theorem importFile (nested : NestedWidens f g) (file : String) (items : Selection) (s : Span) :
    Widens (Host.importFile ⟨c, n, f⟩ file items s) (Host.importFile ⟨c, m, g⟩ file items s) :=
  (Widens.eval fun _ => nested.ofFile .importing file s).bind fun _ => .refl _

theorem loadFile (nested : NestedWidens f g) (file name : String) (s : Span) :
    Widens (Host.loadFile ⟨c, n, f⟩ file name s) (Host.loadFile ⟨c, m, g⟩ file name s) := by
  apply Widens.bind (Widens.eval fun _ => ?_) fun _ => .refl _
  exact (nested.ofFile .loading file s).bind fun _ => .refl _

/-! Statements. -/

theorem bound (nested : NestedWidens f g) (e : Expr) :
    Widens (Host.bound ⟨c, n, f⟩ e) (Host.bound ⟨c, m, g⟩ e) :=
  .eval fun frame => (nested.evaluate frame e).bind fun _ => .refl _

theorem iterate (nested : NestedWidens f g) (header : Header) (s : Span) {x y : Exec Flow}
    (bodies : Widens x y) :
    Widens (Host.iterate ⟨c, n, f⟩ header s x) (Host.iterate ⟨c, m, g⟩ header s y) := by
  cases header with
  | range name start stop =>
    exact (nested.bound start).bind fun _ => (nested.bound stop).bind fun _ => .count name bodies _ _
  | each name e =>
    apply Widens.bind (Widens.eval fun frame => ?_) fun _ => .visit bodies _
    exact (nested.evaluate frame e).bind fun _ => .refl _
  | pairs key value e =>
    apply Widens.bind (Widens.eval fun frame => ?_) fun _ => .visit bodies _
    exact (nested.evaluate frame e).bind fun _ => .refl _

theorem assign (nested : NestedWidens f g) (target : Target) (v : Value) (s : Span) :
    Widens (Host.assign ⟨c, n, f⟩ target v s) (Host.assign ⟨c, m, g⟩ target v s) := by
  unfold Host.assign
  cases target with
  | name x => exact .refl _
  | index object key =>
    exact .eval fun frame => (nested.evaluate frame object).bind fun _ =>
      (nested.evaluate frame key).bind fun _ => .refl _
  | property object x =>
    exact .eval fun frame => (nested.evaluate frame object).bind fun _ => .refl _

theorem addMembers (nested : NestedWidens f g) (detached : Frame) (ms : List Member) (cls : Class) :
    Widens (Host.addMembers ⟨c, n, f⟩ detached ms cls)
      (Host.addMembers ⟨c, m, g⟩ detached ms cls) := by
  induction ms generalizing cls with
  | nil => exact .refl _
  | cons member ms ih =>
    cases member with
    | property x e s => exact (nested.evaluate detached e).bind fun _ => ih _
    | method d => exact (Widens.refl _).bind fun _ => ih _
    | constructor d => exact (Widens.refl _).bind fun _ => ih _

theorem declaredClass (nested : NestedWidens f g) (frame : Frame) (name : String)
    (parent : Option ClassPath) (ms : List Member) (s : Span) :
    Widens (Host.declaredClass ⟨c, n, f⟩ frame name parent ms s)
      (Host.declaredClass ⟨c, m, g⟩ frame name parent ms s) := by
  have built (p : Option ClassRef) :
      Widens
        (do
          let made := Class.under (← Eval.heap) name p
          let detached ← Eval.onHeap Frame.new
          let cls ← Host.addMembers ⟨c, n, f⟩ detached ms made
          return Value.cls (← Eval.onHeap (·.newClass cls)))
        (do
          let made := Class.under (← Eval.heap) name p
          let detached ← Eval.onHeap Frame.new
          let cls ← Host.addMembers ⟨c, m, g⟩ detached ms made
          return Value.cls (← Eval.onHeap (·.newClass cls))) := by
    apply (Widens.refl _).bind
    intro h
    apply (Widens.refl _).bind
    intro detached
    exact (nested.addMembers detached ms _).bind fun _ => .refl _
  cases parent with
  | none => exact built none
  | some path =>
    have whole := (Widens.refl (do
      return some (← Eval.lift ((← Eval.heap).resolveClass frame path) s))).bind built
    exact whole

mutual

theorem execute (nested : NestedWidens f g) (less : n ≤ m) (x : Stmt) :
    Widens (Host.execute ⟨c, n, f⟩ x) (Host.execute ⟨c, m, g⟩ x) := by
  cases x with
  | expression e s => exact (Widens.eval fun frame => nested.evaluate frame e).bind fun _ => .refl _
  | print e s =>
    apply Widens.bind (Widens.eval fun frame => ?_) fun _ => .refl _
    exact (nested.evaluate frame e).bind fun _ => .refl _
  | assign target e s =>
    apply (Widens.eval fun frame => nested.evaluate frame e).bind
    intro v
    exact (nested.assign target v s).bind fun _ => .refl _
  | branch bs o s =>
    have chosen := executeBranches nested less bs
    cases o with
    | none => exact chosen.bind fun _ => .refl _
    | some b =>
      apply chosen.bind
      intro flow
      cases flow with
      | some flow => exact .refl _
      | none => exact executeBlock nested less b
  | loop e b s =>
    exact .repeatWhile (.eval fun frame => (nested.evaluate frame e).truth)
      (executeBlock nested less b) less
  | iterate header b s => exact nested.iterate header s (executeBlock nested less b)
  | leave s => exact .refl _
  | give value s =>
    cases value with
    | none => exact .refl _
    | some e => exact (Widens.eval fun frame => nested.evaluate frame e).bind fun _ => .refl _
  | function d s => exact .refl _
  | init d s => exact .refl _
  | cls x parent ms s =>
    exact (Widens.eval fun frame => nested.declaredClass frame x parent ms s).bind fun _ => .refl _
  | super args s =>
    apply Widens.bind (Widens.eval fun frame => ?_) fun _ => .refl _
    apply (Widens.refl _).bind
    intro found
    exact (nested.evaluateAll frame args).bind fun _ => nested.construct frame _ _ _ _ s
  | share names s => exact .refl _
  | imports file items s => exact (nested.importFile file items s).bind fun _ => .refl _
  | load file x s => exact (nested.loadFile file x s).bind fun _ => .refl _

theorem executeBlock (nested : NestedWidens f g) (less : n ≤ m) (b : List Stmt) :
    Widens (Host.executeBlock ⟨c, n, f⟩ b) (Host.executeBlock ⟨c, m, g⟩ b) := by
  cases b with
  | nil => exact .refl _
  | cons x b =>
    apply (execute nested less x).bind
    intro flow
    cases flow with
    | done => exact executeBlock nested less b
    | left | gave => exact .refl _

theorem executeBranches (nested : NestedWidens f g) (less : n ≤ m)
    (bs : List (Expr × List Stmt)) :
    Widens (Host.executeBranches ⟨c, n, f⟩ bs) (Host.executeBranches ⟨c, m, g⟩ bs) := by
  match bs with
  | [] => exact .refl _
  | (e, b) :: rest =>
    apply (Widens.eval fun frame => (nested.evaluate frame e).truth).bind
    intro holds
    exact .ite ((executeBlock nested less b).bind fun _ => .refl _)
      (executeBranches nested less rest)

end

end NestedWidens

/-- A run that does not stop at its bound is the same run within any larger one. -/
theorem run_widens {n m : Nat} (less : n ≤ m) : NestedWidens (run n) (run m) := by
  induction n generalizing m with
  | zero => exact fun _ _ => .exhausted _
  | succ n ih =>
    obtain ⟨m, rfl⟩ := Nat.exists_eq_succ_of_ne_zero (Nat.ne_zero_of_lt less)
    have below := Nat.le_of_succ_le_succ less
    exact fun c b => (ih below).executeBlock below b

end Script
