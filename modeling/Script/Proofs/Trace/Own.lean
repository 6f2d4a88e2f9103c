import Script.Proofs.Trace.Law
import Script.Proofs.Writes

/-! What is executed in one frame, apart from the bodies that are called there. The statements in a
frame bind its variables, but leave its function table and the class that `super` means as they
are. -/

namespace Script

variable {σ α β : Type}

/-- What no body executes. -/
def quiet : Context → Block → Log State := fun _ _ => .silent

/-- What the run of a block executes in its own frame. -/
def ownLog : Nat → Context → Block → Log State
  | 0, _, _ => .silent
  | n + 1, c, b => (Host.of n c).blockLog quiet b

/-! Evaluations execute nothing themselves. -/

theorem Log.chain_silent {x : EStateM Halt σ α} {first : Log σ} {next : α → Log σ}
    (before : first = .silent) (rest : ∀ a, next a = .silent) :
    Log.chain x first next = .silent := by
  funext s
  unfold Log.chain
  rw [before]
  cases x s with
  | ok a t => exact congrFun (rest a) t
  | error e t => rfl

theorem Log.after_silent {x : EStateM Halt σ α} {next : α → Log σ}
    (rest : ∀ a, next a = .silent) : Log.after x next = .silent :=
  chain_silent rfl rest

namespace Host

variable (host : Host)

theorem callLog_quiet (caller : Frame) (r : FunctionRef) (args : List Value) (s : Span) :
    host.callLog quiet caller r args s = .silent :=
  Log.after_silent fun _ => Log.after_silent fun _ => rfl

theorem callMethodLog_quiet (caller : Frame) (r : FunctionRef) (self : Value) (args : List Value)
    (s : Span) : host.callMethodLog quiet caller r self args s = .silent :=
  Log.after_silent fun _ => Log.after_silent fun _ => rfl

theorem constructLog_quiet (caller : Frame) (c : Class) (r : FunctionRef) (self : Value)
    (args : List Value) : host.constructLog quiet caller c r self args = .silent := by
  apply Log.after_silent
  intro heap
  dsimp only
  split
  · rfl
  · rfl

theorem createLog_quiet (caller : Frame) (r : ClassRef) (args : List Value) :
    host.createLog quiet caller r args = .silent := by
  refine Log.after_silent fun heap => Log.after_silent fun self => ?_
  cases (heap.cls r).constructor with
  | none => rfl
  | some f => exact host.constructLog_quiet caller _ f self args

theorem callOnLog_quiet (caller : Frame) (v : Value) (callee : Callee) (args : List Value)
    (s : Span) : host.callOnLog quiet caller v callee args s = .silent := by
  cases callee with
  | method r => exact host.callMethodLog_quiet caller r v args s
  | function r => exact host.callLog_quiet caller r args s
  | cls r => exact host.createLog_quiet caller r args
  | builtin => rfl

variable (frame : Frame)

mutual

theorem evaluateLog_quiet (e : Expr) : host.evaluateLog quiet frame e = .silent := by
  cases e with
  | literal v s | name x s => rfl
  | binary op l r s => exact Log.chain_silent (evaluateLog_quiet l) fun _ => evaluateLog_quiet r
  | negate e s | property e x s | group e s => exact evaluateLog_quiet e
  | logic op l r s =>
    apply Log.chain_silent (evaluateLog_quiet l)
    intro b
    split
    · rfl
    · exact evaluateLog_quiet r
  | call x args s =>
    refine Log.after_silent fun r => Log.chain_silent (evaluateAllLog_quiet args) fun vs => ?_
    exact host.callLog_quiet frame r vs s
  | method e x args s =>
    refine Log.chain_silent (evaluateLog_quiet e) fun v => Log.after_silent fun callee => ?_
    refine Log.chain_silent (evaluateAllLog_quiet args) fun vs => ?_
    exact host.callOnLog_quiet frame v callee vs s
  | index e i s => exact Log.chain_silent (evaluateLog_quiet e) fun _ => evaluateLog_quiet i
  | list items s => exact evaluateAllLog_quiet items
  | object entries s => exact evaluateEntriesLog_quiet entries .empty
  | create path args s =>
    refine Log.after_silent fun heap => Log.after_silent fun r => ?_
    refine Log.chain_silent (evaluateAllLog_quiet args) fun vs => ?_
    exact host.createLog_quiet frame r vs

theorem evaluateAllLog_quiet (es : List Expr) :
    host.evaluateAllLog quiet frame es = .silent := by
  cases es with
  | nil => rfl
  | cons e es => exact Log.chain_silent (evaluateLog_quiet e) fun _ => evaluateAllLog_quiet es

theorem evaluateEntriesLog_quiet (entries : List (String × Expr)) (o : Object Value) :
    host.evaluateEntriesLog quiet frame entries o = .silent := by
  match entries with
  | [] => rfl
  | (key, e) :: rest =>
    exact Log.chain_silent (evaluateLog_quiet e) fun v => evaluateEntriesLog_quiet rest _

end

theorem membersLog_quiet (ms : List Member) : host.membersLog quiet frame ms = .silent := by
  induction ms with
  | nil => rfl
  | cons m ms ih =>
    cases m with
    | property x e s => exact Log.chain_silent (host.evaluateLog_quiet frame e) fun _ => ih
    | method d | constructor d => exact Log.after_silent fun _ => ih

theorem classLog_quiet (parent : Option ClassPath) (ms : List Member) (s : Span) :
    host.classLog quiet frame parent ms s = .silent :=
  Log.after_silent fun _ => Log.after_silent fun _ => Log.after_silent fun detached =>
    host.membersLog_quiet detached ms

theorem superLog_quiet (args : List Expr) (s : Span) :
    host.superLog quiet frame args s = .silent :=
  Log.after_silent fun (self, c, f) =>
    Log.chain_silent (host.evaluateAllLog_quiet frame args) fun vs =>
      host.constructLog_quiet frame c f self vs

theorem ofFileLog_quiet (file : String) : host.ofFileLog quiet file = .silent := by
  have program (run : Block → Exec Flow) (b : Block) :
      Log.topLevel run (fun _ => .silent) b = .silent := by
    induction b with
    | nil => rfl
    | cons x b ih =>
      apply Log.chain_silent rfl
      intro flow
      cases flow with
      | done => exact ih
      | left => rfl
      | gave v => rfl
  rcases Watch.Law.ofFile_cases host quiet .importing file default with
    ⟨f, -, silent⟩ | ⟨p, text, -, -, -, -, logged⟩
  · exact silent
  · have source (run : Block → Exec Flow) :
        Log.source run (fun _ => .silent) text = .silent := by
      unfold Log.source
      cases parse text with
      | ok b => exact program run _
      | error e => rfl
    rw [logged]
    funext m
    exact congrFun (source _) _

end Host

/-- A property of frames that does not depend on their variables. -/
def Steady (P : Frame → Prop) : Prop :=
  ∀ (f : Frame) (vars : Bindings Value), P f → P { f with vars := vars }

theorem steady_parent (p : Option ClassRef) : Steady fun f => f.parent = p :=
  fun _ _ same => same

/-- In a frame with the property `x` leaves it with the property, and all that it executes is
executed in such a frame. -/
def Homed (P : Frame → Prop) (x : Exec α) (l : Log State) : Prop :=
  ∀ s, P s.frame → P (endState (x s)).frame ∧ ∀ k ∈ l s, P k.state.frame

namespace Homed

variable {P : Frame → Prop} {x : Exec α} {l : Log State}

theorem silent (keeps : ∀ s, P s.frame → P (endState (x s)).frame) : Homed P x .silent :=
  fun s here => ⟨keeps s here, List.forall_mem_nil _⟩

theorem pure (a : α) : Homed P (Pure.pure a) .silent := silent fun _ => id

theorem throw (e : Halt) : Homed P (throw e : Exec α) .silent := silent fun _ => id

theorem chain {f : α → Exec β} {l' : α → Log State} (first : Homed P x l)
    (next : ∀ a, Homed P (f a) (l' a)) : Homed P (x >>= f) (.chain x l l') := by
  intro s here
  change P (endState (EStateM.bind x f s)).frame ∧ _
  unfold Log.chain EStateM.bind
  obtain ⟨mid, own⟩ := first s here
  cases run : x s with
  | ok a t =>
    rw [run] at mid
    obtain ⟨final, own'⟩ := next a t mid
    exact ⟨final, List.forall_mem_append.2 ⟨own, own'⟩⟩
  | error e t =>
    rw [run] at mid
    exact ⟨mid, List.forall_mem_append.2 ⟨own, List.forall_mem_nil _⟩⟩

/-- Nothing is executed at the end. -/
theorem ended {f : α → Exec β} (first : Homed P x l) (next : ∀ a, Homed P (f a) .silent) :
    Homed P (x >>= f) l := by
  have whole := first.chain next
  have same : Log.chain x l (fun _ => .silent) = l := by
    funext s
    unfold Log.chain
    cases x s <;> exact List.append_nil _
  rwa [same] at whole

theorem after {f : α → Exec β} {l' : α → Log State} (first : Homed P x .silent)
    (next : ∀ a, Homed P (f a) (l' a)) : Homed P (x >>= f) (.after x l') :=
  first.chain next

theorem eval {f : Frame → Eval α} {l : Frame → Log Machine} (still : ∀ frame, l frame = .silent) :
    Homed P (Exec.eval f) (.eval l) := by
  rintro ⟨frame, m⟩ here
  refine ⟨?_, fun k member => ?_⟩
  · have same : (endState (Exec.eval f ⟨frame, m⟩)).frame = frame := SameFrame.eval f ⟨frame, m⟩
    rw [same]
    exact here
  · change k ∈ l frame m at member
    rw [still frame] at member
    cases member

/-- An evaluation that executes nothing. -/
theorem evaluated (f : Frame → Eval α) : Homed P (Exec.eval f) .silent :=
  eval (l := fun _ => .silent) fun _ => rfl

theorem note {host : Host} {y : Stmt} (h : Homed P x l) : Homed P x (host.note y l) := by
  intro s here
  obtain ⟨final, own⟩ := h s here
  exact ⟨final, List.forall_mem_cons.2 ⟨here, own⟩⟩

/-! Loops. -/

section Loops

variable {body : Exec Flow}

theorem onward {rest : Exec Flow} (h : Homed P rest l) (flow : Flow) :
    Homed P
      (match flow with
        | .done => rest
        | .left => return .done
        | .gave v => return .gave v)
      (Log.onward l flow) := by
  cases flow with
  | done => exact h
  | left => exact pure _
  | gave v => exact pure _

theorem repeatWhile {test : Exec Bool} {tests : Log State} (asks : Homed P test tests)
    (runs : Homed P body l) (n : Nat) :
    Homed P (Exec.repeatWhile test body n) (.repeatWhile test tests body l n) := by
  induction n with
  | zero => exact throw _
  | succ n ih =>
    refine asks.chain fun holds => ?_
    cases holds with
    | true => exact runs.chain fun flow => onward ih flow
    | false => exact pure _

variable (steady : Steady P)

include steady

theorem assign (name : String) (v : Value) : Homed P (Exec.assign name v) .silent :=
  silent fun s here => steady s.frame _ here

theorem visit (runs : Homed P body l) (rounds : List (List (String × Value))) :
    Homed P (Exec.visit body rounds) (.visit body l rounds) := by
  have assigned (bindings : List (String × Value)) :
      Homed P (bindings.forM fun b => Exec.assign b.1 b.2) .silent := by
    induction bindings with
    | nil => exact pure _
    | cons b bindings ih => exact (assign steady b.1 b.2).after fun _ => ih
  induction rounds with
  | nil => exact pure _
  | cons bindings rounds ih =>
    exact (assigned bindings).after fun _ => runs.chain fun flow => onward ih flow

theorem count (name : String) (runs : Homed P body l) (n : Nat) (i : Int) :
    Homed P (Exec.count name body n i) (.count name body l n i) := by
  induction n generalizing i with
  | zero => exact pure _
  | succ n ih =>
    exact (assign steady name _).after fun _ => runs.chain fun flow => onward (ih (i + 1)) flow

end Loops

/-! Statements. -/

section Statements

variable {host : Host}

theorem iterate (steady : Steady P) (header : Header) (s : Span) {body : Exec Flow}
    (runs : Homed P body l) :
    Homed P (host.iterate header s body) (host.iterateLog quiet header s body l) := by
  have still (e : Expr) (frame : Frame) := host.evaluateLog_quiet frame e
  cases header with
  | range x a b =>
    exact (eval (still a)).chain fun i => (eval (still b)).chain fun j => count steady x runs _ _
  | each x e => exact (eval (still e)).chain fun vs => visit steady runs _
  | pairs x y e => exact (eval (still e)).chain fun ps => visit steady runs _

theorem target (steady : Steady P) (t : Target) (v : Value) (s : Span) :
    Homed P (host.assign t v s) (host.assignLog quiet t) := by
  unfold Host.assign Host.assignLog
  cases t with
  | name x => exact assign steady x v
  | index e i =>
    exact eval fun frame => Log.chain_silent (host.evaluateLog_quiet frame e) fun _ =>
      host.evaluateLog_quiet frame i
  | property e x => exact eval fun frame => host.evaluateLog_quiet frame e

theorem bindAll (steady : Steady P) (m : Module) (file : String) (s : Span) (names : List String) :
    Homed P (m.bind file s names) .silent := by
  have read : Homed P (get : Exec State) .silent := silent fun _ => id
  induction names with
  | nil => exact pure _
  | cons name names ih =>
    refine read.ended fun t => ?_
    split
    · exact (evaluated _).ended fun _ => ih
    · exact (assign steady name _).ended fun _ => ih
    · exact (throw _).ended fun _ => ih

theorem importFile (steady : Steady P) (file : String) (items : Selection) (s : Span) :
    Homed P (host.importFile file items s) (.eval fun _ => host.ofFileLog quiet file) := by
  have handed (m : Module) : Homed P (m.hand file items s) .silent := by
    unfold Module.hand
    cases items with
    | all =>
      have overlaid : Homed P (modify fun s : State =>
          { s with frame := { s.frame with vars := s.frame.vars.overlay m.frame.vars } }) .silent :=
        silent fun s here => steady s.frame _ here
      exact overlaid.ended fun _ => evaluated _
    | names names => exact bindAll steady m file s names
  rw [importFile_eq]
  exact (eval fun _ => host.ofFileLog_quiet file).ended handed

theorem loadFile (steady : Steady P) (file name : String) (s : Span) :
    Homed P (host.loadFile file name s) (.eval fun _ => host.ofFileLog quiet file) :=
  (eval fun _ => host.ofFileLog_quiet file).ended fun v => assign steady name v

mutual

theorem execute (steady : Steady P) (x : Stmt) :
    Homed P (host.execute x) (host.note x (host.executeLog quiet x)) := by
  apply note
  cases x with
  | expression e s | print e s =>
    exact (eval fun frame => host.evaluateLog_quiet frame e).ended fun _ => pure _
  | assign t e s =>
    refine (eval fun frame => host.evaluateLog_quiet frame e).chain fun v => ?_
    exact (target steady t v s).ended fun _ => pure _
  | branch bs o s =>
    have chosen := executeBranches steady bs
    cases o with
    | none =>
      refine chosen.chain fun flow => ?_
      cases flow with
      | some flow => exact pure flow
      | none => exact pure _
    | some b =>
      refine chosen.chain fun flow => ?_
      cases flow with
      | some flow => exact pure flow
      | none => exact executeBlock steady b
  | loop e b s =>
    exact repeatWhile (eval fun frame => host.evaluateLog_quiet frame e) (executeBlock steady b) _
  | iterate header b s => exact iterate steady header s (executeBlock steady b)
  | leave s => exact pure _
  | give value s =>
    cases value with
    | none => exact pure _
    | some e => exact (eval fun frame => host.evaluateLog_quiet frame e).ended fun _ => pure _
  | function d s | share names s => exact (evaluated _).ended fun _ => pure _
  | init d s => exact evaluated fun _ => Eval.fail .strayInit s
  | cls name parent ms s =>
    refine (eval fun frame => host.classLog_quiet frame parent ms s).ended fun v => ?_
    exact (assign steady name v).ended fun _ => pure _
  | super args s =>
    exact (eval fun frame => host.superLog_quiet frame args s).ended fun _ => pure _
  | imports file items s => exact (importFile steady file items s).ended fun _ => pure _
  | load file name s => exact (loadFile steady file name s).ended fun _ => pure _

theorem executeBlock (steady : Steady P) (b : List Stmt) :
    Homed P (host.executeBlock b) (host.blockLog quiet b) := by
  cases b with
  | nil => exact pure _
  | cons x b =>
    refine (execute steady x).chain fun flow => ?_
    cases flow with
    | done => exact executeBlock steady b
    | left => exact pure _
    | gave v => exact pure _

theorem executeBranches (steady : Steady P) (bs : List (Expr × List Stmt)) :
    Homed P (host.executeBranches bs) (host.branchesLog quiet bs) := by
  match bs with
  | [] => exact pure _
  | (e, b) :: rest =>
    refine (eval fun frame => host.evaluateLog_quiet frame e).chain fun holds => ?_
    cases holds with
    | true => exact (executeBlock steady b).ended fun _ => pure _
    | false => exact executeBranches steady rest

end

end Statements

/-- All of a block is executed in its frame. -/
theorem run (steady : Steady P) (limit : Nat) (c : Context) (b : Block) :
    Homed P (Script.run limit c b) (ownLog limit c b) := by
  cases limit with
  | zero => exact throw _
  | succ n => exact executeBlock steady b

/-- The same for the statements of a program. -/
theorem program (steady : Steady P) (limit : Nat) (c : Context) (b : Block) :
    Homed P (runProgram (Script.run limit c) b)
      (.program (Script.run limit c) (ownLog limit c) b) := by
  unfold runProgram Log.program
  generalize b.filter Stmt.isImport ++ b.filter (!·.isImport) = rows
  induction rows with
  | nil => exact pure _
  | cons x rows ih =>
    refine (run steady limit c [x]).chain fun flow => ?_
    cases flow with
    | done => exact ih
    | left => exact throw _
    | gave v => exact throw _

theorem source (steady : Steady P) (limit : Nat) (c : Context) (text : String) :
    Homed P (runSource (Script.run limit c) text)
      (.source (Script.run limit c) (ownLog limit c) text) := by
  unfold runSource Log.source
  cases parse text with
  | ok b => exact program steady limit c b
  | error e => exact throw _

end Homed

end Script
