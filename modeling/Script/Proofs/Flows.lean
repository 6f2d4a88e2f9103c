import Script.Eval.Statement
import Script.Proofs.Safe

/-! How statements end. One leaves a loop only by a `break` of its own that is in no loop inside it,
and gives a value only by a `return` of its own. What stands in declarations does not count. -/

namespace Script

mutual

/-- Whether a statement holds a `break` that no loop inside it encloses. -/
def Stmt.leaves : Stmt → Bool
  | .leave _ => true
  | .branch branches otherwise _ =>
    branchLeaves branches ||
      match otherwise with
      | some b => blockLeaves b
      | none => false
  | _ => false

def blockLeaves : List Stmt → Bool
  | [] => false
  | s :: rest => s.leaves || blockLeaves rest

def branchLeaves : List (Expr × List Stmt) → Bool
  | [] => false
  | (_, b) :: rest => blockLeaves b || branchLeaves rest

end

mutual

/-- Whether a statement holds a `return`. -/
def Stmt.gives : Stmt → Bool
  | .give .. => true
  | .branch branches otherwise _ =>
    branchGives branches ||
      match otherwise with
      | some b => blockGives b
      | none => false
  | .loop _ body _ | .iterate _ body _ => blockGives body
  | _ => false

def blockGives : List Stmt → Bool
  | [] => false
  | s :: rest => s.gives || blockGives rest

def branchGives : List (Expr × List Stmt) → Bool
  | [] => false
  | (_, b) :: rest => blockGives b || branchGives rest

end

/-- The flow leaves a loop only if `leaves` holds, and gives a value only if `gives` does. -/
def Flow.Within (leaves gives : Bool) : Flow → Prop
  | .done => True
  | .left => leaves = true
  | .gave _ => gives = true

namespace Flow.Within

variable {l l' g g' : Bool} {flow : Flow}

theorem or_left (h : flow.Within l g) : flow.Within (l || l') (g || g') := by
  cases flow with
  | done => trivial
  | left => exact Bool.or_eq_true_iff.2 (.inl h)
  | gave v => exact Bool.or_eq_true_iff.2 (.inl h)

theorem or_right (h : flow.Within l' g') : flow.Within (l || l') (g || g') := by
  cases flow with
  | done => trivial
  | left => exact Bool.or_eq_true_iff.2 (.inr h)
  | gave v => exact Bool.or_eq_true_iff.2 (.inr h)

end Flow.Within

/-- Whatever state the statement starts from. -/
abbrev Flows (leaves gives : Bool) (x : Exec Flow) : Prop :=
  Safe (fun _ : State => True) (fun _ => True) (Flow.Within leaves gives) x

namespace Flows

variable {α : Type} {l l' g g' : Bool}

theorem any (x : Exec α) : Safe (fun _ : State => True) (fun _ => True) (fun _ => True) x := by
  intro s _
  cases x s with
  | ok a t => exact ⟨trivial, trivial⟩
  | error e t => exact ⟨trivial, trivial⟩

theorem after {x : Exec α} {f : α → Exec Flow} (h : ∀ a, Flows l g (f a)) : Flows l g (x >>= f) :=
  Safe.bind (any x) fun a _ => h a

theorem done : Flows l g (pure .done) := Safe.pure trivial

theorem or_right {x : Exec Flow} (h : Flows l' g' x) : Flows (l || l') (g || g') x :=
  Safe.weaken h (fun _ allowed => allowed) fun _ within => within.or_right

/-- What follows a round of a loop, which no `break` in its body gets out of. -/
theorem next {rest : Exec Flow} (h : Flows false g rest) (flow : Flow) :
    flow.Within l g → Flows false g
      (match flow with
        | .done => rest
        | .left => return .done
        | .gave v => return .gave v) := by
  intro within
  cases flow with
  | done => exact h
  | left => exact done
  | gave v => exact Safe.pure within

theorem repeatWhile (test : Exec Bool) {body : Exec Flow} (rounds : Flows l g body) (n : Nat) :
    Flows false g (Exec.repeatWhile test body n) := by
  induction n with
  | zero => exact Safe.throw trivial
  | succ n ih =>
    apply after
    intro b
    exact Safe.ite (Safe.bind rounds (next ih)) done

theorem visit {body : Exec Flow} (rounds : Flows l g body)
    (bindings : List (List (String × Value))) : Flows false g (Exec.visit body bindings) := by
  induction bindings with
  | nil => exact done
  | cons bs bindings ih =>
    apply after
    intro _
    exact Safe.bind rounds (next ih)

theorem count (name : String) {body : Exec Flow} (rounds : Flows l g body) (n : Nat) (i : Int) :
    Flows false g (Exec.count name body n i) := by
  induction n generalizing i with
  | zero => exact done
  | succ n ih =>
    apply after
    intro _
    exact Safe.bind rounds (next (ih (i + 1)))

theorem iterate {host : Host} (header : Header) (s : Span) {body : Exec Flow}
    (rounds : Flows l g body) : Flows false g (host.iterate header s body) := by
  cases header with
  | range x a b =>
    apply after
    intro m
    exact after fun n => count x rounds _ _
  | each x e => exact after fun vs => visit rounds _
  | pairs x y e => exact after fun ps => visit rounds _

variable {host : Host}

mutual

theorem execute (x : Stmt) : Flows x.leaves x.gives (host.execute x) := by
  cases x with
  | branch bs o s =>
    cases o with
    | none =>
      simp only [Stmt.leaves, Stmt.gives, Bool.or_false]
      apply Safe.bind (executeBranches bs)
      intro flow within
      cases flow with
      | some flow => exact Safe.pure (within flow rfl)
      | none => exact done
    | some b =>
      simp only [Stmt.leaves, Stmt.gives]
      apply Safe.bind (executeBranches bs)
      intro flow within
      cases flow with
      | some flow =>
        exact Safe.pure (within flow rfl).or_left
      | none => exact or_right (executeBlock b)
  | loop e b s => exact repeatWhile _ (executeBlock b) _
  | iterate header b s => exact iterate header s (executeBlock b)
  | leave s => exact Safe.pure rfl
  | give value s =>
    cases value with
    | none => exact Safe.pure rfl
    | some e => exact after fun v => Safe.pure rfl
  | init d s =>
    have refused : ExecSafe (fun _ => True) (fun _ => True) (Flow.Within false false)
        (Exec.eval fun _ => Eval.fail .strayInit s) := Safe.eval fun _ => Safe.throw trivial
    exact refused
  | assign target e s => exact after fun v => after fun _ => done
  | cls name parent ms s => exact after fun v => after fun _ => done
  | _ => exact after fun _ => done

theorem executeBlock (b : List Stmt) : Flows (blockLeaves b) (blockGives b) (host.executeBlock b) := by
  cases b with
  | nil => exact done
  | cons x b =>
    simp only [blockLeaves, blockGives]
    apply Safe.bind (execute x)
    intro flow within
    cases flow with
    | done => exact or_right (executeBlock b)
    | left => exact Safe.pure within.or_left
    | gave v => exact Safe.pure within.or_left

theorem executeBranches (bs : List (Expr × List Stmt)) :
    Safe (fun _ : State => True) (fun _ => True)
      (fun chosen => ∀ flow ∈ chosen, Flow.Within (branchLeaves bs) (branchGives bs) flow)
      (host.executeBranches bs) := by
  match bs with
  | [] => exact Safe.pure nofun
  | (e, b) :: rest =>
    simp only [branchLeaves, branchGives]
    apply Safe.bind (any _)
    intro c _
    apply Safe.ite
    · apply Safe.bind (executeBlock b)
      intro flow within
      apply Safe.pure
      rintro _ ⟨⟩
      exact within.or_left
    · apply Safe.weaken (executeBranches rest) (fun _ allowed => allowed)
      intro chosen within flow member
      exact (within flow member).or_right

end

end Flows

end Script
