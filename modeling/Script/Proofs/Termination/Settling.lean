import Script.Proofs.Limits
import Script.Proofs.Sound.Logic
import Script.Proofs.Termination.Renderings

/-! A logic of runs that come to an end. From a state without code a computation ends in another, or
with a fault, and never at its bound. What is known of the start may lie in the state itself, so the
logic is about one state at a time. -/

namespace Script

variable {σ α β : Type}

/-- How a computation from over `h` ends: with an answer that is good there, within the invariant
again, or with a fault. -/
def EndSettles (view : σ → Heap) (within : σ → Prop) (good : Heap → α → Prop) (h : Heap) :
    EStateM.Result Halt σ α → Prop
  | .ok a t => h.Spans (view t) ∧ within t ∧ good (view t) a
  | .error e _ => e ≠ .exhausted

def Settles (view : σ → Heap) (within : σ → Prop) (good : Heap → α → Prop) (s : σ)
    (x : EStateM Halt σ α) : Prop :=
  EndSettles view within good (view s) (x s)

abbrev EvalSettles (good : Heap → α → Prop) (m : Machine) (x : Eval α) : Prop :=
  Settles Machine.heap (fun m => m.heap.Codeless) good m x

abbrev ExecSettles (good : Heap → α → Prop) (s : State) (x : Exec α) : Prop :=
  Settles (fun s : State => s.machine.heap) State.Codeless good s x

namespace Settles

section Rules

variable {view : σ → Heap} {within : σ → Prop} {good good' : Heap → α → Prop} {s : σ}
  {x : EStateM Halt σ α}

theorem ended (settles : Settles view within good s x) : Ended (x s) := by
  unfold Settles at settles
  cases ran : x s with
  | ok a t => trivial
  | error e t =>
    rw [ran] at settles
    cases e with
    | fault e => trivial
    | exhausted => exact settles rfl

theorem fault (e : Error) :
    Settles view within good s (MonadExceptOf.throw (Halt.fault e) : EStateM Halt σ α) :=
  nofun

theorem bind {good' : Heap → β → Prop} {f : α → EStateM Halt σ β}
    (first : Settles view within good s x)
    (next : ∀ a t, x s = .ok a t → (view s).Spans (view t) → within t → good (view t) a →
      Settles view within good' t (f a)) :
    Settles view within good' s (x >>= f) := by
  unfold Settles at first ⊢
  rw [bind_apply]
  cases ran : x s with
  | error e t =>
    rw [ran] at first
    exact first
  | ok a t =>
    rw [ran] at first
    obtain ⟨spans, start, valid⟩ := first
    have ended := next a t ran spans start valid
    unfold Settles at ended
    dsimp only
    cases ran' : f a t with
    | ok b u =>
      rw [ran'] at ended
      exact ⟨spans.trans ended.1, ended.2⟩
    | error e u =>
      rw [ran'] at ended
      exact ended

theorem ite {c : Prop} [Decidable c] {y : EStateM Halt σ α} (yes : c → Settles view within good s x)
    (no : ¬ c → Settles view within good s y) :
    Settles view within good s (if c then x else y) := by
  split
  · rename_i holds
    exact yes holds
  · rename_i fails
    exact no fails

end Rules

section Eval

variable {good : Heap → α → Prop} {m : Machine} {span : Span}

theorem fail (f : RunFault) : EvalSettles good m (Eval.fail f span) :=
  fault _

/-- Reads the heap first. -/
theorem read {f : Heap → Eval α} (next : EvalSettles good m (f m.heap)) :
    EvalSettles good m (Eval.heap >>= f) :=
  next

variable (start : m.heap.Codeless)

include start

theorem answer {a : α} (valid : good m.heap a) : EvalSettles good m (Pure.pure a) :=
  ⟨.refl _, start, valid⟩

theorem orFail {x : Option α} (there : ∀ a, x = some a → good m.heap a) (f : RunFault) :
    EvalSettles good m (Eval.orFail x f span) := by
  cases x with
  | none => exact fault _
  | some a => exact answer start (there a rfl)

theorem lift {x : Except RunFault α} (there : ∀ a, x = .ok a → good m.heap a) :
    EvalSettles good m (Eval.lift x span) := by
  cases x with
  | error f => exact fault _
  | ok a => exact answer start (there a rfl)

theorem newList {items : Array Value} (plain : ∀ v ∈ items, m.heap.Plain v) :
    EvalSettles Heap.Plain m (Eval.newList items) := by
  have there : m.heap.lists.size < (m.heap.newList items).2.lists.size := by simp [Heap.newList]
  exact ⟨.newList m.heap items, start.newList plain, there⟩

theorem newObject {o : Object Value} (plain : m.heap.PlainEntries o.entries) :
    EvalSettles Heap.Plain m (Eval.newObject o) := by
  have there : m.heap.objects.size < (m.heap.newObject o).2.objects.size := by
    simp [Heap.newObject]
  exact ⟨.newObject m.heap o, start.newObject plain, there⟩

end Eval

theorem changeHeap {m : Machine} {f : Heap → Heap} (spans : m.heap.Spans (f m.heap))
    (keeps : (f m.heap).Codeless) : EvalSettles anything m (Eval.changeHeap f) :=
  ⟨spans, keeps, trivial⟩

section Exec

variable {good : Heap → α → Prop} {s : State}

theorem pure (start : s.Codeless) {a : α} (valid : good s.machine.heap a) :
    ExecSettles good s (Pure.pure a) :=
  ⟨.refl _, start, valid⟩

theorem eval (start : s.Codeless) {f : Frame → Eval α}
    (settles : EvalSettles good s.machine (f s.frame)) : ExecSettles good s (Exec.eval f) := by
  obtain ⟨frame, m⟩ := s
  unfold EvalSettles Settles at settles
  unfold ExecSettles Settles Exec.eval
  dsimp only at settles ⊢
  cases ran : f frame m with
  | ok a n =>
    rw [ran] at settles
    obtain ⟨spans, codeless, valid⟩ := settles
    exact ⟨spans, ⟨codeless, spans.entries start.frame.vars, start.frame.parent⟩, valid⟩
  | error e n =>
    rw [ran] at settles
    exact settles

theorem assign (start : s.Codeless) (name : String) {v : Value} (plain : s.machine.heap.Plain v) :
    ExecSettles anything s (Exec.assign name v) := by
  have vars : s.machine.heap.PlainEntries (s.frame.vars.insert name v).entries :=
    Bindings.holds_insert start.frame.vars plain
  exact ⟨.refl _, ⟨start.heap, vars, start.frame.parent⟩, trivial⟩

theorem assignEach (start : s.Codeless) {bindings : List (String × Value)}
    (plain : s.machine.heap.PlainEntries bindings) :
    ExecSettles anything s (bindings.forM fun b => Exec.assign b.1 b.2) := by
  induction bindings generalizing s with
  | nil => exact pure start trivial
  | cons b bindings ih =>
    obtain ⟨first, others⟩ := List.forall_mem_cons.1 plain
    exact bind (assign start b.1 first) fun _ t _ spans start _ => ih start (spans.entries others)

end Exec

end Settles

end Script
