import Script.Machine

/-! A logic of one run: from a state within an invariant, a safe computation ends within it, with a
good answer or with an allowed error. -/

namespace Script

variable {ε σ α β : Type}

def EndSafe (within : σ → Prop) (allowed : ε → Prop) (good : α → Prop) :
    EStateM.Result ε σ α → Prop
  | .ok a s => good a ∧ within s
  | .error e s => allowed e ∧ within s

def Safe (within : σ → Prop) (allowed : ε → Prop) (good : α → Prop) (x : EStateM ε σ α) : Prop :=
  ∀ s, within s → EndSafe within allowed good (x s)

namespace Safe

variable {within : σ → Prop} {allowed allowed' : ε → Prop} {good : α → Prop} {x : EStateM ε σ α}

theorem pure {a : α} (h : good a) : Safe within allowed good (Pure.pure a) :=
  fun _ start => ⟨h, start⟩

theorem bind {good' : β → Prop} {f : α → EStateM ε σ β} (first : Safe within allowed good x)
    (next : ∀ a, good a → Safe within allowed good' (f a)) :
    Safe within allowed good' (x >>= f) := by
  intro s start
  have ended := first s start
  change EndSafe within allowed good' (EStateM.bind x f s)
  unfold EStateM.bind
  cases run : x s with
  | ok a t =>
    rw [run] at ended
    exact next a ended.1 t ended.2
  | error e t =>
    rw [run] at ended
    exact ended

theorem throw {e : ε} (h : allowed e) :
    Safe within allowed good (MonadExceptOf.throw e : EStateM ε σ α) :=
  fun _ start => ⟨h, start⟩

theorem throw_bind {good' : β → Prop} {f : α → EStateM ε σ β} {e : ε} (h : allowed e) :
    Safe within allowed good' ((MonadExceptOf.throw e : EStateM ε σ α) >>= f) :=
  fun _ start => ⟨h, start⟩

theorem ite {c : Prop} [Decidable c] {y : EStateM ε σ α} (yes : Safe within allowed good x)
    (no : Safe within allowed good y) : Safe within allowed good (if c then x else y) := by
  split
  · exact yes
  · exact no

theorem weaken {good' : α → Prop} (safe : Safe within allowed good x)
    (errors : ∀ e, allowed e → allowed' e) (answers : ∀ a, good a → good' a) :
    Safe within allowed' good' x := by
  intro s start
  have ended := safe s start
  cases run : x s with
  | ok a t =>
    rw [run] at ended
    exact ⟨answers a ended.1, ended.2⟩
  | error e t =>
    rw [run] at ended
    exact ⟨errors e ended.1, ended.2⟩

/-- Whatever it answers with. -/
theorem forget (safe : Safe within allowed good x) : Safe within allowed (fun _ => True) x :=
  safe.weaken (fun _ h => h) fun _ _ => trivial

theorem look {view : σ → α} (h : ∀ s, within s → good (view s)) :
    Safe within allowed good (fun s => .ok (view s) s) :=
  fun s start => ⟨h s start, start⟩

theorem modify {f : σ → σ} (h : ∀ s, within s → within (f s)) :
    Safe within allowed (fun _ => True) (modify f : EStateM ε σ Unit) :=
  fun s start => ⟨trivial, h s start⟩

end Safe

/-! Evaluations and executions, of which only the heap is of interest. -/

abbrev EvalSafe (heaps : Heap → Prop) (allowed : Halt → Prop) (good : α → Prop) (x : Eval α) :
    Prop :=
  Safe (fun m : Machine => heaps m.heap) allowed good x

abbrev ExecSafe (heaps : Heap → Prop) (allowed : Halt → Prop) (good : α → Prop) (x : Exec α) :
    Prop :=
  Safe (fun s : State => heaps s.machine.heap) allowed good x

namespace Safe

variable {heaps : Heap → Prop} {allowed : Halt → Prop} {good : α → Prop}

theorem heap : EvalSafe heaps allowed heaps Eval.heap :=
  look fun _ start => start

theorem onHeap {f : Heap → α × Heap} (h : ∀ k, heaps k → good (f k).1 ∧ heaps (f k).2) :
    EvalSafe heaps allowed good (Eval.onHeap f) :=
  fun m start => h m.heap start

theorem changeHeap {f : Heap → Heap} (h : ∀ k, heaps k → heaps (f k)) :
    EvalSafe heaps allowed (fun _ => True) (Eval.changeHeap f) :=
  modify fun m start => h m.heap start

theorem inside {x : Exec α} (safe : ExecSafe heaps allowed good x) (frame : Frame) :
    EvalSafe heaps allowed good (Exec.inside frame x) := by
  intro m start
  have ended := safe ⟨frame, m⟩ start
  unfold Exec.inside
  cases run : x ⟨frame, m⟩ with
  | ok a s =>
    rw [run] at ended
    exact ended
  | error e s =>
    rw [run] at ended
    exact ended

theorem eval {f : Frame → Eval α} (safe : ∀ frame, EvalSafe heaps allowed good (f frame)) :
    ExecSafe heaps allowed good (Exec.eval f) := by
  rintro ⟨frame, m⟩ start
  have ended := safe frame m start
  unfold Exec.eval
  dsimp only
  cases run : f frame m with
  | ok a n =>
    rw [run] at ended
    exact ended
  | error e n =>
    rw [run] at ended
    exact ended

theorem assign (name : String) (v : Value) :
    ExecSafe heaps allowed (fun _ => True) (Exec.assign name v) :=
  modify fun _ start => start

end Safe

end Script
