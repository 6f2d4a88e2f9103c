import Script.Proofs.Flows
import Script.Proofs.Sound.Values

/-! A logic of computations on sound heaps. From a state over a given heap a computation ends over a
later one, which is sound again, with an answer that is good there or with an allowed halt. -/

namespace Script

variable {σ α β : Type}

/-- The end of a computation from a state over `h`. -/
def EndUpholds (view : σ → Heap) (within : σ → Prop) (allowed : Halt → Prop) (h : Heap)
    (good : Heap → α → Prop) : EStateM.Result Halt σ α → Prop
  | .ok a s => h.Later (view s) ∧ within s ∧ good (view s) a
  | .error e s => h.Later (view s) ∧ within s ∧ allowed e

/-- The computation is done for its effects. -/
def anything (_ : Heap) (_ : α) : Prop := True

def Upholds (view : σ → Heap) (within : σ → Prop) (allowed : Halt → Prop) (h : Heap)
    (good : Heap → α → Prop) (x : EStateM Halt σ α) : Prop :=
  ∀ s, view s = h → within s → EndUpholds view within allowed h good (x s)

namespace Upholds

variable {view : σ → Heap} {within : σ → Prop} {allowed allowed' : Halt → Prop} {h : Heap}
  {good good' : Heap → α → Prop} {x : EStateM Halt σ α}

theorem pure {a : α} (valid : good h a) : Upholds view within allowed h good (Pure.pure a) := by
  rintro s rfl start
  exact ⟨.refl _, start, valid⟩

theorem throw {e : Halt} (h' : allowed e) :
    Upholds view within allowed h good (MonadExceptOf.throw e : EStateM Halt σ α) := by
  rintro s rfl start
  exact ⟨.refl _, start, h'⟩

theorem throw_bind {good' : Heap → β → Prop} {f : α → EStateM Halt σ β} {e : Halt}
    (h' : allowed e) :
    Upholds view within allowed h good' ((MonadExceptOf.throw e : EStateM Halt σ α) >>= f) := by
  rintro s rfl start
  exact ⟨.refl _, start, h'⟩

theorem bind {good' : Heap → β → Prop} {f : α → EStateM Halt σ β}
    (first : Upholds view within allowed h good x)
    (next : ∀ a k, h.Later k → good k a → Upholds view within allowed k good' (f a)) :
    Upholds view within allowed h good' (x >>= f) := by
  intro s here start
  have ended := first s here start
  change EndUpholds view within allowed h good' (EStateM.bind x f s)
  unfold EStateM.bind
  cases run : x s with
  | ok a t =>
    rw [run] at ended
    obtain ⟨later, start', valid⟩ := ended
    have ended' := next a (view t) later valid t rfl start'
    dsimp only
    cases run' : f a t with
    | ok b u =>
      rw [run'] at ended'
      exact ⟨later.trans ended'.1, ended'.2⟩
    | error e u =>
      rw [run'] at ended'
      exact ⟨later.trans ended'.1, ended'.2⟩
  | error e t =>
    rw [run] at ended
    exact ended

theorem after {good' : Heap → β → Prop} {f : α → EStateM Halt σ β}
    (first : Upholds view within allowed h anything x)
    (next : ∀ a k, h.Later k → Upholds view within allowed k good' (f a)) :
    Upholds view within allowed h good' (x >>= f) :=
  bind first fun a k later _ => next a k later

theorem ite {c : Prop} [Decidable c] {y : EStateM Halt σ α}
    (yes : Upholds view within allowed h good x) (no : Upholds view within allowed h good y) :
    Upholds view within allowed h good (if c then x else y) := by
  split
  · exact yes
  · exact no

theorem weaken (upholds : Upholds view within allowed h good x) (halts : ∀ e, allowed e → allowed' e)
    (answers : ∀ k a, good k a → good' k a) : Upholds view within allowed' h good' x := by
  intro s here start
  have ended := upholds s here start
  cases run : x s with
  | ok a t =>
    rw [run] at ended
    exact ⟨ended.1, ended.2.1, answers _ a ended.2.2⟩
  | error e t =>
    rw [run] at ended
    exact ⟨ended.1, ended.2.1, halts e ended.2.2⟩

theorem forget (upholds : Upholds view within allowed h good x) :
    Upholds view within allowed h anything x :=
  upholds.weaken (fun _ halts => halts) fun _ _ _ => trivial

/-- What is known of the answer from elsewhere. -/
theorem and {known : α → Prop} (upholds : Upholds view within allowed h good x)
    (safe : Safe (fun _ : σ => True) (fun _ => True) known x) :
    Upholds view within allowed h (fun k a => good k a ∧ known a) x := by
  intro s here start
  have ended := upholds s here start
  have answer := safe s trivial
  cases run : x s with
  | ok a t =>
    rw [run] at ended answer
    exact ⟨ended.1, ended.2.1, ended.2.2, answer.1⟩
  | error e t =>
    rw [run] at ended
    exact ended

end Upholds

/-- Whether a halt is a fault that may happen. A run may always exhaust its bound. -/
def Halt.Allowed (allowed : Fault → Prop) : Halt → Prop
  | .fault e => allowed e.fault
  | .exhausted => True

abbrev EvalUpholds (kept : Stmt → Prop) (allowed : Fault → Prop) (h : Heap) (good : Heap → α → Prop)
    (x : Eval α) : Prop :=
  Upholds (fun m : Machine => m.heap) (fun m => m.heap.Sound kept) (Halt.Allowed allowed) h good x

abbrev ExecUpholds (kept : Stmt → Prop) (allowed : Fault → Prop) (h : Heap) (good : Heap → α → Prop)
    (x : Exec α) : Prop :=
  Upholds (fun s : State => s.machine.heap)
    (fun s => s.machine.heap.Sound kept ∧ s.machine.heap.HasFrame s.frame)
    (Halt.Allowed allowed) h good x

namespace Upholds

variable {kept : Stmt → Prop} {allowed : Fault → Prop} {h : Heap} {good : Heap → α → Prop}

/-- Reads the heap first. -/
theorem read {f : Heap → Eval α} (next : h.Sound kept → EvalUpholds kept allowed h good (f h)) :
    EvalUpholds kept allowed h good (Eval.heap >>= f) := by
  rintro m rfl sound
  exact next sound m rfl sound

theorem onHeap {f : Heap → α × Heap} (later : h.Later (f h).2)
    (keeps : h.Sound kept → (f h).2.Sound kept ∧ good (f h).2 (f h).1) :
    EvalUpholds kept allowed h good (Eval.onHeap f) := by
  rintro m rfl sound
  exact ⟨later, keeps sound⟩

theorem changeHeap {f : Heap → Heap} (later : h.Later (f h))
    (keeps : h.Sound kept → (f h).Sound kept) :
    EvalUpholds kept allowed h anything (Eval.changeHeap f) := by
  rintro m rfl sound
  exact ⟨later, keeps sound, trivial⟩

/-- Changes of what a machine holds besides its heap. -/
theorem aside {f : Machine → Machine} (same : ∀ m, (f m).heap = m.heap) :
    EvalUpholds kept allowed h anything (modify f : Eval Unit) := by
  rintro m rfl sound
  change m.heap.Later (f m).heap ∧ (f m).heap.Sound kept ∧ True
  rw [same]
  exact ⟨.refl _, sound, trivial⟩

theorem inside {x : Exec α} (upholds : ExecUpholds kept allowed h good x) {frame : Frame}
    (valid : h.HasFrame frame) : EvalUpholds kept allowed h good (Exec.inside frame x) := by
  rintro m rfl sound
  have ended := upholds ⟨frame, m⟩ rfl ⟨sound, valid⟩
  unfold Exec.inside
  cases run : x ⟨frame, m⟩ with
  | ok a s =>
    rw [run] at ended
    exact ⟨ended.1, ended.2.1.1, ended.2.2⟩
  | error e s =>
    rw [run] at ended
    exact ⟨ended.1, ended.2.1.1, ended.2.2⟩

theorem eval {f : Frame → Eval α}
    (upholds : ∀ frame, h.HasFrame frame → EvalUpholds kept allowed h good (f frame)) :
    ExecUpholds kept allowed h good (Exec.eval f) := by
  rintro ⟨frame, m⟩ rfl ⟨sound, valid⟩
  have ended := upholds frame valid m rfl sound
  unfold Exec.eval
  dsimp only
  cases run : f frame m with
  | ok a n =>
    rw [run] at ended
    exact ⟨ended.1, ⟨ended.2.1, ended.1.frame valid⟩, ended.2.2⟩
  | error e n =>
    rw [run] at ended
    exact ⟨ended.1, ⟨ended.2.1, ended.1.frame valid⟩, ended.2.2⟩

/-- Reads the state first. -/
theorem look {f : State → Exec α} (next : ∀ s, ExecUpholds kept allowed h good (f s)) :
    ExecUpholds kept allowed h good (get >>= f) := by
  rintro s rfl start
  exact next s s rfl start

/-- Changes of the running frame. -/
theorem modifyFrame {f : Frame → Frame} (keeps : ∀ frame, h.HasFrame frame → h.HasFrame (f frame)) :
    ExecUpholds kept allowed h anything
      (modify fun s => { s with frame := f s.frame } : Exec Unit) := by
  rintro ⟨frame, m⟩ rfl ⟨sound, valid⟩
  exact ⟨.refl _, ⟨sound, keeps frame valid⟩, trivial⟩

theorem assign (name : String) {v : Value} (valid : h.Has v) :
    ExecUpholds kept allowed h anything (Exec.assign name v) :=
  modifyFrame fun _ frames => frames.assign name valid

theorem assignEach {bindings : List (String × Value)} (valid : h.HasEntries bindings) :
    ExecUpholds kept allowed h anything (bindings.forM fun b => Exec.assign b.1 b.2) := by
  induction bindings generalizing h with
  | nil => exact pure trivial
  | cons b bindings ih =>
    obtain ⟨first, others⟩ := List.forall_mem_cons.1 valid
    exact after (assign b.1 first) fun _ k later => ih (later.entries others)

end Upholds

end Script
