import Script.Machine

/-! Two runs side by side. Computations are alike when, from like states, both succeed with like
answers or both halt alike, and leave like states. -/

namespace Script

variable {σ α β γ δ : Type}

def EndAlike (like : σ → σ → Prop) (halts : Halt → Halt → Prop) (good : α → β → Prop) :
    EStateM.Result Halt σ α → EStateM.Result Halt σ β → Prop
  | .ok a s, .ok b t => good a b ∧ like s t
  | .error e s, .error e' t => halts e e' ∧ like s t
  | _, _ => False

def Alike (like : σ → σ → Prop) (halts : Halt → Halt → Prop) (good : α → β → Prop)
    (x : EStateM Halt σ α) (y : EStateM Halt σ β) : Prop :=
  ∀ s t, like s t → EndAlike like halts good (x s) (y t)

theorem EndAlike.cases {like : σ → σ → Prop} {halts : Halt → Halt → Prop} {good : α → β → Prop}
    {r : EStateM.Result Halt σ α} {r' : EStateM.Result Halt σ β}
    (ended : EndAlike like halts good r r') :
    (∃ a b s t, r = .ok a s ∧ r' = .ok b t ∧ good a b ∧ like s t) ∨
      ∃ e e' s t, r = .error e s ∧ r' = .error e' t ∧ halts e e' ∧ like s t := by
  cases r with
  | ok a s =>
    cases r' with
    | ok b t => exact .inl ⟨a, b, s, t, rfl, rfl, ended⟩
    | error e t => exact ended.elim
  | error e s =>
    cases r' with
    | ok b t => exact ended.elim
    | error e' t => exact .inr ⟨e, e', s, t, rfl, rfl, ended⟩

/-- One and the same answer, which is good. -/
def Same (good : α → Prop) (a b : α) : Prop :=
  a = b ∧ good a

namespace Alike

variable {like : σ → σ → Prop} {halts : Halt → Halt → Prop} {good : α → β → Prop}
  {x : EStateM Halt σ α} {y : EStateM Halt σ β}

theorem pure {a : α} {b : β} (h : good a b) : Alike like halts good (pure a) (pure b) := by
  intro s t states
  exact ⟨h, states⟩

theorem bind {good' : γ → δ → Prop} {f : α → EStateM Halt σ γ} {g : β → EStateM Halt σ δ}
    (first : Alike like halts good x y)
    (next : ∀ a b, good a b → Alike like halts good' (f a) (g b)) :
    Alike like halts good' (x >>= f) (y >>= g) := by
  intro s t states
  change EndAlike like halts good' (EStateM.bind x f s) (EStateM.bind y g t)
  unfold EStateM.bind
  rcases (first s t states).cases with
    ⟨a, b, s', t', run, run', hab, after⟩ | ⟨e, e', s', t', run, run', ended⟩
  · rw [run, run']
    exact next a b hab s' t' after
  · rw [run, run']
    exact ended

theorem bind_same {good : α → Prop} {good' : γ → δ → Prop} {x y : EStateM Halt σ α}
    {f : α → EStateM Halt σ γ} {g : α → EStateM Halt σ δ}
    (first : Alike like halts (Same good) x y)
    (next : ∀ a, good a → Alike like halts good' (f a) (g a)) :
    Alike like halts good' (x >>= f) (y >>= g) := by
  apply first.bind
  rintro a b ⟨rfl, ga⟩
  exact next a ga

theorem throw {e e' : Halt} (h : halts e e') : Alike like halts good (throw e) (throw e') := by
  intro s t states
  exact ⟨h, states⟩

theorem ite {c : Prop} [Decidable c] {x' : EStateM Halt σ α} {y' : EStateM Halt σ β}
    (yes : Alike like halts good x y) (no : Alike like halts good x' y') :
    Alike like halts good (if c then x else x') (if c then y else y') := by
  split
  · exact yes
  · exact no

theorem look {view : σ → α} {view' : σ → β} (h : ∀ s t, like s t → good (view s) (view' t)) :
    Alike like halts good (fun s => .ok (view s) s) (fun t => .ok (view' t) t) := by
  intro s t states
  exact ⟨h s t states, states⟩

theorem modify {f g : σ → σ} (h : ∀ s t, like s t → like (f s) (g t)) :
    Alike like halts (Same fun _ => True) (modify f) (modify g) := by
  intro s t states
  exact ⟨⟨rfl, trivial⟩, h s t states⟩

end Alike

end Script
