import Script.Eval.Expression
import Script.Proofs.Sound.Heap

/-! What the operations on values answer with. None makes up a class, and none fails in the way that
a `break` or a `return` out of place does. -/

namespace Script

variable {α β : Type} {h : Heap} {kept : Stmt → Prop}

/-- A fault of a statement that stands where it may. Only a builtin method fails by its own name. -/
def RunFault.Regular : RunFault → Prop
  | .strayLeave | .strayGive | .strayLeaveIn _ => False
  | .builtinArity name _ _ | .builtinKey name _ => ∃ b : Builtin, b.name = name
  | _ => True

/-- A fault that a run of such statements can end with. -/
def Fault.Regular : Fault → Prop
  | .lexical _ | .grammar _ => False
  | .running f => f.Regular
  | _ => True

/-- A good answer, or a regular fault. -/
def Yields (good : α → Prop) : Except RunFault α → Prop
  | .ok a => good a
  | .error f => f.Regular

namespace Yields

variable {good : α → Prop}

theorem ite {c : Prop} [Decidable c] {x y : Except RunFault α} (yes : Yields good x)
    (no : Yields good y) : Yields good (if c then x else y) := by
  split
  · exact yes
  · exact no

theorem bind {good' : β → Prop} {x : Except RunFault α} {f : α → Except RunFault β}
    (first : Yields good x) (next : ∀ a, good a → Yields good' (f a)) : Yields good' (x >>= f) := by
  cases x with
  | error e => exact first
  | ok a => exact next a first

/-- A good answer is the answer. -/
theorem known {x : Except RunFault α} (yields : Yields good x) :
    Yields (fun a => good a ∧ x = .ok a) x := by
  cases x with
  | error f => exact yields
  | ok a => exact ⟨yields, rfl⟩

end Yields

/-! Operators. -/

theorem Literal.has_value (l : Literal) : h.Has l.value := by
  cases l <;> trivial

namespace BinOp

variable (op : BinOp)

theorem onIntegers_yields (l r : Int64) : Yields h.Has (op.onIntegers l r) := by
  have within (n : Option Int64) : Yields h.Has (onIntegers.within op n) := by
    cases n <;> trivial
  cases op with
  | add => exact within _
  | sub => exact within _
  | mul => exact within _
  | div => exact .ite trivial trivial
  | floorDiv => exact .ite trivial (within _)
  | rem => exact .ite trivial (within _)
  | pow =>
    unfold onIntegers
    dsimp only
    cases Integer.pow l r <;> trivial
  | _ => trivial

theorem onDoubles_yields (l r : Float) : Yields h.Has (op.onDoubles l r) := by
  cases op with
  | div => exact .ite trivial trivial
  | floorDiv => exact .ite trivial trivial
  | rem => exact .ite trivial trivial
  | _ => trivial

theorem arithmetic_yields (l r : Value) : Yields h.Has (op.arithmetic l r) := by
  unfold arithmetic
  split
  · exact op.onIntegers_yields _ _
  · split
    · exact op.onDoubles_yields _ _
    · trivial

theorem ordered_yields (test : Float → Float → Bool) (l r : Value) :
    Yields h.Has (op.ordered test l r) := by
  unfold ordered
  split
  · trivial
  · trivial

end BinOp

theorem Heap.member_yields (l r : Value) : Yields h.Has (h.member l r) := by
  unfold Heap.member
  split
  · trivial
  · split <;> trivial
  · split <;> trivial
  · trivial

theorem BinOp.apply_yields (op : BinOp) (l r : Value) : Yields h.Has (op.apply h l r) := by
  cases op with
  | eq => trivial
  | ne => trivial
  | mem => exact Heap.member_yields l r
  | lt => exact ordered_yields _ _ l r
  | le => exact ordered_yields _ _ l r
  | gt => exact ordered_yields _ _ l r
  | ge => exact ordered_yields _ _ l r
  | add =>
    unfold apply
    dsimp only
    split
    · trivial
    · trivial
    · trivial
    · exact arithmetic_yields _ l r
  | _ => exact arithmetic_yields _ l r

theorem Value.negate_yields (v : Value) : Yields h.Has v.negate := by
  cases v with
  | int n =>
    unfold Value.negate
    dsimp only
    cases Integer.neg n <;> trivial
  | _ => trivial

/-! Reading from and writing to lists and objects, and finding classes. -/

namespace Heap.Sound

variable (sound : h.Sound kept)

include sound

theorem indexed (v key : Value) : Yields h.Has (h.indexed v key) := by
  unfold Heap.indexed
  split
  · dsimp only
    split
    · rename_i v found
      obtain ⟨n, -, item⟩ := Option.bind_eq_some_iff.1 found
      exact sound.list _ v (Array.mem_of_getElem? item)
    · trivial
  · cases (position _ _).bind _ <;> trivial
  · trivial
  · trivial
  · split
    · rename_i v found
      exact (sound.object _).get? found
    · trivial
  · trivial
  · trivial

theorem items (v : Value) : Yields (fun vs => ∀ u ∈ vs, h.Has u) (h.items v) := by
  cases v with
  | list r => exact fun u member => sound.list r u (Array.mem_toList_iff.1 member)
  | string s =>
    intro u member
    obtain ⟨c, -, rfl⟩ := List.mem_map.1 member
    trivial
  | object r =>
    intro u member
    obtain ⟨key, -, rfl⟩ := List.mem_map.1 member
    trivial
  | _ => trivial

theorem pairs (v : Value) :
    Yields (fun ps => ∀ p ∈ ps, h.Has p.1 ∧ h.Has p.2) (h.pairs v) := by
  have numbered (v : Value) : Yields (fun ps => ∀ p ∈ ps, h.Has p.1 ∧ h.Has p.2)
      (h.items v >>= fun vs => pure (vs.zipIdx.map fun e => (.int (Int64.ofNat e.2), e.1))) := by
    refine .bind (sound.items v) fun vs valid p member => ?_
    obtain ⟨e, place, rfl⟩ := List.mem_map.1 member
    exact ⟨trivial, valid e.1 (List.fst_mem_of_mem_zipIdx place)⟩
  cases v with
  | object r =>
    intro p member
    obtain ⟨e, entry, rfl⟩ := List.mem_map.1 member
    exact ⟨trivial, (sound.object r).entries e entry⟩
  | _ => exact numbered _

omit sound in
/-- The change that writing by index makes. -/
theorem setIndexed (v key : Value) {value : Value} (valid : h.Has value) :
    Yields (fun f => h.Later (f h) ∧ (h.Sound kept → (f h).Sound kept))
      (h.setIndexed v key value) := by
  unfold Heap.setIndexed
  split
  · split
    · refine ⟨later_law.updateList h _ _, fun sound => sound.updateList _ fun vs all u member => ?_⟩
      rcases Array.mem_or_eq_of_mem_setIfInBounds member with old | rfl
      · exact all u old
      · exact valid
    · trivial
  · trivial
  · exact ⟨later_law.setKey h _ _ _, fun sound => sound.setKey _ _ valid⟩
  · trivial
  · trivial
  · trivial

omit sound in
theorem setProperty (v : Value) (name : String) {value : Value} (valid : h.Has value) :
    Yields (fun f => h.Later (f h) ∧ (h.Sound kept → (f h).Sound kept))
      (v.setProperty name value) := by
  cases v with
  | object r => exact ⟨later_law.setKey h _ _ _, fun sound => sound.setKey _ _ valid⟩
  | _ => trivial

theorem follow (path : ClassPath) (parts : List String) {v : Value} (valid : h.Has v) :
    Yields h.Has (h.follow path parts v) := by
  induction parts generalizing v with
  | nil => exact valid
  | cons part parts ih =>
    cases v with
    | object r =>
      unfold Heap.follow
      split
      · rename_i found
        exact ih ((sound.object _).get? found)
      · trivial
    | _ => trivial

theorem resolveClass {frame : Frame} (frames : h.HasFrame frame) (path : ClassPath) :
    Yields (fun r => h.Has (.cls r)) (h.resolveClass frame path) := by
  unfold Heap.resolveClass
  split
  · trivial
  · rename_i v found
    refine .bind (sound.follow path path.rest ?_) fun u valid => ?_
    · exact frames.get? found
    · split
      · exact valid
      · trivial

end Heap.Sound

end Script
