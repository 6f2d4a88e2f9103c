/-! Finite maps from names, in the order of the names. -/

namespace Script

/-- What names stand for. The names are kept in order, so two of these are equal as soon as they
bind the same names to the same things. -/
structure Bindings (α : Type) where
  entries : List (String × α)
  sorted : entries.Pairwise fun a b => a.1 < b.1

namespace Bindings

variable {α : Type}

def empty : Bindings α := ⟨[], .nil⟩

def get? (b : Bindings α) (name : String) : Option α :=
  b.entries.lookup name

def contains (b : Bindings α) (name : String) : Bool :=
  (b.get? name).isSome

/-- Puts a binding in its place, over one of the same name. -/
def put (name : String) (value : α) : List (String × α) → List (String × α)
  | [] => [(name, value)]
  | e :: rest =>
    if name < e.1 then (name, value) :: e :: rest
    else if name = e.1 then (name, value) :: rest
    else e :: put name value rest

theorem mem_put {name : String} {value : α} {l : List (String × α)} {e : String × α}
    (h : e ∈ put name value l) : e = (name, value) ∨ e ∈ l := by
  induction l with
  | nil => exact .inl (List.mem_singleton.1 h)
  | cons a rest ih =>
    rw [put] at h
    split at h
    · exact (List.mem_cons.1 h).imp id id
    · split at h
      · exact (List.mem_cons.1 h).imp id (List.mem_cons_of_mem _)
      · rcases List.mem_cons.1 h with rfl | h
        · exact .inr List.mem_cons_self
        · exact (ih h).imp id (List.mem_cons_of_mem _)

theorem sorted_put (name : String) (value : α) {l : List (String × α)}
    (h : l.Pairwise fun a b => a.1 < b.1) :
    (put name value l).Pairwise fun a b => a.1 < b.1 := by
  induction l with
  | nil => exact List.pairwise_singleton _ _
  | cons a rest ih =>
    obtain ⟨first, tail⟩ := List.pairwise_cons.1 h
    rw [put]
    split
    · rename_i below
      refine List.pairwise_cons.2 ⟨fun e he => ?_, h⟩
      rcases List.mem_cons.1 he with rfl | he
      · exact below
      · exact String.lt_trans below (first e he)
    · rename_i above
      split
      · rename_i same
        exact List.pairwise_cons.2 ⟨fun e he => same ▸ first e he, tail⟩
      · rename_i other
        refine List.pairwise_cons.2 ⟨fun e he => ?_, ih tail⟩
        rcases mem_put he with rfl | he
        · exact Decidable.byContradiction fun no =>
            other (String.le_antisymm (String.not_lt.1 no) (String.not_lt.1 above))
        · exact first e he

def insert (b : Bindings α) (name : String) (value : α) : Bindings α :=
  ⟨put name value b.entries, sorted_put name value b.sorted⟩

/-- All bindings of `top`, and those of `b` for the other names. -/
def overlay (b top : Bindings α) : Bindings α :=
  top.entries.foldl (fun b e => b.insert e.1 e.2) b

end Bindings

end Script
