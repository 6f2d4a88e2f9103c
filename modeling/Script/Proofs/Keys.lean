import Mathlib.Data.List.DropRight
import Script.Object

/-! Objects as maps. The keys of an object have no quotes at their ends, no two of them differ in case
only, and they stay in the order in which they were first set. -/

namespace Script

variable {α : Type}

/-! Keys as they are kept. -/

/-- No double quote stands at an end of the key. -/
def Unquoted (key : String) : Prop :=
  key.toList.head? ≠ some '"' ∧ key.toList.getLast? ≠ some '"'

theorem Text.strip_eq (p : Char → Bool) (cs : List Char) :
    strip p cs = (cs.dropWhile p).rdropWhile p := rfl

theorem Text.head?_strip (p : Char → Bool) (cs : List Char) {c : Char}
    (first : (strip p cs).head? = some c) : p c = false := by
  rw [strip_eq] at first
  obtain ⟨rest, whole⟩ := List.rdropWhile_prefix p (cs.dropWhile p)
  have kept : (cs.dropWhile p).head? = some c := by
    rw [← whole, List.head?_append, first]
    rfl
  have stopped := List.head?_dropWhile_not p cs
  rw [kept] at stopped
  exact stopped

theorem Text.getLast?_strip (p : Char → Bool) (cs : List Char) {c : Char}
    (last : (strip p cs).getLast? = some c) : p c = false := by
  have stopped := List.head?_dropWhile_not p (cs.dropWhile p).reverse
  rw [strip, List.getLast?_reverse] at last
  rw [last] at stopped
  exact stopped

theorem unquoted_bareKey (key : String) : Unquoted (bareKey key) := by
  unfold Unquoted bareKey
  rw [String.toList_ofList]
  constructor
  · intro first
    exact absurd (Text.head?_strip _ _ first) (by decide)
  · intro last
    exact absurd (Text.getLast?_strip _ _ last) (by decide)

theorem sameKey_iff {a b : String} : sameKey a b = true ↔ Text.fold a = Text.fold b :=
  beq_iff_eq

/-- Both keys lead to one entry. -/
def Agree (a b : String) : Prop :=
  Text.fold (bareKey a) = Text.fold (bareKey b)

instance (a b : String) : Decidable (Agree a b) :=
  inferInstanceAs (Decidable (Text.fold (bareKey a) = Text.fold (bareKey b)))

namespace Object

/-! Lookup after a change. -/

/-- The value that goes with a kept key, as far as case is ignored. -/
def find (key : String) (entries : List (String × α)) : Option α :=
  (entries.find? fun e => sameKey e.1 key).map Prod.snd

theorem find_cons (key : String) (e : String × α) (entries : List (String × α)) :
    find key (e :: entries) = if sameKey e.1 key then some e.2 else find key entries := by
  unfold find
  rw [List.find?_cons]
  cases sameKey e.1 key with
  | true => rfl
  | false => rfl

theorem find_put_same {key other : String} (same : Text.fold key = Text.fold other) (v : α)
    (entries : List (String × α)) : find other (put key v entries) = some v := by
  induction entries with
  | nil => rw [put, find_cons, if_pos (sameKey_iff.2 same)]
  | cons e entries ih =>
    rw [put]
    split
    · rename_i here
      have there := (sameKey_iff.1 here).trans same
      rw [find_cons, if_pos (sameKey_iff.2 there)]
    · rename_i elsewhere
      have there : ¬ sameKey e.1 other = true := fun h =>
        elsewhere (sameKey_iff.2 ((sameKey_iff.1 h).trans same.symm))
      rw [find_cons, if_neg there]
      exact ih

theorem find_put_other {key other : String} (differ : Text.fold key ≠ Text.fold other) (v : α)
    (entries : List (String × α)) : find other (put key v entries) = find other entries := by
  induction entries with
  | nil => rw [put, find_cons, if_neg fun h => differ (sameKey_iff.1 h)]
  | cons e entries ih =>
    rw [put]
    split
    · rename_i here
      have there : ¬ sameKey e.1 other = true := fun h =>
        differ ((sameKey_iff.1 here).symm.trans (sameKey_iff.1 h))
      rw [find_cons, find_cons, if_neg there, if_neg there]
    · rw [find_cons, find_cons, ih]

theorem put_new {key : String} {entries : List (String × α)} (v : α)
    (new : ∀ e ∈ entries, ¬ sameKey e.1 key) : put key v entries = entries ++ [(key, v)] := by
  induction entries with
  | nil => rfl
  | cons e entries ih =>
    obtain ⟨first, others⟩ := List.forall_mem_cons.1 new
    rw [put, if_neg first, ih others]
    rfl

theorem get?_set_agree (o : Object α) {key other : String} (agree : Agree key other) (v : α) :
    (o.set key v).get? other = some v :=
  find_put_same agree v o.entries

theorem get?_set_differ (o : Object α) {key other : String} (differ : ¬ Agree key other) (v : α) :
    (o.set key v).get? other = o.get? other :=
  find_put_other differ v o.entries

theorem contains_eq_isSome (o : Object α) (key : String) : o.contains key = (o.get? key).isSome := by
  unfold contains get?
  rw [Option.isSome_map, Bool.eq_iff_iff, List.any_eq_true, List.find?_isSome]

/-! The values. -/

section Values

variable {good : α → Prop}

theorem holds_put {entries : List (String × α)} (all : ∀ e ∈ entries, good e.2) {key : String}
    {v : α} (new : good v) : ∀ e ∈ put key v entries, good e.2 := by
  induction entries with
  | nil => exact List.forall_mem_singleton.2 new
  | cons e entries ih =>
    obtain ⟨first, others⟩ := List.forall_mem_cons.1 all
    rw [put]
    split
    · exact List.forall_mem_cons.2 ⟨new, others⟩
    · exact List.forall_mem_cons.2 ⟨first, ih others⟩

variable {o : Object α} {entries : List (String × α)} (all : ∀ e ∈ o.entries, good e.2)

include all

theorem holds_set {key : String} {v : α} (new : good v) :
    ∀ e ∈ (o.set key v).entries, good e.2 :=
  holds_put all new

theorem holds_setAll (new : ∀ e ∈ entries, good e.2) :
    ∀ e ∈ (o.setAll entries).entries, good e.2 := by
  unfold setAll
  induction entries generalizing o with
  | nil => exact all
  | cons e entries ih =>
    obtain ⟨first, others⟩ := List.forall_mem_cons.1 new
    exact ih (holds_set all first) others

theorem holds_fill (new : ∀ e ∈ entries, good e.2) :
    ∀ e ∈ (o.fill entries).entries, good e.2 := by
  unfold fill
  induction entries generalizing o with
  | nil => exact all
  | cons e entries ih =>
    obtain ⟨first, others⟩ := List.forall_mem_cons.1 new
    refine ih ?_ others
    dsimp only
    split
    · exact all
    · exact holds_set all first

theorem holds_get? {key : String} {v : α} (found : o.get? key = some v) : good v := by
  obtain ⟨e, here, rfl⟩ := Option.map_eq_some_iff.1 found
  exact all e (List.mem_of_find?_eq_some here)

end Values

/-! The keys. -/

theorem keys_set (o : Object α) (key : String) (v : α) :
    (o.set key v).keys = o.keys ∨
      (o.set key v).keys = o.keys ++ [bareKey key] ∧
        ∀ k ∈ o.keys, Text.fold k ≠ Text.fold (bareKey key) := by
  obtain ⟨entries⟩ := o
  unfold set keys
  dsimp only
  induction entries with
  | nil => exact .inr ⟨rfl, List.forall_mem_nil _⟩
  | cons e entries ih =>
    rw [put]
    split
    · exact .inl rfl
    · rename_i differ
      rw [sameKey_iff] at differ
      simp only [List.map_cons]
      rcases ih with same | ⟨added, fresh⟩
      · exact .inl (congrArg (e.1 :: ·) same)
      · exact .inr ⟨congrArg (e.1 :: ·) added, List.forall_mem_cons.2 ⟨differ, fresh⟩⟩

/-- Keys stay in their places, as they were spelt. -/
theorem keys_prefix_set (o : Object α) (key : String) (v : α) : o.keys <+: (o.set key v).keys := by
  rcases o.keys_set key v with same | ⟨added, -⟩
  · exact ⟨[], by rw [List.append_nil, same]⟩
  · rw [added]
    exact List.prefix_append _ _

example : ((Object.empty.set "Key" 1).set "\"KEY\"" 2).entries = [("Key", 2)] := by decide

/-- An object whose keys are kept as they should be. -/
structure Ordered (o : Object α) : Prop where
  bare : ∀ k ∈ o.keys, Unquoted k
  distinct : o.keys.Pairwise fun a b => Text.fold a ≠ Text.fold b

namespace Ordered

variable {o : Object α}

theorem empty : (Object.empty : Object α).Ordered :=
  ⟨List.forall_mem_nil _, .nil⟩

theorem set (ordered : o.Ordered) (key : String) (v : α) : (o.set key v).Ordered := by
  rcases o.keys_set key v with same | ⟨added, fresh⟩
  · exact ⟨same ▸ ordered.bare, same ▸ ordered.distinct⟩
  · constructor
    · rw [added]
      exact List.forall_mem_append.2
        ⟨ordered.bare, List.forall_mem_singleton.2 (unquoted_bareKey key)⟩
    · rw [added, List.pairwise_append]
      refine ⟨ordered.distinct, List.pairwise_singleton _ _, fun k member => ?_⟩
      exact List.forall_mem_singleton.2 (fresh k member)

theorem setAll (ordered : o.Ordered) (entries : List (String × α)) : (o.setAll entries).Ordered := by
  unfold Object.setAll
  induction entries generalizing o with
  | nil => exact ordered
  | cons e entries ih => exact ih (ordered.set e.1 e.2)

theorem fill (ordered : o.Ordered) (entries : List (String × α)) : (o.fill entries).Ordered := by
  unfold Object.fill
  induction entries generalizing o with
  | nil => exact ordered
  | cons e entries ih =>
    refine ih ?_
    dsimp only
    split
    · exact ordered
    · exact ordered.set e.1 e.2

end Ordered

end Object

end Script
