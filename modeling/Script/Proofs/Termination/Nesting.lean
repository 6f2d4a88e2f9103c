import Mathlib.Logic.Relation
import Script.Proofs.Literals.Data
import Script.Proofs.Termination.Plain

/-! Lists and objects within each other. A value has a text exactly if neither it nor anything that
it holds, at whatever depth, holds itself: otherwise the way down never comes to an end. -/

namespace Script

namespace Heap

/-- What a value holds directly. -/
def parts (h : Heap) : Value → List Value
  | .list r => (h.list r).toList
  | .object r => (h.object r).entries.map Prod.snd
  | _ => []

/-- The first value holds the second, at whatever depth. -/
def Contains (h : Heap) : Value → Value → Prop :=
  Relation.TransGen fun v w => w ∈ h.parts v

/-- The value does not contain itself, and it contains no other that does. -/
structure Acyclic (h : Heap) (v : Value) : Prop where
  self : ¬ h.Contains v v
  parts : ∀ w, h.Contains v w → ¬ h.Contains w w

variable {h : Heap} {v w : Value}

theorem Acyclic.part (acyclic : h.Acyclic v) (member : w ∈ h.parts v) : h.Acyclic w where
  self := acyclic.parts w (.single member)
  parts u inside := acyclic.parts u (.head member inside)

theorem acyclic_of_parts (each : ∀ w ∈ h.parts v, h.Acyclic w) : h.Acyclic v := by
  have below (u : Value) (inside : h.Contains v u) : ¬ h.Contains u u := by
    obtain ⟨w, member, rest⟩ := Relation.TransGen.head'_iff.1 inside
    rcases Relation.reflTransGen_iff_eq_or_transGen.1 rest with rfl | further
    · exact (each _ member).self
    · exact (each w member).parts u further
  exact ⟨fun cycle => below v cycle cycle, below⟩

theorem acyclic_of_parts_nil (none : h.parts v = []) : h.Acyclic v :=
  acyclic_of_parts fun w member => by
    rw [none] at member
    cases member

/-! Texts of parts. -/

theorem isSome_mapM {α β : Type} {f : α → Option β} {l : List α} :
    (l.mapM f).isSome ↔ ∀ a ∈ l, (f a).isSome := by
  induction l with
  | nil => simp
  | cons a l ih =>
    rw [List.mapM_cons, List.forall_mem_cons, ← ih]
    cases f a with
    | none => simp
    | some b => cases l.mapM f <;> simp

theorem isSome_nested {text : Value → Option String} (strings : ∀ s, (text (.string s)).isSome)
    (v : Value) : (nested text v).isSome ↔ (text v).isSome := by
  cases v with
  | string s => exact ⟨fun _ => strings s, fun _ => rfl⟩
  | _ => exact Iff.rfl

theorem isSome_textUpTo_string (n : Nat) (s : String) : (h.textUpTo n (.string s)).isSome := by
  cases n <;> rfl

/-- The text of an entry of an object. -/
def entryText (text : Value → Option String) (e : String × Value) : Option String := do
  return "\"" ++ e.1 ++ "\": " ++ (← nested text e.2)

theorem isSome_textUpTo_succ (n : Nat) :
    (h.textUpTo (n + 1) v).isSome ↔ ∀ w ∈ h.parts v, (h.textUpTo n w).isSome := by
  have part (w : Value) := isSome_nested (isSome_textUpTo_string (h := h) n) w
  cases v with
  | list r =>
    have items : (h.textUpTo (n + 1) (.list r)).isSome ↔
        ((h.list r).toList.mapM (nested (h.textUpTo n))).isSome := by
      rw [textUpTo]
      cases (h.list r).toList.mapM (nested (h.textUpTo n)) <;> simp
    rw [items, isSome_mapM]
    simp only [part, parts]
  | object r =>
    have entry (e : String × Value) :
        (entryText (h.textUpTo n) e).isSome ↔ (h.textUpTo n e.2).isSome := by
      rw [← part, entryText]
      cases nested (h.textUpTo n) e.2 <;> simp
    have whole : h.textUpTo (n + 1) (.object r) = (do
        let entries ← (h.object r).entries.mapM (entryText (h.textUpTo n))
        return "\x7b" ++ ", ".intercalate entries ++ "\x7d") := rfl
    have entries : (h.textUpTo (n + 1) (.object r)).isSome ↔
        ((h.object r).entries.mapM (entryText (h.textUpTo n))).isSome := by
      rw [whole]
      cases (h.object r).entries.mapM (entryText (h.textUpTo n)) <;> simp
    rw [entries, isSome_mapM]
    simp only [entry, parts, List.forall_mem_map]
  | _ => exact iff_of_true rfl (List.forall_mem_nil _)

/-- A value whose text comes to an end does not contain itself. -/
theorem acyclic_of_textUpTo (n : Nat) (text : (h.textUpTo n v).isSome) : h.Acyclic v := by
  induction n generalizing v with
  | zero =>
    cases v with
    | list r | object r => cases text
    | _ => exact acyclic_of_parts_nil rfl
  | succ n ih =>
    have parts := (isSome_textUpTo_succ n).1 text
    exact acyclic_of_parts fun w member => ih (parts w member)

/-! The way down. -/

/-- Where the list or the object is. -/
def place? : Value → Option (Nat ⊕ Nat)
  | .list r => some (.inl r.index)
  | .object r => some (.inr r.index)
  | _ => none

/-- No two of them are at one place. -/
theorem eq_of_place? {p : Nat ⊕ Nat} (here : place? v = some p) (there : place? w = some p) :
    v = w := by
  have same {u : Value} (at' : place? u = some p) :
      u = p.elim (fun i => .list ⟨i⟩) (fun i => .object ⟨i⟩) := by
    cases u with
    | list r | object r =>
      cases at'
      rfl
    | _ => cases at'
  exact (same here).trans (same there).symm

theorem Plain.mem_places {p : Nat ⊕ Nat} (plain : h.Plain v) (here : place? v = some p) :
    p ∈ h.places := by
  cases v with
  | list r =>
    have there : r.index < h.lists.size := plain
    cases here
    simpa [places] using there
  | object r =>
    have there : r.index < h.objects.size := plain
    cases here
    simpa [places] using there
  | _ => cases here

theorem isSome_textUpTo_of_place?_eq_none (none : place? v = none) (n : Nat) :
    (h.textUpTo n v).isSome := by
  cases v with
  | list r | object r => cases none
  | _ => cases n <;> rfl

/-- Places of lists and objects that contain the value. -/
structure Over (h : Heap) (seen : Finset (Nat ⊕ Nat)) (v : Value) : Prop where
  within : seen ⊆ h.places
  contain : ∀ p ∈ seen, ∃ w, place? w = some p ∧ h.Contains w v

/-- The place of a value that does not contain itself is a new one on the way down to its parts. -/
theorem Over.insert {seen : Finset (Nat ⊕ Nat)} {p : Nat ⊕ Nat} (above : h.Over seen v)
    (plain : h.Plain v) (acyclic : h.Acyclic v) (here : place? v = some p) :
    (insert p seen).card = seen.card + 1 ∧ insert p seen ⊆ h.places ∧
      ∀ w ∈ h.parts v, h.Over (insert p seen) w := by
  have within : Insert.insert p seen ⊆ h.places :=
    Finset.insert_subset (plain.mem_places here) above.within
  refine ⟨Finset.card_insert_of_notMem fun member => ?_, within, fun w part => ⟨within, ?_⟩⟩
  · obtain ⟨w, there, inside⟩ := above.contain p member
    cases eq_of_place? here there
    exact acyclic.self inside
  · refine Finset.forall_mem_insert _ _ _ |>.2 ⟨⟨v, here, .single part⟩, fun q member => ?_⟩
    obtain ⟨u, there, inside⟩ := above.contain q member
    exact ⟨u, there, inside.tail part⟩

namespace Codeless

variable (codeless : h.Codeless)

include codeless

theorem parts (v : Value) : h.AllPlain (h.parts v) := by
  cases v with
  | list r => exact fun w member => codeless.list r w (Array.mem_toList_iff.1 member)
  | object r => exact List.forall_mem_map.2 (codeless.object r)
  | _ => exact List.forall_mem_nil _

theorem isSome_textUpTo (plain : h.Plain v) (acyclic : h.Acyclic v) {n : Nat}
    {seen : Finset (Nat ⊕ Nat)} (above : h.Over seen v) (enough : h.places.card ≤ n + seen.card) :
    (h.textUpTo n v).isSome := by
  induction n generalizing v seen with
  | zero =>
    cases here : place? v with
    | none => exact isSome_textUpTo_of_place?_eq_none here _
    | some p =>
      obtain ⟨size, within, -⟩ := above.insert plain acyclic here
      have fits := Finset.card_le_card within
      omega
  | succ n ih =>
    cases here : place? v with
    | none => exact isSome_textUpTo_of_place?_eq_none here _
    | some p =>
      obtain ⟨size, -, below⟩ := above.insert plain acyclic here
      refine (isSome_textUpTo_succ n).2 fun w member => ?_
      exact ih (codeless.parts v w member) (acyclic.part member) (below w member) (by omega)

/-- A value has a text if it does not contain itself, and only then. -/
theorem isSome_text?_iff (plain : h.Plain v) : (h.text? v).isSome ↔ h.Acyclic v := by
  refine ⟨acyclic_of_textUpTo _, fun acyclic => ?_⟩
  have above : h.Over ∅ v :=
    ⟨Finset.empty_subset _, fun p member => absurd member (Finset.notMem_empty p)⟩
  exact codeless.isSome_textUpTo plain acyclic above (Nat.le_of_eq h.card_places)

end Codeless

end Heap

end Script
