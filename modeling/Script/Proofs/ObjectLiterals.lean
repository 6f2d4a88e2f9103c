import Mathlib
import Script.Proofs.Filling
import Script.Proofs.Limits
import Script.Proofs.Lookup
import Script.Proofs.Phrases.Formed

/-! Object literals. The parser tells their keys apart as they are written, and the object by what
is left without the quotes at their ends. -/

namespace Script

namespace Object

variable {α : Type} {o : Object α}

theorem size_set_of_contains {key : String} (there : o.contains key = true) (v : α) :
    (o.set key v).size = o.size := by
  have lengths (p : Object α) : p.size = p.keys.length := (List.length_map _).symm
  rw [lengths, lengths]
  rcases o.keys_set key v with same | ⟨-, fresh⟩
  · rw [same]
  · obtain ⟨e, member, agree⟩ := List.any_eq_true.1 there
    exact absurd (sameKey_iff.1 agree) (fresh e.1 (List.mem_map_of_mem member))

theorem size_set_of_new {key : String} (new : ¬ o.contains key = true) (v : α) :
    (o.set key v).size = o.size + 1 := by
  rw [set_new new]
  exact List.length_append

theorem size_setAll_le (o : Object α) (entries : List (String × α)) :
    (o.setAll entries).size ≤ o.size + entries.length := by
  induction entries generalizing o with
  | nil => exact Nat.le_refl _
  | cons e entries ih =>
    have rest := ih (o.set e.1 e.2)
    rw [setAll_cons, List.length_cons]
    by_cases there : o.contains e.1 = true
    · rw [size_set_of_contains there] at rest
      omega
    · rw [size_set_of_new there] at rest
      omega

/-- As many entries are added as are set only if all keys are new and no two of them agree. -/
theorem size_setAll_iff (o : Object α) (entries : List (String × α)) :
    (o.setAll entries).size = o.size + entries.length ↔
      (∀ e ∈ entries, ¬ o.contains e.1 = true) ∧ entries.Pairwise fun a b => ¬ Agree a.1 b.1 := by
  constructor
  · intro full
    induction entries generalizing o with
    | nil => exact ⟨List.forall_mem_nil _, .nil⟩
    | cons e entries ih =>
      have rest := size_setAll_le (o.set e.1 e.2) entries
      rw [setAll_cons, List.length_cons] at full
      by_cases there : o.contains e.1 = true
      · rw [size_set_of_contains there] at rest
        omega
      · rw [size_set_of_new there] at rest
        obtain ⟨others, apart⟩ := ih (o.set e.1 e.2) (by rw [size_set_of_new there]; omega)
        refine ⟨List.forall_mem_cons.2 ⟨there, fun e' member held => ?_⟩,
          List.pairwise_cons.2 ⟨fun e' member agree => ?_, apart⟩⟩
        · exact others e' member (contains_set_of_kept o held e.1 e.2)
        · apply others e' member
          rw [← contains_agree _ agree, contains_set_self]
  · rintro ⟨new, apart⟩
    rw [size, setAll_new new apart, List.length_append, List.length_map, size]

end Object

namespace Host

variable {h : Host} {frame : Frame} {m m' : Machine}

theorem evaluateAll_length (es : List Expr) {vs : List Value}
    (ran : h.evaluateAll frame es m = .ok vs m') : vs.length = es.length := by
  induction es generalizing m vs with
  | nil =>
    cases ran
    rfl
  | cons e es ih =>
    rw [evaluateAll] at ran
    obtain ⟨v, m₁, -, ran⟩ := ran_of_bind ran
    obtain ⟨vs', m₂, rest, ran⟩ := ran_of_bind ran
    cases ran
    exact congrArg (· + 1) (ih rest)

/-- The values of all entries are there before any of them is set. -/
theorem evaluateEntries_eq (entries : List (String × Expr)) (o : Object Value) :
    h.evaluateEntries frame entries o =
      (fun vs => o.setAll ((entries.map Prod.fst).zip vs)) <$>
        h.evaluateAll frame (entries.map Prod.snd) := by
  induction entries generalizing o with
  | nil => rfl
  | cons e entries ih =>
    obtain ⟨key, e⟩ := e
    simp only [evaluateEntries, evaluateAll, List.map_cons, ih, map_bind]
    rfl

/-- An object literal makes a new object, in which its entries are set one after another. -/
theorem object_ran {entries : List (String × Expr)} {span : Span} {v : Value}
    (ran : h.evaluate frame (.object entries span) m = .ok v m') :
    ∃ vs m₁, h.evaluateAll frame (entries.map Prod.snd) m = .ok vs m₁ ∧
      ∃ r, v = .object r ∧
        m'.heap.object r = Object.empty.setAll ((entries.map Prod.fst).zip vs) := by
  rw [evaluate, evaluateEntries_eq, map_eq_pure_bind] at ran
  obtain ⟨o, m₁, filled, made⟩ := ran_of_bind ran
  obtain ⟨vs, m₂, values, set⟩ := ran_of_bind filled
  cases set
  cases made
  exact ⟨vs, m₁, values, _, rfl, Heap.object_newObject _ _⟩

end Host

/-- No two keys lead to one entry of an object. -/
def KeysApart {α : Type} (entries : List (String × α)) : Prop :=
  entries.Pairwise fun a b => ¬ Agree a.1 b.1

instance {α : Type} (entries : List (String × α)) : Decidable (KeysApart entries) :=
  inferInstanceAs (Decidable (List.Pairwise _ _))

theorem keysApart_zip {α β : Type} {entries : List (String × α)} {vs : List β}
    (lengths : vs.length = entries.length) :
    KeysApart ((entries.map Prod.fst).zip vs) ↔ KeysApart entries := by
  have keys : ((entries.map Prod.fst).zip vs).map Prod.fst = entries.map Prod.fst :=
    List.map_fst_zip (by rw [List.length_map, lengths])
  have mapped {γ : Type} (es : List (String × γ)) :
      KeysApart es ↔ (es.map Prod.fst).Pairwise fun a b => ¬ Agree a b := by
    rw [KeysApart, List.pairwise_map]
  rw [mapped, mapped, keys]

/-- An object that is filled with entries has one for each only if their keys are apart, and then they
stand in their order. -/
theorem Object.empty_setAll_iff {α : Type} (entries : List (String × α)) :
    ((Object.empty.setAll entries).size = entries.length ↔ KeysApart entries) ∧
      ((Object.empty.setAll entries).entries = entries.map (fun e => (bareKey e.1, e.2)) ↔
        KeysApart entries) := by
  have full := Object.size_setAll_iff Object.empty entries
  have none : ∀ e ∈ entries, ¬ (Object.empty : Object α).contains e.1 = true :=
    fun e _ held => Bool.false_ne_true held
  rw [and_iff_right none] at full
  have sizes : (Object.empty.setAll entries).size = entries.length ↔ KeysApart entries := by
    rw [KeysApart, ← full, Object.size, Object.empty, Object.size, List.length_nil, Nat.zero_add]
  refine ⟨sizes, fun kept => ?_, fun apart => Object.setAll_new none apart⟩
  rw [← sizes, Object.size, kept, List.length_map]

/-- Keys that agree are the same as they are written, unless there are quotes at their ends. -/
theorem Agree.quoted {a b : String} (agree : Agree a b) (differ : ¬ sameKey a b = true) :
    bareKey a ≠ a ∨ bareKey b ≠ b := by
  by_contra plain
  rw [not_or, not_not, not_not] at plain
  rw [Agree, plain.1, plain.2] at agree
  exact differ (sameKey_iff.2 agree)

/-- The entries of an object literal in an accepted program have keys that differ as they are written.
The object that it makes has no more entries, and exactly as many, each with the value of its own, if
no two keys agree once the double quotes at their ends are gone. Of those that agree the last one has
its value under them, and one of them is written with such quotes. -/
theorem entries_kept {tokens : List Token} {b : Block} (accepted : Parser.program tokens = .ok b)
    {entries : List (String × Expr)} {span : Span}
    (inside : (Phrase.expression (.object entries span)).In b) {h : Host} {frame : Frame}
    {m m' : Machine} {v : Value}
    (ran : h.evaluate frame (.object entries span) m = .ok v m') :
    ∃ vs m₁ r, h.evaluateAll frame (entries.map Prod.snd) m = .ok vs m₁ ∧
      vs.length = entries.length ∧ v = .object r ∧
      (entries.Pairwise fun a b => ¬ sameKey a.1 b.1 ∧
        (Agree a.1 b.1 → bareKey a.1 ≠ a.1 ∨ bareKey b.1 ≠ b.1)) ∧
      (∀ key, (m'.heap.object r).get? key = Object.latest key ((entries.map Prod.fst).zip vs)) ∧
      (m'.heap.object r).size ≤ entries.length ∧
      ((m'.heap.object r).size = entries.length ↔ KeysApart entries) ∧
      ((m'.heap.object r).entries = (entries.map fun e => bareKey e.1).zip vs ↔
        KeysApart entries) := by
  obtain ⟨written, -⟩ : (Expr.object entries span).WellFormed :=
    inside.wellFormed (program_wellFormed accepted)
  obtain ⟨vs, m₁, values, r, rfl, filled⟩ := Host.object_ran ran
  have lengths := Host.evaluateAll_length _ values
  rw [List.length_map] at lengths
  have zipped : ((entries.map Prod.fst).zip vs).length = entries.length := by
    rw [List.length_zip, List.length_map, lengths, Nat.min_self]
  obtain ⟨sizes, rows⟩ := Object.empty_setAll_iff ((entries.map Prod.fst).zip vs)
  have bared : ((entries.map Prod.fst).zip vs).map (fun e => (bareKey e.1, e.2)) =
      (entries.map fun e => bareKey e.1).zip vs := by
    rw [List.zip_map_left, List.zip_map_left, List.map_map]
    rfl
  rw [bared] at rows
  rw [zipped, keysApart_zip lengths] at sizes
  rw [keysApart_zip lengths] at rows
  have most := Object.size_setAll_le Object.empty ((entries.map Prod.fst).zip vs)
  rw [zipped] at most
  refine ⟨vs, m₁, r, values, lengths, rfl,
    written.imp fun differ => ⟨differ, fun agree => agree.quoted differ⟩, ?_⟩
  rw [filled]
  exact ⟨Object.get?_empty_setAll _, Nat.le_trans most (Nat.le_of_eq (Nat.zero_add _)), sizes, rows⟩

/-- The entries of the object that an expression makes in a script without variables. -/
def entriesMade (e : Expr) : Option (List (String × Value)) :=
  match (Host.of 0 (.inMemory ⟨[], []⟩ .working)).evaluate State.start.frame e State.start.machine with
  | .ok (.object r) m => some (m.heap.object r).entries
  | _ => none

theorem entriesMade_eq {e : Expr} {r : ObjectRef} {m : Machine}
    (ran : (Host.of 0 (.inMemory ⟨[], []⟩ .working)).evaluate State.start.frame e
      State.start.machine = .ok (.object r) m) : entriesMade e = some (m.heap.object r).entries := by
  rw [entriesMade, ran]

/-- A literal with a quote at the end of a key. -/
def quotedOnce : Expr :=
  .object [("A", .literal (.bool true) default), ("b\"", .literal (.bool false) default)] default

def quotedOnceTokens : List Token :=
  [⟨.name, "x", default⟩, ⟨.operator, "=", default⟩, ⟨.delimiter, "\x7b", default⟩,
    ⟨.name, "A", default⟩, ⟨.delimiter, ":", default⟩, ⟨.keyword, "True", default⟩,
    ⟨.delimiter, ",", default⟩, ⟨.text, "b\"", default⟩, ⟨.delimiter, ":", default⟩,
    ⟨.keyword, "False", default⟩, ⟨.delimiter, "\x7d", default⟩]

theorem quotedOnce_kept :
    Parser.program quotedOnceTokens = .ok [.assign (.name "x") quotedOnce default] ∧
      entriesMade quotedOnce = some [("A", .bool true), ("b", .bool false)] := by
  have accepted : Parser.program quotedOnceTokens = .ok [.assign (.name "x") quotedOnce default] :=
    rfl
  have inside : (Phrase.expression quotedOnce).In [.assign (.name "x") quotedOnce default] :=
    .part (.top (List.mem_singleton_self _)) (List.mem_singleton_self _)
  have ran : (Host.of 0 (.inMemory ⟨[], []⟩ .working)).evaluate State.start.frame quotedOnce
      State.start.machine = .ok (.object ⟨0⟩) _ := rfl
  obtain ⟨vs, m₁, r, values, -, made, -, -, -, -, kept⟩ := entries_kept accepted inside ran
  cases made
  cases values
  refine ⟨accepted, (entriesMade_eq ran).trans (congrArg some (kept.2 ?_))⟩
  decide +kernel

/-- A literal whose keys differ by quotes only. -/
def quotedTwice : Expr :=
  .object [("\"a\"", .literal (.bool true) ⟨12, 16, 1, 13⟩),
    ("a", .literal (.bool false) ⟨21, 26, 1, 22⟩)] ⟨4, 27, 1, 5⟩

theorem quotedTwice_merged :
    parse "x = \x7b'\"a\"': True, a: False\x7d" =
        .ok [.assign (.name "x") quotedTwice ⟨0, 27, 1, 1⟩] ∧
      entriesMade quotedTwice = some [("a", .bool false)] := by
  constructor
  · cbv
  · decide +kernel

end Script
