import Mathlib.Data.List.Nodup
import Script.Proofs.Keys

/-! Filling and setting. A fill only adds keys that are not there. So what is set afterwards under those
same keys leaves nothing of the fill but their order, and that is kept too if they are set in it. -/

namespace Script

variable {α β : Type}

theorem bareKey_of_unquoted {key : String} (bare : Unquoted key) : bareKey key = key := by
  obtain ⟨first, last⟩ := bare
  have front : key.toList.dropWhile (· == '"') = key.toList := by
    apply List.dropWhile_eq_self_iff.2
    intro nonempty here
    rw [List.head?_eq_getElem?, List.getElem?_eq_getElem nonempty] at first
    exact first (congrArg some (eq_of_beq here))
  have back : key.toList.rdropWhile (· == '"') = key.toList := by
    apply List.rdropWhile_eq_self_iff.2
    intro nonempty here
    rw [List.getLast?_eq_some_getLast nonempty] at last
    exact last (congrArg some (eq_of_beq here))
  rw [bareKey, Text.strip_eq, front, back, String.ofList_toList]

namespace Agree

variable {a b c : String}

theorem refl (a : String) : Agree a a := rfl

theorem symm (agree : Agree a b) : Agree b a := Eq.symm agree

theorem trans (first : Agree a b) (next : Agree b c) : Agree a c := Eq.trans first next

end Agree

namespace Object

/-! Two changes in a row. -/

theorem put_put (key : String) (v w : α) (entries : List (String × α)) :
    put key w (put key v entries) = put key w entries := by
  induction entries with
  | nil => exact if_pos (sameKey_iff.2 rfl)
  | cons e entries ih =>
    by_cases here : sameKey e.1 key = true
    · simp only [put, if_pos here]
    · simp only [put, if_neg here, ih]

theorem put_comm {key other : String} {entries : List (String × α)}
    (there : ∃ e ∈ entries, sameKey e.1 key = true)
    (new : ∀ e ∈ entries, ¬ sameKey e.1 other = true) (v w : α) :
    put key v (put other w entries) = put other w (put key v entries) := by
  induction entries with
  | nil =>
    obtain ⟨e, member, -⟩ := there
    cases member
  | cons e entries ih =>
    obtain ⟨first, others⟩ := List.forall_mem_cons.1 new
    by_cases here : sameKey e.1 key = true
    · simp only [put, if_pos here, if_neg first]
    · obtain ⟨e', member, same⟩ := there
      have member' : e' ∈ entries := (List.mem_cons.1 member).resolve_left fun is => here (is ▸ same)
      simp only [put, if_neg here, if_neg first, ih ⟨e', member', same⟩ others]

variable {o : Object α} {key other : String} {v w : α}

theorem get?_agree (o : Object α) (agree : Agree key other) : o.get? key = o.get? other := by
  unfold Agree at agree
  unfold get? sameKey
  rw [agree]

theorem contains_agree (o : Object α) (agree : Agree key other) :
    o.contains key = o.contains other := by
  rw [contains_eq_isSome, contains_eq_isSome, o.get?_agree agree]

theorem contains_set_self (o : Object α) (key : String) (v : α) :
    (o.set key v).contains key = true := by
  rw [contains_eq_isSome, get?_set_agree o (.refl key)]
  rfl

theorem contains_set_of_contains (o : Object α) (there : o.contains key = true) (other : String)
    (v : α) : (o.set key v).contains other = o.contains other := by
  by_cases agree : Agree key other
  · rw [← contains_agree _ agree, ← contains_agree _ agree, contains_set_self, there]
  · rw [contains_eq_isSome, contains_eq_isSome, get?_set_differ o agree]

theorem contains_set_of_kept (o : Object α) (there : o.contains other = true) (key : String)
    (v : α) : (o.set key v).contains other = true := by
  by_cases agree : Agree key other
  · rw [← contains_agree _ agree, contains_set_self]
  · rw [contains_eq_isSome, get?_set_differ o agree, ← contains_eq_isSome, there]

theorem set_set (o : Object α) (key : String) (v w : α) :
    (o.set key v).set key w = o.set key w :=
  congrArg Object.mk (put_put (bareKey key) v w o.entries)

/-- A key that is there keeps its place, and a new one comes last, in whichever order they are
set. -/
theorem set_comm (there : o.contains key = true) (new : ¬ o.contains other = true) :
    (o.set other w).set key v = (o.set key v).set other w := by
  apply congrArg Object.mk
  apply put_comm (List.any_eq_true.1 there)
  exact fun e member same => new (List.any_eq_true.2 ⟨e, member, same⟩)

theorem set_new (new : ¬ o.contains key = true) :
    o.set key v = ⟨o.entries ++ [(bareKey key, v)]⟩ := by
  apply congrArg Object.mk
  apply put_new
  exact fun e member same => new (List.any_eq_true.2 ⟨e, member, same⟩)

/-! Many changes. -/

theorem setAll_cons (o : Object α) (e : String × α) (entries : List (String × α)) :
    o.setAll (e :: entries) = (o.set e.1 e.2).setAll entries := rfl

theorem fill_cons (o : Object α) (e : String × α) (entries : List (String × α)) :
    o.fill (e :: entries) = (if o.contains e.1 then o else o.set e.1 e.2).fill entries := rfl

/-- A fill passes over a key that is there, so it does not matter whether that is set before. -/
theorem set_fill (there : o.contains key = true) (entries : List (String × α)) :
    (o.fill entries).set key v = (o.set key v).fill entries := by
  induction entries generalizing o with
  | nil => rfl
  | cons e entries ih =>
    rw [fill_cons, fill_cons, contains_set_of_contains o there]
    split
    · exact ih there
    · rename_i new
      rw [ih (contains_set_of_kept o there e.1 e.2), set_comm there new]

/-- Setting keys in order leaves nothing of a fill with the foremost of them. -/
theorem setAll_fill {low high : List (String × α)}
    (foremost : low.map Prod.fst <+: high.map Prod.fst) :
    (o.fill low).setAll high = o.setAll high := by
  induction low generalizing o high with
  | nil => rfl
  | cons e low ih =>
    cases high with
    | nil => exact absurd (List.prefix_nil.1 foremost) (List.cons_ne_nil _ _)
    | cons e' high =>
      obtain ⟨same, rest⟩ := List.cons_prefix_cons.1 foremost
      have filled : (if o.contains e.1 then o else o.set e.1 e.2).contains e.1 = true := by
        split
        · rename_i there
          exact there
        · exact contains_set_self o e.1 e.2
      have begun : (if o.contains e.1 then o else o.set e.1 e.2).set e.1 e'.2 = o.set e.1 e'.2 := by
        split
        · rfl
        · exact set_set o e.1 e.2 e'.2
      rw [setAll_cons, setAll_cons, ← same, fill_cons, set_fill filled, begun]
      exact ih rest

theorem setAll_fills {high : List (String × α)} {entries : β → List (String × α)} {lows : List β}
    (foremost : ∀ b ∈ lows, (entries b).map Prod.fst <+: high.map Prod.fst) :
    (lows.foldl (fun o b => o.fill (entries b)) o).setAll high = o.setAll high := by
  induction lows generalizing o with
  | nil => rfl
  | cons b lows ih =>
    obtain ⟨first, others⟩ := List.forall_mem_cons.1 foremost
    rw [List.foldl_cons, ih others, setAll_fill first]

/-- The value of the last entry whose key leads to the same entry. -/
def latest (key : String) (entries : List (String × α)) : Option α :=
  (entries.reverse.find? fun e => Agree e.1 key).map Prod.snd

theorem latest_append_singleton (key : String) (entries : List (String × α)) (e : String × α) :
    latest key (entries ++ [e]) = if Agree e.1 key then some e.2 else latest key entries := by
  unfold latest
  rw [List.reverse_append, List.reverse_singleton, List.singleton_append, List.find?_cons]
  by_cases agree : Agree e.1 key
  · simp only [decide_eq_true agree, if_pos agree, Option.map_some]
  · simp only [decide_eq_false agree, if_neg agree]

theorem latest_eq_none_iff {entries : List (String × α)} :
    latest key entries = none ↔ ∀ e ∈ entries, ¬ Agree e.1 key := by
  simp [latest]

theorem latest_some {entries : List (String × α)} (found : latest key entries = some v) :
    ∃ e ∈ entries, Agree e.1 key ∧ e.2 = v := by
  obtain ⟨e, here, rfl⟩ := Option.map_eq_some_iff.1 found
  have member := List.mem_reverse.1 (List.mem_of_find?_eq_some here)
  have agree := List.find?_some here
  exact ⟨e, member, of_decide_eq_true agree, rfl⟩

/-- Of the entries that a key leads to there is one only, so it is the last. -/
theorem latest_of_mem {entries : List (String × α)} {e : String × α} (member : e ∈ entries)
    (agree : Agree e.1 key) (only : ∀ e' ∈ entries, Agree e'.1 e.1 → e' = e) :
    latest key entries = some e.2 := by
  cases found : latest key entries with
  | none => exact absurd agree (latest_eq_none_iff.1 found e member)
  | some v =>
    obtain ⟨e', member', agree', rfl⟩ := latest_some found
    rw [only e' member' (agree'.trans agree.symm)]

/-- The last of the entries with a key wins, and all of them win over what was there. -/
theorem get?_setAll_eq (o : Object α) (entries : List (String × α)) (key : String) :
    (o.setAll entries).get? key = (latest key entries).or (o.get? key) := by
  induction entries using List.reverseRecOn with
  | nil => rfl
  | append_singleton entries e ih =>
    have last : o.setAll (entries ++ [e]) = (o.setAll entries).set e.1 e.2 := List.foldl_append
    rw [last, latest_append_singleton]
    split
    · rename_i agree
      exact get?_set_agree _ agree e.2
    · rename_i differ
      rw [get?_set_differ _ differ, ih]

theorem get?_empty_setAll (entries : List (String × α)) (key : String) :
    (Object.empty.setAll entries).get? key = latest key entries := by
  rw [get?_setAll_eq]
  exact Option.or_none

/-- Entries under new keys that do not agree with each other are added as they are. -/
theorem setAll_new {entries : List (String × α)}
    (new : ∀ e ∈ entries, ¬ o.contains e.1 = true)
    (apart : entries.Pairwise fun a b => ¬ Agree a.1 b.1) :
    (o.setAll entries).entries = o.entries ++ entries.map fun e => (bareKey e.1, e.2) := by
  induction entries generalizing o with
  | nil => exact (List.append_nil _).symm
  | cons e entries ih =>
    obtain ⟨first, others⟩ := List.forall_mem_cons.1 new
    obtain ⟨differs, apart'⟩ := List.pairwise_cons.1 apart
    have new' : ∀ e' ∈ entries, ¬ (o.set e.1 e.2).contains e'.1 = true := by
      intro e' member
      rw [contains_eq_isSome, get?_set_differ o (differs e' member), ← contains_eq_isSome]
      exact others e' member
    rw [setAll_cons, ih new' apart', set_new first, List.map_cons, List.append_assoc]
    rfl

namespace Ordered

theorem agree_iff (ordered : o.Ordered) {e : String × α} (member : e ∈ o.entries) :
    Agree e.1 key ↔ sameKey e.1 (bareKey key) = true := by
  rw [sameKey_iff, Agree, bareKey_of_unquoted (ordered.bare e.1 (List.mem_map_of_mem member))]

theorem agree_eq (ordered : o.Ordered) {e e' : String × α} (member : e ∈ o.entries)
    (member' : e' ∈ o.entries) (agree : Agree e'.1 e.1) : e' = e := by
  have distinct : (o.entries.map fun e => Text.fold e.1).Nodup := by
    have pairs := ordered.distinct
    rw [keys, List.pairwise_map] at pairs
    exact List.pairwise_map.2 pairs
  rw [ordered.agree_iff member', bareKey_of_unquoted (ordered.bare e.1 (List.mem_map_of_mem member)),
    sameKey_iff] at agree
  exact List.inj_on_of_nodup_map distinct member' member agree

/-- The entries of an object are what it holds. -/
theorem latest_eq (ordered : o.Ordered) (key : String) : latest key o.entries = o.get? key := by
  cases held : o.get? key with
  | none =>
    apply latest_eq_none_iff.2
    intro e member agree
    have absent := List.find?_eq_none.1 (Option.map_eq_none_iff.1 held) e member
    exact absent ((ordered.agree_iff member).1 agree)
  | some v =>
    obtain ⟨e, here, rfl⟩ := Option.map_eq_some_iff.1 held
    have member := List.mem_of_find?_eq_some here
    have same := List.find?_some here
    exact latest_of_mem member ((ordered.agree_iff member).2 same) fun e' member' =>
      ordered.agree_eq member member'

end Ordered

end Object

end Script
