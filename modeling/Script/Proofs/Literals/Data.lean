import Mathlib.Data.Finset.Card
import Mathlib.Data.Finset.Sum
import Mathlib.Data.List.Forall2
import Script.Display
import Script.Proofs.Keys

/-! Values as trees of data, and the texts of such trees. A value that stands for a tree has a text: no
reference comes up twice on the way down from it, so that it is nested no deeper than there are lists
and objects. -/

namespace Script

/-- What can be written as a literal. Lists and objects hold their parts. -/
inductive Data
  | null
  | bool (b : Bool)
  | int (n : Int64)
  | string (s : String)
  | list (items : List Data)
  | object (entries : List (String × Data))

namespace Data

mutual

/-- How deep lists and objects are nested. -/
def depth : Data → Nat
  | .list items => depths items + 1
  | .object entries => entryDepths entries + 1
  | _ => 0

def depths : List Data → Nat
  | [] => 0
  | d :: ds => max d.depth (depths ds)

def entryDepths : List (String × Data) → Nat
  | [] => 0
  | (_, d) :: rest => max d.depth (entryDepths rest)

end

mutual

/-- The text of a tree within a list or an object. -/
def text : Data → String
  | .null => "null"
  | .bool b => if b then "True" else "False"
  | .int n => Integer.text n
  | .string s => "\"" ++ s ++ "\""
  | .list items => "[" ++ ", ".intercalate (texts items) ++ "]"
  | .object entries => "\x7b" ++ ", ".intercalate (entryTexts entries) ++ "\x7d"

def texts : List Data → List String
  | [] => []
  | d :: ds => d.text :: texts ds

def entryTexts : List (String × Data) → List String
  | [] => []
  | (key, d) :: rest => ("\"" ++ key ++ "\": " ++ d.text) :: entryTexts rest

end

mutual

/-- No double quote stands in a text or a key, where it would end it, and no integer is the least
one: its minus sign is no part of a number, and the number without it is too large. -/
def Plain : Data → Prop
  | .int n => n ≠ Int64.minValue
  | .string s => '"' ∉ s.toList
  | .list items => AllPlain items
  | .object entries => EntriesPlain entries
  | _ => True

def AllPlain : List Data → Prop
  | [] => True
  | d :: ds => d.Plain ∧ AllPlain ds

def EntriesPlain : List (String × Data) → Prop
  | [] => True
  | (key, d) :: rest => '"' ∉ key.toList ∧ d.Plain ∧ EntriesPlain rest

end

mutual

/-- The keys of each object are different ones. -/
def Distinct : Data → Prop
  | .list items => AllDistinct items
  | .object entries =>
    (entries.Pairwise fun a b => ¬ sameKey a.1 b.1) ∧ EntriesDistinct entries
  | _ => True

def AllDistinct : List Data → Prop
  | [] => True
  | d :: ds => d.Distinct ∧ AllDistinct ds

def EntriesDistinct : List (String × Data) → Prop
  | [] => True
  | (_, d) :: rest => d.Distinct ∧ EntriesDistinct rest

end

/-- A tree whose text can be read back. -/
structure Readable (d : Data) : Prop where
  plain : d.Plain
  distinct : d.Distinct

/-! Lists of trees as ordinary lists. -/

@[simp] theorem texts_eq_map (ds : List Data) : texts ds = ds.map text := by
  induction ds with
  | nil => rfl
  | cons d ds ih => simp [texts, ih]

@[simp] theorem entryTexts_eq_map (es : List (String × Data)) :
    entryTexts es = es.map fun e => "\"" ++ e.1 ++ "\": " ++ e.2.text := by
  induction es with
  | nil => rfl
  | cons e es ih => simp [entryTexts, ih]

@[simp] theorem allPlain_iff {ds : List Data} : AllPlain ds ↔ ∀ d ∈ ds, d.Plain := by
  induction ds with
  | nil => simp [AllPlain]
  | cons d ds ih => simp [AllPlain, ih]

@[simp] theorem entriesPlain_iff {es : List (String × Data)} :
    EntriesPlain es ↔ ∀ e ∈ es, '"' ∉ e.1.toList ∧ e.2.Plain := by
  induction es with
  | nil => simp [EntriesPlain]
  | cons e es ih => simp [EntriesPlain, ih, and_assoc]

@[simp] theorem allDistinct_iff {ds : List Data} : AllDistinct ds ↔ ∀ d ∈ ds, d.Distinct := by
  induction ds with
  | nil => simp [AllDistinct]
  | cons d ds ih => simp [AllDistinct, ih]

@[simp] theorem entriesDistinct_iff {es : List (String × Data)} :
    EntriesDistinct es ↔ ∀ e ∈ es, e.2.Distinct := by
  induction es with
  | nil => simp [EntriesDistinct]
  | cons e es ih => simp [EntriesDistinct, ih]

theorem Readable.items {ds : List Data} (readable : (Data.list ds).Readable) :
    ∀ d ∈ ds, d.Readable :=
  fun d member => ⟨allPlain_iff.1 readable.plain d member,
    allDistinct_iff.1 readable.distinct d member⟩

theorem Readable.entries {es : List (String × Data)} (readable : (Data.object es).Readable) :
    (es.Pairwise fun a b => ¬ sameKey a.1 b.1) ∧ ∀ e ∈ es, '"' ∉ e.1.toList ∧ e.2.Readable := by
  refine ⟨readable.distinct.1, fun e member => ?_⟩
  obtain ⟨key, plain⟩ := entriesPlain_iff.1 readable.plain e member
  exact ⟨key, plain, entriesDistinct_iff.1 readable.distinct.2 e member⟩

theorem depth_le_depths {d : Data} {ds : List Data} (member : d ∈ ds) : d.depth ≤ depths ds := by
  induction ds with
  | nil => cases member
  | cons e ds ih =>
    rcases List.mem_cons.1 member with rfl | member
    · exact Nat.le_max_left _ _
    · exact Nat.le_trans (ih member) (Nat.le_max_right _ _)

theorem depth_le_entryDepths {e : String × Data} {es : List (String × Data)} (member : e ∈ es) :
    e.2.depth ≤ entryDepths es := by
  induction es with
  | nil => cases member
  | cons f es ih =>
    rcases List.mem_cons.1 member with rfl | member
    · exact Nat.le_max_left _ _
    · exact Nat.le_trans (ih member) (Nat.le_max_right _ _)

theorem depths_add_le {ds : List Data} {n k : Nat} (each : ∀ d ∈ ds, d.depth + n ≤ k)
    (none : n ≤ k) : depths ds + n ≤ k := by
  induction ds with
  | nil => simpa [depths] using none
  | cons d ds ih =>
    obtain ⟨first, others⟩ := List.forall_mem_cons.1 each
    have := ih others
    simp only [depths]
    omega

theorem entryDepths_add_le {es : List (String × Data)} {n k : Nat}
    (each : ∀ e ∈ es, e.2.depth + n ≤ k) (none : n ≤ k) : entryDepths es + n ≤ k := by
  induction es with
  | nil => simpa [entryDepths] using none
  | cons e es ih =>
    obtain ⟨first, others⟩ := List.forall_mem_cons.1 each
    have := ih others
    simp only [entryDepths]
    omega

/-- Induction on a tree, from its parts to the whole. -/
@[elab_as_elim, induction_eliminator]
theorem induct {motive : Data → Prop} (null : motive .null) (bool : ∀ b, motive (.bool b))
    (int : ∀ n, motive (.int n)) (string : ∀ s, motive (.string s))
    (list : ∀ items, (∀ d ∈ items, motive d) → motive (.list items))
    (object : ∀ entries, (∀ e ∈ entries, motive e.2) → motive (.object entries)) :
    ∀ d, motive d :=
  @Data.rec motive (fun ds => ∀ d ∈ ds, motive d) (fun es => ∀ e ∈ es, motive e.2)
    (fun e => motive e.2) null bool int string list object (by simp)
    (fun _ _ first others => List.forall_mem_cons.2 ⟨first, others⟩) (by simp)
    (fun _ _ first others => List.forall_mem_cons.2 ⟨first, others⟩) fun _ _ part => part

end Data

/-! Rows side by side. -/

theorem forall₂_unique {α β : Type} {R : α → β → Prop} {xs : List α} {ys zs : List β}
    (unique : ∀ y ∈ ys, ∀ x z, R x y → R x z → y = z) (first : List.Forall₂ R xs ys)
    (second : List.Forall₂ R xs zs) : ys = zs := by
  induction first generalizing zs with
  | nil => exact (List.forall₂_nil_left_iff.1 second).symm
  | cons here _ ih =>
    obtain ⟨z, zs, here', others, rfl⟩ := List.forall₂_cons_left_iff.1 second
    obtain ⟨one, rest⟩ := List.forall_mem_cons.1 unique
    rw [one _ _ here here', ih rest others]

theorem forall₂_part {α β : Type} {R : α → β → Prop} {xs : List α} {ys : List β}
    (each : List.Forall₂ R xs ys) {y : β} (member : y ∈ ys) : ∃ x, R x y := by
  induction each with
  | nil => cases member
  | cons here _ ih =>
    rcases List.mem_cons.1 member with rfl | member
    · exact ⟨_, here⟩
    · exact ih member

theorem forall₂_imp_of_mem {α β : Type} {R S : α → β → Prop} {xs : List α} {ys : List β}
    (each : List.Forall₂ R xs ys) (implies : ∀ y ∈ ys, ∀ x, R x y → S x y) :
    List.Forall₂ S xs ys := by
  induction each with
  | nil => exact .nil
  | cons here _ ih =>
    obtain ⟨first, others⟩ := List.forall_mem_cons.1 implies
    exact .cons (first _ here) (ih others)

theorem mapM_forall₂ {α β γ : Type} {R : α → β → Prop} {f : α → Option γ} {g : β → γ}
    {xs : List α} {ys : List β} (each : List.Forall₂ R xs ys)
    (same : ∀ x, ∀ y ∈ ys, R x y → f x = some (g y)) : xs.mapM f = some (ys.map g) := by
  induction each with
  | nil => rfl
  | cons here _ ih =>
    rw [List.mapM_cons, same _ _ List.mem_cons_self here,
      ih fun x y member => same x y (List.mem_cons_of_mem _ member)]
    rfl

namespace Heap

mutual

/-- The tree that a value stands for. -/
def Carries (h : Heap) (v : Value) : Data → Prop
  | .null => v = .null
  | .bool b => v = .bool b
  | .int n => v = .int n
  | .string s => v = .string s
  | .list ds => ∃ r items, v = .list r ∧ h.lists[r.index]? = some items ∧ CarriesAll h items.toList ds
  | .object es =>
    ∃ r o, v = .object r ∧ h.objects[r.index]? = some o ∧ CarriesEntries h o.entries es

def CarriesAll (h : Heap) (vs : List Value) : List Data → Prop
  | [] => vs = []
  | d :: ds => ∃ w ws, vs = w :: ws ∧ Carries h w d ∧ CarriesAll h ws ds

def CarriesEntries (h : Heap) (entries : List (String × Value)) : List (String × Data) → Prop
  | [] => entries = []
  | (key, d) :: rest =>
    ∃ w ws, entries = (key, w) :: ws ∧ Carries h w d ∧ CarriesEntries h ws rest

end

variable {h : Heap} {v : Value}

theorem carriesAll_iff {vs : List Value} {ds : List Data} :
    h.CarriesAll vs ds ↔ List.Forall₂ h.Carries vs ds := by
  induction ds generalizing vs with
  | nil => simp [CarriesAll]
  | cons d ds ih =>
    simp only [CarriesAll, ih, List.forall₂_cons_right_iff]
    constructor
    · rintro ⟨w, ws, rfl, first, others⟩
      exact ⟨w, ws, first, others, rfl⟩
    · rintro ⟨w, ws, first, others, rfl⟩
      exact ⟨w, ws, rfl, first, others⟩

theorem carriesEntries_iff {vs : List (String × Value)} {es : List (String × Data)} :
    h.CarriesEntries vs es ↔ List.Forall₂ (fun e f => e.1 = f.1 ∧ h.Carries e.2 f.2) vs es := by
  induction es generalizing vs with
  | nil => simp [CarriesEntries]
  | cons e es ih =>
    obtain ⟨key, d⟩ := e
    simp only [CarriesEntries, ih, List.forall₂_cons_right_iff]
    constructor
    · rintro ⟨w, ws, rfl, first, others⟩
      exact ⟨(key, w), ws, ⟨rfl, first⟩, others, rfl⟩
    · rintro ⟨⟨_, w⟩, ws, ⟨rfl, first⟩, others, rfl⟩
      exact ⟨w, ws, rfl, first, others⟩

/-- A value stands for one tree at most. -/
theorem Carries.unique {d e : Data} (holds : h.Carries v d) (holds' : h.Carries v e) : d = e := by
  induction d generalizing v e with
  | null | bool | int | string =>
    cases e <;> simp_all [Carries]
  | list ds ih =>
    obtain ⟨r, items, rfl, here, each⟩ := holds
    cases e with
    | list es =>
      obtain ⟨_, _, ⟨⟩, here', each'⟩ := holds'
      cases here.symm.trans here'
      rw [carriesAll_iff] at each each'
      refine congrArg Data.list (forall₂_unique (fun d member w f one other => ?_) each each')
      exact ih d member one other
    | _ => simp [Carries] at holds'
  | object es ih =>
    obtain ⟨r, o, rfl, here, each⟩ := holds
    cases e with
    | object fs =>
      obtain ⟨_, _, ⟨⟩, here', each'⟩ := holds'
      cases here.symm.trans here'
      rw [carriesEntries_iff] at each each'
      refine congrArg Data.object (forall₂_unique (fun e member w f one other => ?_) each each')
      exact Prod.ext (one.1.symm.trans other.1) (ih e member one.2 other.2)
    | _ => simp [Carries] at holds'

theorem keys_of_carries {vs : List (String × Value)} {es : List (String × Data)}
    (each : List.Forall₂ (fun e f => e.1 = f.1 ∧ h.Carries e.2 f.2) vs es) :
    vs.map Prod.fst = es.map Prod.fst := by
  induction each with
  | nil => rfl
  | cons here _ ih => rw [List.map_cons, List.map_cons, here.1, ih]

/-- A value that stands for a tree stands for one whose keys are different, as the keys of every object
are. -/
theorem Carries.distinct {d : Data} (holds : h.Carries v d)
    (ordered : ∀ (i : Nat) (o : Object Value), h.objects[i]? = some o → o.Ordered) : d.Distinct := by
  induction d generalizing v with
  | null | bool | int | string => trivial
  | list ds ih =>
    obtain ⟨r, items, rfl, here, each⟩ := holds
    refine Data.allDistinct_iff.2 fun d member => ?_
    obtain ⟨w, part⟩ := forall₂_part (carriesAll_iff.1 each) member
    exact ih d member part
  | object es ih =>
    obtain ⟨r, o, rfl, here, each⟩ := holds
    have each := carriesEntries_iff.1 each
    refine ⟨?_, Data.entriesDistinct_iff.2 fun e member => ?_⟩
    · have apart := (ordered _ o here).distinct
      rw [Object.keys, keys_of_carries each, List.pairwise_map] at apart
      exact apart.imp fun differ same => differ (sameKey_iff.1 same)
    · obtain ⟨w, -, part⟩ := forall₂_part each member
      exact ih e member part

/-! How deep the tree of a value is. -/

/-- A list or an object of the heap stands for the tree. -/
def HoldsAt (h : Heap) : Nat ⊕ Nat → Data → Prop
  | .inl i, d => h.Carries (.list ⟨i⟩) d
  | .inr i, d => h.Carries (.object ⟨i⟩) d

/-- The places of lists and objects. -/
def places (h : Heap) : Finset (Nat ⊕ Nat) :=
  (Finset.range h.lists.size).disjSum (Finset.range h.objects.size)

theorem card_places (h : Heap) : h.places.card = h.lists.size + h.objects.size := by
  simp [places]

theorem HoldsAt.mem_places {p : Nat ⊕ Nat} {d : Data} (holds : h.HoldsAt p d) : p ∈ h.places := by
  cases p with
  | inl i =>
    cases d with
    | list ds =>
      obtain ⟨_, _, ⟨⟩, here, -⟩ := holds
      obtain ⟨below, -⟩ := Array.getElem?_eq_some_iff.1 here
      simpa [places] using below
    | _ => simp [HoldsAt, Carries] at holds
  | inr i =>
    cases d with
    | object es =>
      obtain ⟨_, _, ⟨⟩, here, -⟩ := holds
      obtain ⟨below, -⟩ := Array.getElem?_eq_some_iff.1 here
      simpa [places] using below
    | _ => simp [HoldsAt, Carries] at holds

theorem HoldsAt.unique {p : Nat ⊕ Nat} {d e : Data} (holds : h.HoldsAt p d)
    (holds' : h.HoldsAt p e) : d = e := by
  cases p with
  | inl i => exact Carries.unique holds holds'
  | inr i => exact Carries.unique holds holds'

/-- Places of deeper trees. -/
def Above (h : Heap) (seen : Finset (Nat ⊕ Nat)) (d : Data) : Prop :=
  ∀ p ∈ seen, ∃ e, h.HoldsAt p e ∧ d.depth < e.depth

theorem card_le_of_holdsAt {seen : Finset (Nat ⊕ Nat)} (each : ∀ p ∈ seen, ∃ e, h.HoldsAt p e) :
    seen.card ≤ h.lists.size + h.objects.size := by
  rw [← card_places]
  refine Finset.card_le_card fun p member => ?_
  obtain ⟨e, holds⟩ := each p member
  exact holds.mem_places

/-- The place of the whole is a new one on the way down to its parts. -/
theorem Above.insert {seen : Finset (Nat ⊕ Nat)} {p : Nat ⊕ Nat} {d : Data}
    (above : h.Above seen d) (holds : h.HoldsAt p d) :
    (insert p seen).card = seen.card + 1 ∧ (insert p seen).card ≤ h.lists.size + h.objects.size ∧
      ∀ part : Data, part.depth < d.depth → h.Above (insert p seen) part := by
  refine ⟨Finset.card_insert_of_notMem fun member => ?_, card_le_of_holdsAt fun q member => ?_,
    fun part smaller q member => ?_⟩
  · obtain ⟨e, holds', deeper⟩ := above p member
    rw [holds.unique holds'] at deeper
    exact Nat.lt_irrefl _ deeper
  · rcases Finset.mem_insert.1 member with rfl | member
    · exact ⟨d, holds⟩
    · obtain ⟨e, holds', -⟩ := above q member
      exact ⟨e, holds'⟩
  · rcases Finset.mem_insert.1 member with rfl | member
    · exact ⟨d, holds, smaller⟩
    · obtain ⟨e, holds', deeper⟩ := above q member
      exact ⟨e, holds', Nat.lt_trans smaller deeper⟩

theorem Carries.depth_add_le {d : Data} {seen : Finset (Nat ⊕ Nat)} (holds : h.Carries v d)
    (above : h.Above seen d) : d.depth + seen.card ≤ h.lists.size + h.objects.size := by
  have scalar : seen.card ≤ h.lists.size + h.objects.size := card_le_of_holdsAt fun p member => by
    obtain ⟨e, holds', -⟩ := above p member
    exact ⟨e, holds'⟩
  induction d generalizing v seen with
  | null | bool | int | string => simpa [Data.depth] using scalar
  | list ds ih =>
    obtain ⟨r, items, rfl, here, each⟩ := holds
    obtain ⟨size, fits, below⟩ := above.insert (p := .inl r.index) ⟨r, items, rfl, here, each⟩
    have parts : ∀ d ∈ ds, d.depth + (seen.card + 1) ≤ h.lists.size + h.objects.size := by
      intro d member
      obtain ⟨w, part⟩ := forall₂_part (carriesAll_iff.1 each) member
      have shallow : d.depth < (Data.list ds).depth :=
        Nat.lt_succ_of_le (Data.depth_le_depths member)
      exact size ▸ ih d member part (below d shallow) fits
    have := Data.depths_add_le parts (size ▸ fits)
    simp only [Data.depth]
    omega
  | object es ih =>
    obtain ⟨r, o, rfl, here, each⟩ := holds
    obtain ⟨size, fits, below⟩ := above.insert (p := .inr r.index) ⟨r, o, rfl, here, each⟩
    have parts : ∀ e ∈ es, e.2.depth + (seen.card + 1) ≤ h.lists.size + h.objects.size := by
      intro e member
      obtain ⟨w, -, part⟩ := forall₂_part (carriesEntries_iff.1 each) member
      have shallow : e.2.depth < (Data.object es).depth :=
        Nat.lt_succ_of_le (Data.depth_le_entryDepths member)
      exact size ▸ ih e member part (below e.2 shallow) fits
    have := Data.entryDepths_add_le parts (size ▸ fits)
    simp only [Data.depth]
    omega

theorem Carries.depth_le {d : Data} (holds : h.Carries v d) :
    d.depth ≤ h.lists.size + h.objects.size := by
  have above : h.Above ∅ d := fun _ member => absurd member (Finset.notMem_empty _)
  exact holds.depth_add_le above

/-! The text of a value. -/

theorem Carries.nested_textUpTo {d : Data} (holds : h.Carries v d) {n : Nat} (enough : d.depth ≤ n) :
    nested (h.textUpTo n) v = some d.text := by
  induction d generalizing v n with
  | null | bool | int =>
    cases holds
    cases n <;> rfl
  | string s =>
    cases holds
    rfl
  | list ds ih =>
    obtain ⟨r, items, rfl, here, each⟩ := holds
    obtain ⟨n, rfl⟩ : ∃ k, n = k + 1 := ⟨n - 1, by simp only [Data.depth] at enough; omega⟩
    have shallow := Nat.le_of_succ_le_succ enough
    have items : (h.list r).toList.mapM (nested (h.textUpTo n)) = some (ds.map Data.text) := by
      rw [list, here]
      exact mapM_forall₂ (carriesAll_iff.1 each) fun w d member part =>
        ih d member part (Nat.le_trans (Data.depth_le_depths member) shallow)
    have whole : nested (h.textUpTo (n + 1)) (.list r) = h.textUpTo (n + 1) (.list r) := rfl
    rw [whole, textUpTo, items]
    simp [Data.text]
  | object es ih =>
    obtain ⟨r, o, rfl, here, each⟩ := holds
    obtain ⟨n, rfl⟩ : ∃ k, n = k + 1 := ⟨n - 1, by simp only [Data.depth] at enough; omega⟩
    have shallow := Nat.le_of_succ_le_succ enough
    have entries : (h.object r).entries.mapM (fun e => do
        return "\"" ++ e.1 ++ "\": " ++ (← nested (h.textUpTo n) e.2)) =
        some (es.map fun e => "\"" ++ e.1 ++ "\": " ++ e.2.text) := by
      rw [object, here]
      refine mapM_forall₂ (carriesEntries_iff.1 each) fun w e member part => ?_
      have text := ih e member part.2 (Nat.le_trans (Data.depth_le_entryDepths member) shallow)
      rw [text, part.1]
      rfl
    have whole : nested (h.textUpTo (n + 1)) (.object r) = h.textUpTo (n + 1) (.object r) := rfl
    rw [whole, textUpTo, entries]
    simp [Data.text]

/-- A list that stands for a tree has the text of the tree. -/
theorem Carries.text? {r : ListRef} {d : Data} (holds : h.Carries (.list r) d) :
    h.text? (.list r) = some d.text :=
  holds.nested_textUpTo holds.depth_le

end Heap

end Script
