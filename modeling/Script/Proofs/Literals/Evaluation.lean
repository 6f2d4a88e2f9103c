import Script.Eval.Statement
import Script.Proofs.Continuation.Rows
import Script.Proofs.Keys
import Script.Proofs.Limits
import Script.Proofs.Literals.Reading
import Script.Proofs.Lookup
import Script.Session

/-! Values of literals. The text of data, read as a source, gives the data again. -/

namespace Script

/-! Trees of data on a growing heap. -/

namespace Heap

/-- The lists and objects of `h` are in `k` too, as they are. -/
structure Within (h k : Heap) : Prop where
  lists : ∀ (i : Nat) (items : Array Value), h.lists[i]? = some items → k.lists[i]? = some items
  objects : ∀ (i : Nat) (o : Object Value), h.objects[i]? = some o → k.objects[i]? = some o

theorem Within.refl (h : Heap) : h.Within h :=
  ⟨fun _ _ => id, fun _ _ => id⟩

theorem Within.trans {h k l : Heap} (first : h.Within k) (next : k.Within l) : h.Within l :=
  ⟨fun i items here => next.lists i items (first.lists i items here),
    fun i o here => next.objects i o (first.objects i o here)⟩

theorem Within.newList (h : Heap) (items : Array Value) : h.Within (h.newList items).2 := by
  refine ⟨fun i others here => ?_, fun _ _ => id⟩
  obtain ⟨below, there⟩ := Array.getElem?_eq_some_iff.1 here
  simpa [Heap.newList, Array.getElem?_push_lt below] using there

theorem Within.newObject (h : Heap) (o : Object Value) : h.Within (h.newObject o).2 := by
  refine ⟨fun _ _ => id, fun i other here => ?_⟩
  obtain ⟨below, there⟩ := Array.getElem?_eq_some_iff.1 here
  simpa [Heap.newObject, Array.getElem?_push_lt below] using there

theorem Carries.within {h k : Heap} {v : Value} {d : Data} (holds : h.Carries v d)
    (within : h.Within k) : k.Carries v d := by
  induction d generalizing v with
  | null | bool | int | string => exact holds
  | list ds ih =>
    obtain ⟨r, items, rfl, here, each⟩ := holds
    refine ⟨r, items, rfl, within.lists _ _ here, carriesAll_iff.2 ?_⟩
    exact forall₂_imp_of_mem (carriesAll_iff.1 each) fun d member w => ih d member
  | object es ih =>
    obtain ⟨r, o, rfl, here, each⟩ := holds
    refine ⟨r, o, rfl, within.objects _ _ here, carriesEntries_iff.2 ?_⟩
    exact forall₂_imp_of_mem (carriesEntries_iff.1 each) fun e member w part =>
      ⟨part.1, ih e member part.2⟩

theorem CarriesAll.within {h k : Heap} {vs : List Value} {ds : List Data} (each : h.CarriesAll vs ds)
    (within : h.Within k) : k.CarriesAll vs ds :=
  carriesAll_iff.2 ((carriesAll_iff.1 each).imp fun _ _ part => part.within within)

theorem CarriesEntries.within {h k : Heap} {entries : List (String × Value)}
    {es : List (String × Data)} (each : h.CarriesEntries entries es) (within : h.Within k) :
    k.CarriesEntries entries es :=
  carriesEntries_iff.2 ((carriesEntries_iff.1 each).imp fun _ _ part => ⟨part.1, part.2.within within⟩)

theorem carries_newList {h : Heap} {vs : List Value} {ds : List Data} (each : h.CarriesAll vs ds) :
    (h.newList vs.toArray).2.Carries (.list (h.newList vs.toArray).1) (.list ds) :=
  ⟨_, vs.toArray, rfl, by simp [newList], each.within (.newList h _)⟩

theorem carries_newObject {h : Heap} {o : Object Value} {es : List (String × Data)}
    (each : h.CarriesEntries o.entries es) :
    (h.newObject o).2.Carries (.object (h.newObject o).1) (.object es) :=
  ⟨_, o, rfl, by simp [newObject], each.within (.newObject h _)⟩

end Heap

/-! Keys. -/

theorem bareKey_of_plain {key : String} (plain : '"' ∉ key.toList) : bareKey key = key := by
  have other (cs : List Char) (plain : '"' ∉ cs) : cs.dropWhile (· == '"') = cs := by
    cases cs with
    | nil => rfl
    | cons c cs =>
      have ne : ¬ (c == '"') = true := by
        rw [beq_iff_eq]
        rintro rfl
        exact plain List.mem_cons_self
      exact List.dropWhile_cons_of_neg ne
  unfold bareKey Text.strip
  rw [other _ plain, other _ (by simpa using plain), List.reverse_reverse, String.ofList_toList]

/-! Values of literals. -/

section Evaluation

variable {host : Host} {frame : Frame}

/-- The expression always has a value, which stands for the tree. -/
def Makes (host : Host) (frame : Frame) (e : Expr) (d : Data) : Prop :=
  ∀ m, ∃ v m', host.evaluate frame e m = .ok v m' ∧ m'.heap.Carries v d ∧ m.heap.Within m'.heap

theorem makes_all {es : List Expr} {ds : List Data} (each : List.Forall₂ (Makes host frame) es ds)
    (m : Machine) : ∃ vs m', host.evaluateAll frame es m = .ok vs m' ∧ m'.heap.CarriesAll vs ds ∧
      m.heap.Within m'.heap := by
  induction each generalizing m with
  | nil => exact ⟨[], m, rfl, rfl, .refl _⟩
  | cons first _ ih =>
    obtain ⟨v, m₁, ran, holds, within⟩ := first m
    obtain ⟨vs, m₂, ran', holds', within'⟩ := ih m₁
    refine ⟨v :: vs, m₂, ?_, ⟨v, vs, rfl, holds.within within', holds'⟩, within.trans within'⟩
    rw [Host.evaluateAll, ran_bind ran, ran_bind ran']
    rfl

/-- Entries under new keys stand in their order. -/
theorem makes_entries {es : List (String × Expr)} {ds : List (String × Data)}
    (each : List.Forall₂ (fun e f => e.1 = f.1 ∧ Makes host frame e.2 f.2) es ds)
    (plain : ∀ f ∈ ds, '"' ∉ f.1.toList) (apart : ds.Pairwise fun a b => ¬ sameKey a.1 b.1)
    (o : Object Value) (new : ∀ e ∈ o.entries, ∀ f ∈ ds, ¬ sameKey e.1 f.1) (m : Machine) :
    ∃ entries m', host.evaluateEntries frame es o m = .ok ⟨o.entries ++ entries⟩ m' ∧
      m'.heap.CarriesEntries entries ds ∧ m.heap.Within m'.heap := by
  induction each generalizing o m with
  | nil => exact ⟨[], m, by simp [Host.evaluateEntries, pure, EStateM.pure], rfl, .refl _⟩
  | @cons e f es ds here _ ih =>
    obtain ⟨key, e⟩ := e
    obtain ⟨key', d⟩ := f
    obtain ⟨rfl, first⟩ : key = key' ∧ Makes host frame e d := here
    obtain ⟨plain, plains⟩ := List.forall_mem_cons.1 plain
    obtain ⟨differs, apart⟩ := List.pairwise_cons.1 apart
    obtain ⟨v, m₁, ran, holds, within⟩ := first m
    have set : o.set key v = ⟨o.entries ++ [(key, v)]⟩ := by
      rw [Object.set, bareKey_of_plain plain, Object.put_new v fun e member =>
        new e member _ List.mem_cons_self]
    have new' : ∀ e ∈ (o.set key v).entries, ∀ f ∈ ds, ¬ sameKey e.1 f.1 := by
      rw [set]
      refine List.forall_mem_append.2 ⟨fun e member f later => ?_, ?_⟩
      · exact new e member f (List.mem_cons_of_mem _ later)
      · exact List.forall_mem_singleton.2 differs
    obtain ⟨entries, m₂, ran', holds', within'⟩ := ih plains apart (o.set key v) new' m₁
    refine ⟨(key, v) :: entries, m₂, ?_, ⟨v, entries, rfl, holds.within within', holds'⟩,
      within.trans within'⟩
    rw [Host.evaluateEntries, ran_bind ran, ran', set]
    simp

theorem negate_ofInt {n : Int64} (other : n ≠ Int64.minValue) :
    (Value.int (Int64.ofInt (-n.toInt))).negate = .ok (.int n) := by
  have bounds := Int64.toInt_bounds n
  have least := Int64.toInt_ne_of_ne_minValue other
  have back : (Int64.ofInt (-n.toInt)).toInt = -n.toInt :=
    Int64.toInt_ofInt_of_le (by omega) (by omega)
  have inside : Integer.Fits n.toInt := bounds
  have negated : Integer.neg (Int64.ofInt (-n.toInt)) = some n := by
    rw [Integer.neg, Integer.exact, back, Int.neg_neg, if_pos inside, Int64.ofInt_toInt]
  simp only [Value.negate, negated]

/-! Expressions of which only the places differ. -/

theorem bare_literal {e : Expr} {v : Literal} (same : e.bare = (Expr.literal v default).bare) :
    ∃ s, e = .literal v s := by
  cases e with
  | literal w s =>
    obtain ⟨rfl, -⟩ : w = v ∧ _ := Expr.literal.inj same
    exact ⟨s, rfl⟩
  | _ => cases same

theorem bare_negate {e e' : Expr} (same : e.bare = (Expr.negate e' default).bare) :
    ∃ f s, e = .negate f s ∧ f.bare = e'.bare := by
  cases e with
  | negate f s => exact ⟨f, s, rfl, (Expr.negate.inj same).1⟩
  | _ => cases same

theorem bare_list {e : Expr} {es : List Expr} (same : e.bare = (Expr.list es default).bare) :
    ∃ fs s, e = .list fs s ∧ fs.map Expr.bare = es.map Expr.bare := by
  cases e with
  | list fs s =>
    have parts := (Expr.list.inj same).1
    rw [relocateAll_eq_map, relocateAll_eq_map] at parts
    exact ⟨fs, s, rfl, parts⟩
  | _ => cases same

theorem bare_object {e : Expr} {es : List (String × Expr)}
    (same : e.bare = (Expr.object es default).bare) :
    ∃ fs s, e = .object fs s ∧
      fs.map (fun f => (f.1, f.2.bare)) = es.map fun f => (f.1, f.2.bare) := by
  cases e with
  | object fs s =>
    have parts := (Expr.object.inj same).1
    rw [relocateEntries_eq_map, relocateEntries_eq_map] at parts
    exact ⟨fs, s, rfl, parts⟩
  | _ => cases same

theorem forall₂_of_map_eq {α β γ : Type} {f : α → γ} {g : β → γ} {xs : List α} {ys : List β}
    (same : xs.map f = ys.map g) : List.Forall₂ (fun x y => f x = g y) xs ys := by
  have each : List.Forall₂ Eq (xs.map f) (ys.map g) := List.forall₂_eq_eq_eq ▸ same
  rwa [List.forall₂_map_left_iff, List.forall₂_map_right_iff] at each

theorem makes_scalar {v : Literal} {d : Data} (holds : ∀ h : Heap, h.Carries v.value d) {e : Expr}
    (same : e.bare = (Expr.literal v default).bare) : Makes host frame e d := by
  obtain ⟨s, rfl⟩ := bare_literal same
  exact fun m => ⟨v.value, m, rfl, holds _, .refl _⟩

theorem makes_int {n : Int64} (readable : (Data.int n).Readable) {e : Expr}
    (same : e.bare = (Data.int n).literal.bare) : Makes host frame e (.int n) := by
  by_cases negative : n.toInt < 0
  · rw [Data.literal, if_pos negative] at same
    obtain ⟨f, s, rfl, operand⟩ := bare_negate same
    obtain ⟨s', rfl⟩ := bare_literal operand
    intro m
    refine ⟨.int n, m, ?_, rfl, .refl _⟩
    have ran : host.evaluate frame (.literal (.int (Int64.ofInt (-n.toInt))) s') m =
        .ok (.int (Int64.ofInt (-n.toInt))) m := rfl
    rw [Host.evaluate, ran_bind ran, negate_ofInt readable.plain]
    rfl
  · rw [Data.literal, if_neg negative] at same
    exact makes_scalar (v := .int n) (d := .int n) (fun _ => rfl) same

/-- The literal of a tree makes the tree, wherever its parts stand in the source. -/
theorem makes_literal {d : Data} (readable : d.Readable) {e : Expr}
    (same : e.bare = d.literal.bare) : Makes host frame e d := by
  induction d generalizing e with
  | null => exact makes_scalar (v := .null) (d := .null) (fun _ => rfl) same
  | bool b => exact makes_scalar (v := .bool b) (d := .bool b) (fun _ => rfl) same
  | string x => exact makes_scalar (v := .string x) (d := .string x) (fun _ => rfl) same
  | int n => exact makes_int readable same
  | list ds ih =>
    obtain ⟨es, s, rfl, items⟩ := bare_list same
    rw [Data.literals_eq_map, List.map_map] at items
    have each : List.Forall₂ (Makes host frame) es ds :=
      forall₂_imp_of_mem (forall₂_of_map_eq items) fun d member e item =>
        ih d member (readable.items d member) item
    intro m
    obtain ⟨vs, m₁, ran, holds, within⟩ := makes_all each m
    refine ⟨.list (m₁.heap.newList vs.toArray).1,
      { m₁ with heap := (m₁.heap.newList vs.toArray).2 }, ?_, Heap.carries_newList holds,
      within.trans (.newList _ _)⟩
    rw [Host.evaluate, ran_bind ran]
    rfl
  | object fs ih =>
    obtain ⟨apart, readable⟩ := readable.entries
    obtain ⟨es, s, rfl, entries⟩ := bare_object same
    rw [Data.entryLiterals_eq_map, List.map_map] at entries
    have each : List.Forall₂ (fun e f => e.1 = f.1 ∧ Makes host frame e.2 f.2) es fs :=
      forall₂_imp_of_mem (forall₂_of_map_eq entries) fun f member e entry =>
        ⟨congrArg Prod.fst entry, ih f member (readable f member).2 (congrArg Prod.snd entry)⟩
    intro m
    obtain ⟨entries, m₁, ran, holds, within⟩ := makes_entries each
      (fun f member => (readable f member).1) apart .empty (by simp [Object.empty]) m
    refine ⟨.object (m₁.heap.newObject ⟨entries⟩).1,
      { m₁ with heap := (m₁.heap.newObject ⟨entries⟩).2 }, ?_, Heap.carries_newObject holds,
      within.trans (.newObject _ _)⟩
    rw [Host.evaluate, ran_bind ran]
    rfl

end Evaluation

/-! Sources. -/

theorem Data.literal_wellFormed {d : Data} (readable : d.Readable) : d.literal.WellFormed := by
  induction d with
  | null | bool | string => trivial
  | int n =>
    have bounds := Int64.toInt_bounds n
    have other := Int64.toInt_ne_of_ne_minValue readable.plain
    have read : Parser.numberLiteral (Nat.repr n.toInt.natAbs) =
        some (.int (Int64.ofInt n.toInt.natAbs)) :=
      Parser.numberLiteral_repr (by omega)
    by_cases negative : n.toInt < 0
    · have size : (n.toInt.natAbs : Int) = -n.toInt := by omega
      rw [literal, if_pos negative]
      exact ⟨⟨_, size ▸ read⟩, by simp [Expr.rank]⟩
    · have size : (n.toInt.natAbs : Int) = n.toInt := by omega
      rw [size, Int64.ofInt_toInt] at read
      rw [literal, if_neg negative]
      exact ⟨_, read⟩
  | list ds ih =>
    refine (allWellFormed_iff _).2 ?_
    rw [literals_eq_map, List.forall_mem_map]
    exact fun d member => ih d member (readable.items d member)
  | object es ih =>
    obtain ⟨apart, readable⟩ := readable.entries
    refine ⟨?_, (entriesWellFormed_iff _).2 ?_⟩
    · rwa [entryLiterals_eq_map, List.pairwise_map]
    · rw [entryLiterals_eq_map, List.forall_mem_map]
      exact fun e member => ih e member (readable e member).2

/-- The program that binds `x` to a tree. -/
def binding (d : Data) : Block :=
  [.assign (.name "x") d.literal default]

theorem writes_binding {d : Data} (readable : d.Readable) :
    Token.Writes ("x = " ++ d.text).toList (wordsOfBlock (binding d)) Token.Closes := by
  have name : Token.Writes ['x'] [.name "x"] fun rest => rest.head? = some ' ' := by
    refine Token.Writes.token (k := .name) (x := ['x']) (fun rest space => ?_)
      (fun span => ⟨_, rfl, rfl, rfl⟩) (by decide)
    obtain ⟨rest, rfl⟩ := List.head?_eq_some_iff.1 space
    rfl
  have equals : Token.Writes ['='] [.operator "="] fun rest => rest.head? = some ' ' := by
    refine Token.Writes.token (k := .operator) (x := ['=']) (fun rest space => ?_)
      (fun span => ⟨_, rfl, rfl, rfl⟩) (by decide)
    obtain ⟨rest, rfl⟩ := List.head?_eq_some_iff.1 space
    rfl
  have value := Token.Writes.space.append (d.writes readable) fun _ _ => trivial
  have right := Token.Writes.space.append (equals.append value fun _ _ => rfl) fun _ _ => trivial
  have whole := name.append right fun _ _ => rfl
  simpa [binding, wordsOfBlock, Stmt.words, Target.words] using whole

/-- A row of tokens that spell a program. -/
theorem Parser.program_of_spells {p : Block} (good : BlockWellFormed p) {front : List Token}
    {stop : Token} (spelt : Spells (wordsOfBlock p) front) (proper : ∀ t ∈ front, t.Proper)
    (ends : stop.kind = .eof) :
    ∃ q, Parser.program (front ++ [stop]) = .ok q ∧ bareBlock q = bareBlock p := by
  have kept : front.filter (·.kind ≠ .comment) = front :=
    List.filter_eq_self.2 fun t member => by simpa using (proper t member).1
  obtain ⟨q, l, run, same⟩ := Parser.statements_accepts ends front.length good spelt
    (Nat.le_refl _) (Nat.le_refl _) stop
  rw [List.append_nil] at run
  refine ⟨q, ?_, same⟩
  rw [Parser.program_row (fun t member => (proper t member).2) ends, kept, run]
  rfl

theorem parse_binding {d : Data} (readable : d.Readable) :
    ∃ e s, parse ("x = " ++ d.text) = .ok [.assign (.name "x") e s] ∧ e.bare = d.literal.bare := by
  obtain ⟨front, spelt, proper, scanned⟩ := writes_binding readable [] (by simp [Token.Closes])
    Mark.first
  have scanned : Token.scan ("x = " ++ d.text) =
      .ok (front ++ [Token.final (Mark.first.after ("x = " ++ d.text).toList)]) := by
    have whole := scanned ("x = " ++ d.text).length
      (Nat.le_of_eq (by rw [List.append_nil, String.length_toList]))
    rw [List.append_nil] at whole
    exact whole
  have good : BlockWellFormed (binding d) :=
    ⟨⟨trivial, d.literal_wellFormed readable⟩, fun bare => (Bool.false_ne_true bare).elim, trivial⟩
  obtain ⟨q, read, same⟩ := Parser.program_of_spells good spelt proper
    (show (Token.final _).kind = .eof from rfl)
  have single : q.length = 1 := by simpa [bareBlock, binding] using congrArg List.length same
  obtain ⟨a, rfl⟩ := List.length_eq_one_iff.1 single
  have one : a.bare = (Stmt.assign (.name "x") d.literal default).bare := (List.cons.inj same).1
  have parsed : parse ("x = " ++ d.text) = .ok [a] := by
    unfold parse
    rw [scanned]
    exact read
  cases a with
  | assign target e s =>
    obtain ⟨left, right, -⟩ := Stmt.assign.inj one
    cases target with
    | name y =>
      cases left
      exact ⟨e, s, parsed, right⟩
    | _ => cases left
  | give value s => cases value <;> cases one
  | _ => cases one

/-- An assignment to a name, run as a whole script. -/
theorem Session.step_assign {c : Context} {text x : String} {e : Expr} {span : Span} {s : State}
    (parsed : parse text = .ok [.assign (.name x) e span]) {d : Data}
    (makes : ∀ host frame, Makes host frame e d) :
    ∃ v m, step c text s = .ok () ⟨s.frame.assign x v, m⟩ ∧ m.heap.Carries v d := by
  obtain ⟨n, bound⟩ : ∃ n, unlimited = n + 1 := ⟨_, rfl⟩
  let host : Host := ⟨c, n, run n⟩
  obtain ⟨v, m, ran, holds, -⟩ := makes host s.frame s.machine
  have value : Exec.eval (fun frame => host.evaluate frame e) s = .ok v ⟨s.frame, m⟩ := by
    obtain ⟨frame, machine⟩ := s
    simp only [Exec.eval, ran]
  have executed : host.execute (.assign (.name x) e span) s = .ok .done ⟨s.frame.assign x v, m⟩ := by
    rw [Host.execute, ran_bind value]
    rfl
  have block : run unlimited c [.assign (.name x) e span] s = .ok .done ⟨s.frame.assign x v, m⟩ := by
    rw [bound, run, Host.executeBlock, ran_bind executed]
    rfl
  refine ⟨v, m, ?_, holds⟩
  unfold step runSource
  rw [parsed]
  dsimp only
  have order : [Stmt.assign (.name x) e span].filter Stmt.isImport ++
      [Stmt.assign (.name x) e span].filter (!·.isImport) = [.assign (.name x) e span] := rfl
  rw [runProgram, order, topLevel, ran_bind block]
  rfl

/-- What is displayed of data can be read back: the text of a list with one item, after `x = `, binds
`x` to a list whose one item stands for the same tree. -/
theorem Session.step_text (c : Context) {h : Heap} {r : ListRef} {v : Value} {d : Data}
    (ordered : ∀ (i : Nat) (o : Object Value), h.objects[i]? = some o → o.Ordered)
    (single : h.lists[r.index]? = some #[v]) (holds : h.Carries v d) (plain : d.Plain) :
    ∃ text, h.text? (.list r) = some text ∧
      ∃ s, step c ("x = " ++ text) State.start = .ok () s ∧
        ∃ r' v', s.frame.get? "x" = some (.list r') ∧
          s.machine.heap.lists[r'.index]? = some #[v'] ∧ s.machine.heap.Carries v' d := by
  have whole : h.Carries (.list r) (.list [d]) := ⟨r, #[v], rfl, single, v, [], rfl, holds, rfl⟩
  have readable : (Data.list [d]).Readable :=
    ⟨⟨plain, trivial⟩, holds.distinct ordered, trivial⟩
  obtain ⟨e, span, parsed, same⟩ := parse_binding readable
  obtain ⟨w, m, ran, made⟩ := step_assign (c := c) (s := State.start) parsed
    fun host frame => makes_literal readable same
  obtain ⟨r', items, rfl, here, v', vs, row, holds', none⟩ := made
  obtain rfl : items = #[v'] := Array.toList_inj.1 (by rw [row, none])
  refine ⟨_, whole.text?, _, ran, r', v', ?_, here, holds'⟩
  exact Bindings.get?_insert_self _ _ _

/-- A list with an object in it, which holds another list: a negative integer, and a quoted text that
looks like a comment and the end of the list. -/
def shelf : Heap :=
  { Heap.empty with
    lists := #[#[.object ⟨0⟩], #[.int (-5), .string ">> ]"]]
    objects := #[⟨[("Key", .list ⟨1⟩), ("", .null)]⟩] }

def shelfTree : Data :=
  .object [("Key", .list [.int (-5), .string ">> ]"]), ("", .null)]

theorem shelf_carries : shelf.Carries (.object ⟨0⟩) shelfTree := by
  have inner : shelf.Carries (.list ⟨1⟩) (.list [.int (-5), .string ">> ]"]) :=
    ⟨_, _, rfl, rfl, _, _, rfl, rfl, _, _, rfl, rfl, rfl⟩
  exact ⟨_, _, rfl, rfl, _, _, rfl, inner, _, _, rfl, rfl, rfl⟩

theorem shelfTree_plain : shelfTree.Plain := by
  have negative : (-5 : Int64) ≠ Int64.minValue := by decide
  have quoted : '"' ∉ ">> ]".toList := by decide
  exact ⟨by decide, ⟨negative, quoted, trivial⟩, by decide, trivial, trivial⟩

theorem shelf_ordered (i : Nat) (o : Object Value) (here : shelf.objects[i]? = some o) :
    o.Ordered := by
  obtain rfl : ⟨[("Key", .list ⟨1⟩), ("", .null)]⟩ = o := by
    have member := Array.mem_of_getElem? here
    simpa [shelf, eq_comm] using member
  have bare : ∀ k ∈ ["Key", ""], Unquoted k := by
    simp [Unquoted]
  exact ⟨bare, by decide⟩

theorem shelf_read_back :
    (∀ (i : Nat) (o : Object Value), shelf.objects[i]? = some o → o.Ordered) ∧
    shelf.lists[0]? = some #[.object ⟨0⟩] ∧ shelf.Carries (.object ⟨0⟩) shelfTree ∧ shelfTree.Plain ∧
    ∃ text, shelf.text? (.list ⟨0⟩) = some text ∧
      ∃ s, Session.step (.inMemory ⟨[], []⟩ .working) ("x = " ++ text) State.start = .ok () s ∧
        ∃ r v, s.frame.get? "x" = some (.list r) ∧ s.machine.heap.lists[r.index]? = some #[v] ∧
          s.machine.heap.Carries v shelfTree :=
  ⟨shelf_ordered, rfl, shelf_carries, shelfTree_plain,
    Session.step_text _ (r := ⟨0⟩) shelf_ordered rfl shelf_carries shelfTree_plain⟩

/-- Its text. -/
example : shelf.text? (.list ⟨0⟩) = some "[\x7b\"Key\": [-5, \">> ]\"], \"\": null\x7d]" := by
  decide +kernel

end Script
