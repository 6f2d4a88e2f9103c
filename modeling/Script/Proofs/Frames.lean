import Script.Proofs.Trace.Sharing

/-! Rows of frames over one heap. Variables are copied from frame to frame, while the functions of a
frame are those of its table, which frames share. Whatever is done to the frames of a row, the
variables and the parent of a frame change by what is done to itself, and its functions by what is
done to a frame that shares its table at the time. -/

namespace Script

namespace Bindings

variable {α : Type}

theorem get?_overlay (b top : Bindings α) (name : String) :
    (b.overlay top).get? name = (top.get? name).or (b.get? name) := by
  have h (entries : List (String × α)) (sorted : entries.Pairwise fun a b => a.1 < b.1)
      (b : Bindings α) : (entries.foldl (fun b e => b.insert e.1 e.2) b).get? name =
        (entries.lookup name).or (b.get? name) := by
    induction entries generalizing b with
    | nil => rfl
    | cons e entries ih =>
      obtain ⟨first, rest⟩ := List.pairwise_cons.1 sorted
      rw [List.foldl_cons, ih rest, List.lookup_cons]
      by_cases same : name = e.1
      · subst same
        have later : entries.lookup e.1 = none := by
          cases found : entries.lookup e.1 with
          | none => rfl
          | some a => exact absurd (first _ (mem_of_lookup found)) (String.lt_irrefl e.1)
        rw [later, get?_insert_self, beq_self_eq_true]
        rfl
      · rw [get?_insert_of_ne b same, beq_false_of_ne same]
  exact h top.entries top.sorted b

end Bindings

namespace Heap

variable {h : Heap} {t t' : TableRef} {name name' : String} {r : FunctionRef} {f : Function}

theorem get?_bindNew_self (there : t.index < h.tables.size) :
    ((h.bindNew t name f).table t).get? name = some ⟨h.functions.size⟩ := by
  unfold bindNew
  rw [table_define_self]
  · exact Bindings.get?_insert_self _ name _
  · exact there

theorem get?_bindNew_of_ne (other : ¬ (t' = t ∧ name' = name)) :
    ((h.bindNew t name f).table t').get? name' = (h.table t').get? name' := by
  unfold bindNew
  by_cases same : t' = t
  · exact get?_define_of_ne (fun here => other ⟨same, here⟩) _
  · rw [table_define_of_ne same]
    rfl

theorem function_markShared (there : r.index < h.functions.size) :
    (h.markShared r).function r = { h.function r with shared := true } := by
  unfold markShared function
  dsimp only
  rw [Array.getElem?_modify, if_pos rfl, Array.getElem?_eq_getElem there]
  rfl

theorem function_markShared_of_ne {q : FunctionRef} (ne : q ≠ r) :
    (h.markShared r).function q = h.function q := by
  have other : r.index ≠ q.index := by
    intro same
    apply ne
    cases q
    cases r
    exact congrArg FunctionRef.mk same.symm
  unfold markShared function
  dsimp only
  rw [Array.getElem?_modify, if_neg other]

end Heap

/-- A row of frames and the heap that they stand over. -/
structure Frames where
  row : List Frame
  heap : Heap

/-- What can be done with the frames of a row, each meant by its place. -/
inductive Frames.Move
  | assign (i : Nat) (name : String) (v : Value)
  | define (i : Nat) (name : String) (decl : Decl)
  | share (i : Nat) (name : String)
  | capture (i : Nat) (name : String)
  | call (i : Nat)
  | clone (i : Nat)
  | new
  | enter (i j : Nat)
  | setParent (i : Nat) (parent : Option ClassRef)

namespace Frames

variable {w : Frames} {i j : Nat} {f g : Frame} {name : String}

/-- One frame without variables. -/
def start : Frames :=
  ⟨[(Frame.new .empty).1], (Frame.new .empty).2⟩

/-- Changes the frame at a place, if there is one. -/
def update (w : Frames) (i : Nat) (change : Frame → Frame) : Frames :=
  { w with row := w.row.modify i change }

/-- Puts another heap in place, which depends on the frame at a place, if there is one. -/
def withHeap (w : Frames) (i : Nat) (heap : Frame → Heap) : Frames :=
  (w.row[i]?).elim w fun f => ⟨w.row, heap f⟩

def add (w : Frames) (f : Option Frame) : Frames :=
  { w with row := w.row ++ f.toList }

/-- A function that is captured carries a copy of the frame, as one does that is exported. -/
def move (w : Frames) : Move → Frames
  | .assign i name v => w.update i fun f => f.assign name v
  | .define i name decl => w.withHeap i fun f => w.heap.bindNew f.table name ⟨decl, none, false⟩
  | .share i name => w.withHeap i fun f =>
    (f.function? w.heap name).elim w.heap w.heap.markShared
  | .capture i name => w.withHeap i fun f =>
    (f.function? w.heap name).elim w.heap fun r =>
      (Module.mk f .empty).pass f.table w.heap (name, r)
  | .call i => w.add (w.row[i]?.map Frame.callee)
  | .clone i => w.add w.row[i]?
  | .new => ⟨w.row ++ [(Frame.new w.heap).1], (Frame.new w.heap).2⟩
  | .enter i j => w.update i fun f => (w.row[j]?).elim f f.enter
  | .setParent i parent => w.update i fun f => { f with parent := parent }

/-- What a row of moves makes of the first frame. -/
def after (moves : List Move) : Frames :=
  moves.foldl move start

/-- The function that a name stands for in the frame at a place. -/
def function? (w : Frames) (j : Nat) (name : String) : Option FunctionRef :=
  (w.row[j]?).bind fun f => f.function? w.heap name

/-- The frames at two places have one table. -/
def Share (w : Frames) (i j : Nat) : Prop :=
  ∃ f g, w.row[i]? = some f ∧ w.row[j]? = some g ∧ f.table = g.table

/-- All but the frame at one place is as it was. -/
structure Only (w : Frames) (i : Nat) (w' : Frames) : Prop where
  others : ∀ j, j ≠ i → w'.row[j]? = w.row[j]?
  heap : w'.heap = w.heap

/-- The name stands for a new function in the frames that share the table of the one at the place.
All other names stand for what they stood for, and no other function changes. -/
structure Binds (w : Frames) (i : Nat) (name : String) (new : Function) (w' : Frames) : Prop where
  row : w'.row = w.row
  bound : ∃ r, w'.heap.function r = new ∧ (∀ j n, w.function? j n ≠ some r) ∧
    ∀ j, w'.function? j name = some r ↔ w.Share i j
  others : ∀ j n, ¬ (w.Share i j ∧ n = name) → w'.function? j n = w.function? j n
  functions : ∀ j n r, w.function? j n = some r → w'.heap.function r = w.heap.function r

/-- Names stand for what they stood for, and of the functions that they stand for one is marked: that
of the name in the frames that share the table. -/
structure Marks (w : Frames) (i : Nat) (name : String) (w' : Frames) : Prop where
  row : w'.row = w.row
  names : ∀ j n, w'.function? j n = w.function? j n
  marked : ∀ j r, w.Share i j → w.function? j name = some r →
    w'.heap.function r = { w.heap.function r with shared := true }
  others : ∀ j n r, ¬ (w.Share i j ∧ n = name) → w.function? j n = some r →
    w'.heap.function r = w.heap.function r

/-- The row has one frame more, and nothing that was there changes. -/
structure Adds (w : Frames) (f : Frame) (w' : Frames) : Prop where
  row : w'.row = w.row ++ [f]
  names : ∀ j n, j < w.row.length → w'.function? j n = w.function? j n
  functions : w'.heap.functions = w.heap.functions

/-- What a move does to a row of frames. -/
def Move.Effect (w w' : Frames) : Move → Prop
  | .assign i name v => ∀ f, w.row[i]? = some f → w.Only i w' ∧
    ∃ g, w'.row[i]? = some g ∧ g.table = f.table ∧ g.parent = f.parent ∧
      g.get? name = some v ∧ ∀ n, n ≠ name → g.get? n = f.get? n
  | .define i name decl => ∀ f, w.row[i]? = some f → w.Binds i name ⟨decl, none, false⟩ w'
  | .share i name => (∀ r, w.function? i name = some r → w.Marks i name w') ∧
    (w.function? i name = none → w' = w)
  | .capture i name => (∀ f r, w.row[i]? = some f → w.function? i name = some r →
      w.Binds i name { w.heap.function r with scope := some f } w') ∧
    (w.function? i name = none → w' = w)
  | .call i => ∀ f, w.row[i]? = some f → w'.heap = w.heap ∧
    w.Adds { f with parent := none } w'
  | .clone i => ∀ f, w.row[i]? = some f → w'.heap = w.heap ∧ w.Adds f w'
  | .new => ∃ t, w.Adds ⟨.empty, t, none⟩ w' ∧ (∀ n, w'.function? w.row.length n = none) ∧
    ∀ j, w'.Share j w.row.length ↔ j = w.row.length
  | .enter i j => ∀ f g, w.row[i]? = some f → w.row[j]? = some g → w.Only i w' ∧
    ∃ e, w'.row[i]? = some e ∧ e.table = g.table ∧ e.parent = f.parent ∧
      ∀ n, e.get? n = (g.get? n).or (f.get? n)
  | .setParent i parent => ∀ f, w.row[i]? = some f → w.Only i w' ∧
    w'.row[i]? = some { f with parent := parent }

/-- No two names in tables stand for one function, and the frames have tables that are there. -/
structure Sound (w : Frames) : Prop where
  apart : w.heap.Apart
  placed : ∀ (j : Nat) (f : Frame), w.row[j]? = some f → f.table.index < w.heap.tables.size

theorem function?_eq (there : w.row[j]? = some f) (name : String) :
    w.function? j name = (w.heap.table f.table).get? name := by
  unfold function? Frame.function?
  rw [there]
  rfl

theorem exists_of_function? {r : FunctionRef} (bound : w.function? j name = some r) :
    ∃ f, w.row[j]? = some f ∧ (w.heap.table f.table).get? name = some r :=
  Option.bind_eq_some_iff.1 bound

theorem share_iff (there : w.row[i]? = some f) (there' : w.row[j]? = some g) :
    w.Share i j ↔ g.table = f.table := by
  constructor
  · rintro ⟨f', g', found, found', same⟩
    obtain rfl := Option.some.inj (there.symm.trans found)
    obtain rfl := Option.some.inj (there'.symm.trans found')
    exact same.symm
  · exact fun same => ⟨f, g, there, there', same.symm⟩

theorem update_only (w : Frames) (i : Nat) (change : Frame → Frame) :
    w.Only i (w.update i change) :=
  ⟨fun _ ne => List.getElem?_modify_ne change w.row ne.symm, rfl⟩

theorem getElem?_update (there : w.row[i]? = some f) (change : Frame → Frame) :
    (w.update i change).row[i]? = some (change f) := by
  have changed := List.getElem?_modify_eq change i w.row
  rw [there] at changed
  exact changed

theorem withHeap_some (there : w.row[i]? = some f) (heap : Frame → Heap) :
    w.withHeap i heap = ⟨w.row, heap f⟩ := by
  unfold withHeap
  rw [there]
  rfl

theorem withHeap_none (missing : w.row[i]? = none) (heap : Frame → Heap) :
    w.withHeap i heap = w := by
  unfold withHeap
  rw [missing]
  rfl

/-! What moves keep. -/

namespace Sound

theorem start : start.Sound := by
  refine ⟨Heap.Apart.empty.newTable, fun i f there => ?_⟩
  obtain rfl := List.mem_singleton.1 (List.mem_of_getElem? there)
  exact Nat.zero_lt_one

theorem update (sound : w.Sound) {change : Frame → Frame}
    (placed : ∀ f, w.row[i]? = some f → (change f).table.index < w.heap.tables.size) :
    (w.update i change).Sound := by
  refine ⟨sound.apart, fun j f there => ?_⟩
  by_cases here : j = i
  · subst here
    cases before : w.row[j]? with
    | none =>
      have changed := List.getElem?_modify_eq change j w.row
      rw [before] at changed
      cases there.symm.trans changed
    | some f' =>
      cases there.symm.trans (getElem?_update before change)
      exact placed f' before
  · rw [(update_only w i change).others j here] at there
    exact sound.placed j f there

theorem withHeap (sound : w.Sound) {heap : Frame → Heap} (apart : ∀ f, (heap f).Apart)
    (tables : ∀ f, (heap f).tables.size = w.heap.tables.size) : (w.withHeap i heap).Sound := by
  cases there : w.row[i]? with
  | none =>
    rw [withHeap_none there]
    exact sound
  | some f =>
    rw [withHeap_some there]
    refine ⟨apart f, fun j g there' => ?_⟩
    change g.table.index < (heap f).tables.size
    rw [tables]
    exact sound.placed j g there'

theorem add (sound : w.Sound) {f : Option Frame}
    (placed : ∀ g, f = some g → g.table.index < w.heap.tables.size) : (w.add f).Sound := by
  refine ⟨sound.apart, fun j g there => ?_⟩
  rcases List.mem_append.1 (List.mem_of_getElem? there) with old | new
  · obtain ⟨i, there⟩ := List.getElem?_of_mem old
    exact sound.placed i g there
  · exact placed g (Option.mem_toList.1 new)

theorem move (sound : w.Sound) (m : Move) : (w.move m).Sound := by
  cases m with
  | assign i name v => exact sound.update fun f there => sound.placed i f there
  | define i name decl =>
    refine sound.withHeap (fun f => sound.apart.bindNew f.table name _) fun f => ?_
    simp [Heap.bindNew, Heap.define, Heap.newFunction]
  | share i name =>
    refine sound.withHeap (fun f => ?_) fun f => ?_
    · cases f.function? w.heap name with
      | none => exact sound.apart
      | some r => exact sound.apart.of_sub id (by simp [Heap.markShared])
    · cases f.function? w.heap name <;> rfl
  | capture i name =>
    refine sound.withHeap (fun f => ?_) fun f => ?_
    · cases f.function? w.heap name with
      | none => exact sound.apart
      | some r => exact sound.apart.bindNew f.table name _
    · cases f.function? w.heap name with
      | none => rfl
      | some r => exact pass_tables _
  | call i =>
    refine sound.add fun g added => ?_
    obtain ⟨f, there, rfl⟩ := Option.map_eq_some_iff.1 added
    exact sound.placed i f there
  | clone i => exact sound.add fun g there => sound.placed i g there
  | new =>
    refine ⟨sound.apart.newTable, fun j g there => ?_⟩
    have grown : (Frame.new w.heap).2.tables.size = w.heap.tables.size + 1 := by
      simp [Frame.new, Heap.newTable]
    have bounded : g.table.index < w.heap.tables.size + 1 := by
      rcases List.mem_append.1 (List.mem_of_getElem? there) with old | added
      · obtain ⟨i, there⟩ := List.getElem?_of_mem old
        exact Nat.lt_succ_of_lt (sound.placed i g there)
      · obtain rfl := List.mem_singleton.1 added
        exact Nat.lt_succ_self w.heap.tables.size
    exact grown ▸ bounded
  | enter i j =>
    refine sound.update fun f there => ?_
    cases there' : w.row[j]? with
    | none => exact sound.placed i f there
    | some g => exact sound.placed j g there'
  | setParent i parent => exact sound.update fun f there => sound.placed i f there

theorem after (moves : List Move) : (after moves).Sound := by
  have run (moves : List Move) (w : Frames) (sound : w.Sound) :
      (moves.foldl Frames.move w).Sound := by
    induction moves generalizing w with
    | nil => exact sound
    | cons m moves ih => exact ih (w.move m) (sound.move m)
  exact run moves Frames.start start

end Sound

/-! What moves do. -/

/-- A new function bound in the table of a frame. -/
theorem Sound.binds (sound : w.Sound) (there : w.row[i]? = some f) (name : String)
    (new : Function) : w.Binds i name new ⟨w.row, w.heap.bindNew f.table name new⟩ := by
  have table (j : Nat) (n : String) {g : Frame} (there' : w.row[j]? = some g) :
      function? ⟨w.row, w.heap.bindNew f.table name new⟩ j n =
        ((w.heap.bindNew f.table name new).table g.table).get? n :=
    function?_eq (w := ⟨w.row, w.heap.bindNew f.table name new⟩) there' n
  have others (j : Nat) (n : String) (other : ¬ (w.Share i j ∧ n = name)) :
      function? ⟨w.row, w.heap.bindNew f.table name new⟩ j n = w.function? j n := by
    cases there' : w.row[j]? with
    | none =>
      unfold function?
      rw [there']
      rfl
    | some g =>
      rw [share_iff there there'] at other
      rw [table j n there', function?_eq there', Heap.get?_bindNew_of_ne other]
  have fresh (j : Nat) (n : String) : w.function? j n ≠ some ⟨w.heap.functions.size⟩ := by
    intro bound
    obtain ⟨g, -, bound⟩ := exists_of_function? bound
    exact Nat.lt_irrefl _ (sound.apart.there bound)
  refine ⟨rfl, ⟨⟨w.heap.functions.size⟩, Heap.function_bindNew_new _ _ _ _, fresh, ?_⟩, others, ?_⟩
  · intro j
    constructor
    · intro bound
      by_contra apart
      rw [others j name fun both => apart both.1] at bound
      exact fresh j name bound
    · rintro ⟨f', g, found, there', same⟩
      obtain rfl := Option.some.inj (there.symm.trans found)
      rw [table j name there', ← same]
      exact Heap.get?_bindNew_self (sound.placed i f there)
  · intro j n r bound
    obtain ⟨g, -, bound⟩ := exists_of_function? bound
    exact Heap.function_newFunction (sound.apart.there bound) new

theorem Sound.marks (sound : w.Sound) {r : FunctionRef} (bound : w.function? i name = some r) :
    w.Marks i name ⟨w.row, w.heap.markShared r⟩ := by
  obtain ⟨f, there, found⟩ := exists_of_function? bound
  refine ⟨rfl, fun j n => rfl, ?_, ?_⟩
  · rintro j q ⟨f', g, there₁, there₂, same⟩ bound'
    obtain rfl := Option.some.inj (there.symm.trans there₁)
    rw [function?_eq there₂, ← same, found] at bound'
    obtain rfl := Option.some.inj bound'
    exact Heap.function_markShared (sound.apart.there found)
  · intro j n q other bound'
    obtain ⟨g, there', found'⟩ := exists_of_function? bound'
    apply Heap.function_markShared_of_ne
    rintro rfl
    obtain ⟨same, named⟩ := sound.apart.once found' found
    exact other ⟨(share_iff there there').2 same, named⟩

theorem adds (w : Frames) (f : Frame) : w.Adds f (w.add (some f)) := by
  refine ⟨rfl, fun j n below => ?_, rfl⟩
  have same : (w.row ++ [f])[j]? = w.row[j]? := List.getElem?_append_left below
  unfold function?
  change ((w.row ++ [f])[j]?).bind _ = _
  rw [same]
  rfl

theorem Sound.new (sound : w.Sound) : Move.Effect w (w.move .new) .new := by
  have last : (w.move .new).row[w.row.length]? = some (Frame.new w.heap).1 := by
    change (w.row ++ [(Frame.new w.heap).1])[w.row.length]? = _
    rw [List.getElem?_append_right (Nat.le_refl _), Nat.sub_self]
    rfl
  have before (j : Nat) (below : j < w.row.length) : (w.move .new).row[j]? = w.row[j]? :=
    List.getElem?_append_left below
  refine ⟨⟨w.heap.tables.size⟩, ⟨rfl, fun j n below => ?_, rfl⟩, fun n => ?_, fun j => ?_⟩
  · unfold function?
    rw [before j below]
    congr 1
    funext f
    exact congrArg (fun b => Bindings.get? b n) (Heap.table_newTable w.heap f.table)
  · rw [function?_eq last]
    change ((w.heap.newTable).2.table ⟨w.heap.tables.size⟩).get? n = none
    rw [Heap.table_newTable]
    unfold Heap.table
    rw [Array.getElem?_size]
    rfl
  · constructor
    · rintro ⟨f, g, there, there', same⟩
      obtain rfl := Option.some.inj (last.symm.trans there')
      by_contra other
      have below : j < w.row.length := by
        have inside := (List.getElem?_eq_some_iff.1 there).1
        have size : (w.move .new).row.length = w.row.length + 1 := List.length_append
        omega
      rw [before j below] at there
      have placed := sound.placed j f there
      rw [same] at placed
      exact Nat.lt_irrefl _ placed
    · rintro rfl
      exact ⟨_, _, last, last, rfl⟩

theorem Sound.effect (sound : w.Sound) (m : Move) : m.Effect w (w.move m) := by
  cases m with
  | assign i name v =>
    intro f there
    refine ⟨update_only w i _, _, getElem?_update there _, rfl, rfl, ?_, fun n ne => ?_⟩
    · exact Bindings.get?_insert_self f.vars name v
    · exact Bindings.get?_insert_of_ne f.vars ne v
  | define i name decl =>
    intro f there
    have moved : w.move (.define i name decl) = _ := withHeap_some there _
    rw [moved]
    exact sound.binds there name _
  | share i name =>
    have moved {f : Frame} (there : w.row[i]? = some f) : w.move (.share i name) =
        ⟨w.row, (w.function? i name).elim w.heap w.heap.markShared⟩ := by
      rw [function?_eq there]
      exact withHeap_some there _
    refine ⟨fun r bound => ?_, fun missing => ?_⟩
    · obtain ⟨f, there, -⟩ := exists_of_function? bound
      rw [moved there, bound]
      exact sound.marks bound
    · cases there : w.row[i]? with
      | none => exact withHeap_none there _
      | some f =>
        rw [moved there, missing]
        rfl
  | capture i name =>
    have moved {f : Frame} (there : w.row[i]? = some f) : w.move (.capture i name) =
        ⟨w.row, (w.function? i name).elim w.heap fun r =>
          w.heap.bindNew f.table name { w.heap.function r with scope := some f }⟩ := by
      rw [function?_eq there]
      exact withHeap_some there _
    refine ⟨fun f r there bound => ?_, fun missing => ?_⟩
    · rw [moved there, bound]
      exact sound.binds there name _
    · cases there : w.row[i]? with
      | none => exact withHeap_none there _
      | some f =>
        rw [moved there, missing]
        rfl
  | call i =>
    intro f there
    have moved : w.move (.call i) = w.add (some f.callee) :=
      congrArg (fun g : Option Frame => w.add (g.map Frame.callee)) there
    rw [moved]
    exact ⟨rfl, adds w f.callee⟩
  | clone i =>
    intro f there
    have moved : w.move (.clone i) = w.add (some f) := congrArg w.add there
    rw [moved]
    exact ⟨rfl, adds w f⟩
  | new => exact sound.new
  | enter i j =>
    intro f g there there'
    refine ⟨update_only w i _, _, getElem?_update there _, ?_⟩
    rw [there']
    exact ⟨rfl, rfl, fun n => Bindings.get?_overlay f.vars g.vars n⟩
  | setParent i parent =>
    intro f there
    exact ⟨update_only w i _, getElem?_update there _⟩

/-- After any row of moves, a move does to the frames what it is meant to do, and no more. -/
theorem moves_affect (moves : List Move) (m : Move) :
    m.Effect (after moves) (after (moves ++ [m])) := by
  have last : after (moves ++ [m]) = (after moves).move m := by
    unfold after
    rw [List.foldl_append]
    rfl
  rw [last]
  exact (Sound.after moves).effect m

end Frames

end Script
