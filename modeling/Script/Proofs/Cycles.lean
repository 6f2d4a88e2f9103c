import Mathlib.Data.Finset.Card
import Script.Proofs.Contexts
import Script.Proofs.Safe
import Script.Session

/-! Cyclic imports. The chain of a running script never holds a file twice, so modules nest no
deeper than there are files, and a statement is refused as cyclic exactly if the file that it names
is on the chain. -/

namespace Script

namespace Files

variable {fs : Files} {p : Path}

/-- What exists is on the way to a file or to the home directory. -/
theorem node?_isSome_iff : (fs.node? p).isSome ↔ p <+: fs.home ∨ ∃ e ∈ fs.nodes, p <+: e.1 := by
  have listed (n : Node) (found : fs.nodes.lookup p = some n) : ∃ e ∈ fs.nodes, p <+: e.1 := by
    obtain ⟨before, after, same, -⟩ := List.lookup_eq_some_iff.1 found
    exact ⟨(p, n), by simp [same], List.prefix_refl p⟩
  unfold node?
  cases found : fs.nodes.lookup p with
  | some n => simp [listed n found]
  | none =>
    simp only [Option.none_or]
    split
    · rename_i leads
      simpa using leads
    · rename_i nowhere
      simpa using nowhere

theorem exists_dropLast (there : (fs.node? p).isSome) : (fs.node? p.dropLast).isSome := by
  have shorter : p.dropLast <+: p := List.dropLast_prefix p
  rw [node?_isSome_iff] at there ⊢
  rcases there with home | ⟨e, member, leads⟩
  · exact .inl (shorter.trans home)
  · exact .inr ⟨e, member, shorter.trans leads⟩

theorem step_exists {here next : Path} {part : String} (went : fs.step here part = some next) :
    (fs.node? next).isSome := by
  unfold step at went
  split at went
  · cases went
  · rename_i directory
    have there : (fs.node? here).isSome := by
      rw [Decidable.not_not.1 directory]
      rfl
    split at went
    · cases went
      exact there
    · split at went
      · cases went
        exact exists_dropLast there
      · split at went
        · rename_i found
          cases went
          exact found
        · cases went

/-- A path that a written path leads to exists. -/
theorem resolve_exists {written : String} (found : fs.resolve written = some p) :
    (fs.node? p).isSome := by
  have walk (parts : List String) (here : Path) (there : (fs.node? here).isSome)
      (went : parts.foldlM fs.step here = some p) : (fs.node? p).isSome := by
    induction parts generalizing here with
    | nil =>
      cases went
      exact there
    | cons part parts ih =>
      rw [List.foldlM_cons] at went
      obtain ⟨next, first, rest⟩ := Option.bind_eq_some_iff.1 went
      exact ih next (step_exists first) rest
  unfold resolve at found
  split at found
  · cases found
  · refine walk _ _ ?_ found
    rw [node?_isSome_iff]
    split
    · exact .inl List.nil_prefix
    · exact .inl (List.prefix_refl _)

/-- The paths at which there are files. -/
def paths (fs : Files) : Finset Path :=
  {p ∈ (fs.nodes.map Prod.fst).toFinset | fs.node? p ≠ some .directory}

theorem mem_paths (there : (fs.node? p).isSome) (file : fs.node? p ≠ some .directory) :
    p ∈ fs.paths := by
  have listed : p ∈ fs.nodes.map Prod.fst := by
    cases found : fs.nodes.lookup p with
    | some n =>
      obtain ⟨before, after, same, -⟩ := List.lookup_eq_some_iff.1 found
      exact List.mem_map.2 ⟨(p, n), by simp [same], rfl⟩
    | none =>
      -- all that is not listed is a directory
      unfold node? at there file
      rw [found, Option.none_or] at there file
      split at there
      · rename_i leads
        rw [if_pos leads] at file
        exact absurd rfl file
      · cases there
  exact Finset.mem_filter.2 ⟨List.mem_toFinset.2 listed, file⟩

end Files

/-- The contexts that runs start in: that of a script in memory, and that of one in a file. -/
inductive Begins (fs : Files) : Context → Prop
  | inMemory (sink : Sink) : Begins fs (.inMemory fs sink)
  | atPath (sink : Sink) {written : String} {p : Path}
    (found : Session.scriptAt? fs written = some p) : Begins fs (.atPath fs sink p)

/-- A chain without repetitions of paths that written paths lead to, with a file at each. -/
structure SoundChain (fs : Files) (chain : List Path) : Prop where
  nodup : chain.Nodup
  canonical : ∀ p ∈ chain, ∃ written, fs.resolve written = some p
  files : ∀ p ∈ chain, p ∈ fs.paths

namespace SoundChain

variable {fs : Files} {chain : List Path}

theorem length_le (sound : SoundChain fs chain) : chain.length ≤ fs.paths.card := by
  rw [← List.toFinset_card_of_nodup sound.nodup]
  apply Finset.card_le_card
  intro p member
  exact sound.files p (List.mem_toFinset.1 member)

theorem append (sound : SoundChain fs chain) {p : Path} {written : String} (fresh : p ∉ chain)
    (found : fs.resolve written = some p) (file : fs.node? p ≠ some .directory) :
    SoundChain fs (chain ++ [p]) where
  nodup := by
    rw [List.nodup_append]
    refine ⟨sound.nodup, List.nodup_singleton p, fun a member b last => ?_⟩
    rw [List.mem_singleton.1 last]
    rintro rfl
    exact fresh member
  canonical := List.forall_mem_append.2
    ⟨sound.canonical, List.forall_mem_singleton.2 ⟨written, found⟩⟩
  files := List.forall_mem_append.2
    ⟨sound.files, List.forall_mem_singleton.2 (Files.mem_paths (Files.resolve_exists found) file)⟩

end SoundChain

theorem Begins.sound {fs : Files} {start : Context} (begins : Begins fs start) :
    start.files = fs ∧ SoundChain fs start.chain := by
  have none : SoundChain fs [] := ⟨List.nodup_nil, by simp, by simp⟩
  cases begins with
  | inMemory sink => exact ⟨rfl, none⟩
  | atPath sink found =>
    obtain ⟨found, file⟩ := Option.filter_eq_some_iff.1 found
    exact ⟨rfl, none.append (by simp) found (by simpa using file)⟩

theorem Loading.sound {fs : Files} {start c : Context} (begins : Begins fs start)
    (loading : Loading start c) : c.files = fs ∧ SoundChain fs c.chain := by
  induction loading with
  | start => exact begins.sound
  | @module c p outer runs ih =>
    obtain ⟨files, sound⟩ := ih
    obtain ⟨fresh, file, text, found, content⟩ := runs
    rw [files] at found content
    -- a directory cannot be read
    refine ⟨files, sound.append fresh found fun directory => ?_⟩
    unfold Files.read at content
    rw [directory] at content
    cases content

/-- A file is on the chain if it is that of the script itself, or else exactly while its module is
being run. -/
theorem Loading.mem_chain {start c : Context} (loading : Loading start c) (p : Path) :
    p ∈ c.chain ↔
      p ∈ start.chain ∨ ∃ d, Loading start d ∧ d.Runs p ∧ Loading (d.module p) c := by
  constructor
  · intro member
    induction loading with
    | start => exact .inl member
    | @module c q outer runs ih =>
      rcases List.mem_append.1 member with earlier | last
      · exact (ih earlier).imp id fun ⟨d, before, ran, within⟩ =>
          ⟨d, before, ran, within.module runs⟩
      · cases List.mem_singleton.1 last
        exact .inr ⟨c, outer, runs, .start⟩
  · have grows {a b : Context} (within : Loading a b) (listed : p ∈ a.chain) : p ∈ b.chain := by
      induction within with
      | start => exact listed
      | module outer runs ih => exact List.mem_append_left _ ih
    rintro (script | ⟨d, -, -, within⟩)
    · exact grows loading script
    · exact grows within (List.mem_append_right _ (List.mem_singleton_self p))

/-! What a statement that runs a file can fail with. -/

/-- The text of an error that refuses a file as cyclic. -/
def cycleText (file : String) : String :=
  "Cyclic import of '" ++ file ++ "'"

/-- A fault of such a statement that is not about a cycle. -/
inductive Fault.Acyclic : Fault → Prop
  | noFile (access : Access) (file path : String) : Acyclic (.noFile access file path)
  | unreadable (access : Access) (file : String) (reason : Unreadable) :
    Acyclic (.unreadable access file reason)
  | module (access : Access) (file : String) (cause : Fault) (place : Span) :
    Acyclic (.module access file cause place)
  | notShared (name file : String) : Acyclic (.notShared name file)

theorem head?_append_of {a : String} {c : Char} (h : a.toList.head? = some c) (b : String) :
    (a ++ b).toList.head? = some c := by
  rw [String.toList_append, List.head?_append, h]
  rfl

theorem Access.head?_text (a : Access) : a.text.toList.head? = some 'E' := by
  cases a <;> decide

theorem head?_cycleText (file : String) : (cycleText file).toList.head? = some 'C' := by
  have first : "Cyclic import of '".toList.head? = some 'C' := by decide
  unfold cycleText
  rw [String.append_assoc]
  exact head?_append_of first _

theorem Fault.Acyclic.head?_message {f : Fault} (acyclic : f.Acyclic) (place : Span) :
    (f.message place).toList.head? = some 'E' ∨ (f.message place).toList.head? = some 'I' := by
  cases acyclic with
  | noFile a file path => exact .inl (head?_append_of a.head?_text _)
  | unreadable a file reason => exact .inl (head?_append_of a.head?_text _)
  | module a file cause inner =>
    have text : Fault.message place (.module a file cause inner) =
      a.text ++ _ ++ _ ++ _ ++ _ ++ _ ++ _ := rfl
    simp only [text, String.append_assoc]
    exact .inl (head?_append_of a.head?_text _)
  | notShared name file =>
    have first : "Item '".toList.head? = some 'I' := by decide
    have text : Fault.message place (.notShared name file) = "Item '" ++ name ++ _ ++ _ ++ _ := rfl
    simp only [text, String.append_assoc]
    exact .inr (head?_append_of first _)

/-- No other message reads like that of a cycle: the first letters differ. -/
theorem Fault.Acyclic.message_ne {f : Fault} (acyclic : f.Acyclic) (place : Span) (file : String) :
    f.message place ≠ cycleText file := by
  intro same
  have first := acyclic.head?_message place
  rw [same, head?_cycleText] at first
  exact absurd first (by decide)

/-- Nothing is asked of the heap. -/
def Heap.Any (_ : Heap) : Prop := True

/-- A halt that is not about a cycle. -/
def Halt.Acyclic (halt : Halt) : Prop :=
  ∀ e, halt = .fault e → e.fault.Acyclic

/-- The file that a script in the context means is found, and is being run already. -/
def Context.Cyclic (c : Context) (file : String) : Prop :=
  ∃ p, c.files.resolve (c.locate file) = some p ∧ p ∈ c.chain

namespace Acyclic

variable {host : Host} {access : Access} {file : String} {span : Span} {m : Module}

theorem raise {α : Type} {f : Fault} (acyclic : f.Acyclic) :
    EvalSafe Heap.Any Halt.Acyclic (fun _ : α => True) (Eval.raise f span) := by
  apply Safe.throw
  rintro e ⟨⟩
  exact acyclic

theorem module (x : Exec Unit) :
    EvalSafe Heap.Any Halt.Acyclic (fun _ => True) (Module.run access file span x) := by
  intro m _
  unfold Module.run
  dsimp only
  cases x ⟨(Frame.new m.heap).1, (Frame.new m.heap).2, m.output, .empty⟩ with
  | ok a s => exact ⟨trivial, trivial⟩
  | error halt s =>
    cases halt with
    | fault e =>
      refine ⟨?_, trivial⟩
      rintro e ⟨⟩
      exact .module ..
    | exhausted => exact ⟨nofun, trivial⟩

theorem ofFile (fresh : ¬ host.context.Cyclic file) :
    EvalSafe Heap.Any Halt.Acyclic (fun _ => True) (Module.ofFile host access file span) := by
  unfold Module.ofFile
  dsimp only
  split
  · exact raise (.noFile ..)
  · rename_i p found
    rw [if_neg fun running => fresh ⟨p, found, List.contains_iff_mem.1 running⟩]
    split
    · exact raise (.unreadable ..)
    · exact module _

theorem exported (r : FunctionRef) :
    EvalSafe Heap.Any Halt.Acyclic (fun _ => True) (m.exported r) :=
  Safe.onHeap fun _ _ => ⟨trivial, trivial⟩

theorem define (t : TableRef) (fs : List (String × FunctionRef)) :
    EvalSafe Heap.Any Halt.Acyclic (fun _ => True) (m.define t fs) := by
  induction fs with
  | nil => exact Safe.pure trivial
  | cons f fs ih =>
    apply Safe.bind (exported f.2)
    intro copy _
    exact Safe.bind (Safe.changeHeap fun _ _ => trivial) fun _ _ => ih

theorem collect (fs : List (String × FunctionRef)) (o : Object Value) :
    EvalSafe Heap.Any Halt.Acyclic (fun _ => True) (m.collect fs o) := by
  induction fs generalizing o with
  | nil => exact Safe.pure trivial
  | cons f fs ih => exact Safe.bind (exported f.2) fun _ _ => ih _

theorem bind (names : List String) :
    ExecSafe Heap.Any Halt.Acyclic (fun _ => True) (m.bind file span names) := by
  induction names with
  | nil => exact Safe.pure trivial
  | cons name names ih =>
    apply Safe.bind (Safe.look fun _ _ => trivial)
    intro s _
    split
    · exact Safe.bind (Safe.eval fun frame => define frame.table _) fun _ _ => ih
    · exact Safe.bind (Safe.assign name _) fun _ _ => ih
    · have refused : Halt.Acyclic (.fault ⟨.notShared name file, span⟩) := by
        rintro e ⟨⟩
        exact .notShared ..
      exact Safe.throw_bind refused

theorem importFile (fresh : ¬ host.context.Cyclic file) (items : Selection) :
    ExecSafe Heap.Any Halt.Acyclic (fun _ => True) (host.importFile file items span) := by
  apply Safe.bind (Safe.eval fun _ => ofFile fresh)
  intro m _
  cases items with
  | names names => exact bind names
  | all =>
    apply Safe.bind (Safe.modify fun _ _ => trivial)
    intro _ _
    exact Safe.eval fun frame => Safe.bind Safe.heap fun h _ => define frame.table _

theorem loadFile (fresh : ¬ host.context.Cyclic file) (name : String) :
    ExecSafe Heap.Any Halt.Acyclic (fun _ => True) (host.loadFile file name span) := by
  have loaded (frame : Frame) : EvalSafe Heap.Any Halt.Acyclic (fun _ => True) (do
      let m ← Module.ofFile host .loading file span
      let o := Object.empty.setAll m.sharedVars
      let o ← m.collect (m.functions (← Eval.heap)) o
      Eval.newObject o) := by
    refine Safe.bind (ofFile fresh) fun m _ => Safe.bind Safe.heap fun h _ => ?_
    refine Safe.bind (collect _ _) fun o _ => ?_
    have made : EvalSafe Heap.Any Halt.Acyclic (fun _ => True)
        (Eval.onHeap (·.newObject o)) := Safe.onHeap fun _ _ => ⟨trivial, trivial⟩
    exact Safe.bind made fun _ _ => Safe.pure trivial
  exact Safe.bind (Safe.eval loaded) fun v _ => Safe.assign name v

end Acyclic

/-! Statements that run a file. -/

/-- The file that the statement runs, if it is one that does. -/
def Stmt.file? : Stmt → Option String
  | .imports file _ _ | .load file _ _ => some file
  | _ => none

/-- The statement is refused as cyclic. -/
def Refused (file : String) (r : EStateM.Result Halt State Flow) : Prop :=
  ∃ e s, r = .error (.fault e) s ∧ e.stage = .loading ∧ e.message = cycleText file

section Statements

variable {host : Host} {file : String} {x : Stmt}

theorem ofFile_cyclic (cyclic : host.context.Cyclic file) (access : Access) (span : Span) :
    Module.ofFile host access file span = Eval.raise (.cycle file) span := by
  obtain ⟨p, found, running⟩ := cyclic
  unfold Module.ofFile
  dsimp only
  rw [found]
  dsimp only
  rw [if_pos (List.contains_iff_mem.2 running)]

/-- The module is not run, and nothing changes. -/
theorem execute_cyclic (runs : x.file? = some file) (cyclic : host.context.Cyclic file)
    (s : State) : host.execute x s = .error (.fault ⟨.cycle file, x.span⟩) s := by
  cases x with
  | imports written items span =>
    cases runs
    simp only [Host.execute, Host.importFile, ofFile_cyclic cyclic]
    rfl
  | load written name span =>
    cases runs
    simp only [Host.execute, Host.loadFile, ofFile_cyclic cyclic]
    rfl
  | _ => cases runs

theorem execute_acyclic (runs : x.file? = some file) (fresh : ¬ host.context.Cyclic file) :
    ExecSafe Heap.Any Halt.Acyclic (fun _ => True) (host.execute x) := by
  cases x with
  | imports written items span =>
    cases runs
    exact Safe.bind (Acyclic.importFile fresh items) fun _ _ => Safe.pure trivial
  | load written name span =>
    cases runs
    exact Safe.bind (Acyclic.loadFile fresh name) fun _ _ => Safe.pure trivial
  | _ => cases runs

theorem refused_iff (runs : x.file? = some file) (s : State) :
    Refused file (host.execute x s) ↔ host.context.Cyclic file := by
  constructor
  · rintro ⟨e, t, ended, -, text⟩
    by_contra fresh
    have safe := execute_acyclic runs fresh s trivial
    rw [ended] at safe
    exact (safe.1 e rfl).message_ne e.span file text
  · intro cyclic
    rw [execute_cyclic runs cyclic]
    exact ⟨_, s, rfl, rfl, rfl⟩

end Statements

/-- Runs enter only the contexts of the scripts that they load. In each of these the chain has no
file twice, so that there are no more modules in each other than files, and holds what is being run.
There a statement is refused as cyclic exactly if the file that it names is found and is on the
chain, and then nothing is run. -/
theorem cycles_caught {fs : Files} {start : Context} (begins : Begins fs start) :
    (∀ other limit b, runWithin (Loading start) other limit start b = run limit start b) ∧
    ∀ c, Loading start c →
      (c.files = fs ∧ c.chain.Nodup ∧ c.chain.length ≤ fs.paths.card ∧
        ∀ p ∈ c.chain, ∃ written, fs.resolve written = some p) ∧
      (∀ p, p ∈ c.chain ↔
        p ∈ start.chain ∨ ∃ d, Loading start d ∧ d.Runs p ∧ Loading (d.module p) c) ∧
      ∀ steps nested file (x : Stmt) s, x.file? = some file →
        (Refused file (Host.execute ⟨c, steps, nested⟩ x s) ↔ c.Cyclic file) ∧
        (c.Cyclic file →
          Host.execute ⟨c, steps, nested⟩ x s = .error (.fault ⟨.cycle file, x.span⟩) s) := by
  refine ⟨fun other limit b => ?_, fun c loading => ⟨?_, loading.mem_chain, ?_⟩⟩
  · rw [runWithin_loading .start]
  · obtain ⟨files, sound⟩ := loading.sound begins
    exact ⟨files, sound.nodup, sound.length_le, sound.canonical⟩
  · intro steps nested file x s runs
    exact ⟨refused_iff runs s, fun cyclic => execute_cyclic runs cyclic s⟩

/-- Two files that import each other. -/
def ringFiles : Files where
  home := []
  nodes := [
    (["a.es"], .text "from \"b.es\" use *"),
    (["b.es"], .text "load \"a.es\" as a")]

theorem ring_caught :
    let c : Context := .atPath ringFiles .working ["a.es"]
    Session.scriptAt? ringFiles "a.es" = some ["a.es"] ∧ Loading c (c.module ["b.es"]) ∧
      ¬ Refused "b.es"
        (Host.execute ⟨c, 9, run 9⟩ (.imports "b.es" .all ⟨0, 17, 1, 1⟩) State.start) ∧
      Refused "a.es" (Host.execute ⟨c.module ["b.es"], 8, run 8⟩ (.load "a.es" "a" ⟨0, 16, 1, 1⟩)
        State.start) := by
  intro c
  have found : Session.scriptAt? ringFiles "a.es" = some ["a.es"] := by decide +kernel
  have other : ringFiles.resolve (c.locate "b.es") = some ["b.es"] := by decide +kernel
  have again : ringFiles.resolve ((c.module ["b.es"]).locate "a.es") = some ["a.es"] := by
    decide +kernel
  have runs : c.Runs ["b.es"] := ⟨by decide, "b.es", _, other, rfl⟩
  obtain ⟨-, caught⟩ := cycles_caught (.atPath .working found)
  obtain ⟨-, -, outer⟩ := caught c .start
  obtain ⟨-, -, inner⟩ := caught (c.module ["b.es"]) (.module .start runs)
  refine ⟨found, .module .start runs, fun refused => ?_, ?_⟩
  · obtain ⟨p, resolved, member⟩ := (outer 9 (run 9) "b.es" _ _ rfl).1.1 refused
    cases other.symm.trans resolved
    exact absurd member (by decide)
  · exact (inner 8 (run 8) "a.es" _ _ rfl).1.2 ⟨["a.es"], again, by decide⟩

end Script
