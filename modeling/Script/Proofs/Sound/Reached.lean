import Script.Proofs.Places.Reports
import Script.Proofs.Sound.Running

/-! Sessions stay sound, whatever texts they run and however these end. -/

namespace Script

variable {runs more : List (Files × String)} {kept kept' : Stmt → Prop} {h : Heap}

/-- The statement stands in a known text. -/
def StatementIn (runs : List (Files × String)) (x : Stmt) : Prop :=
  ∃ text b, Known runs text ∧ parse text = .ok b ∧ x ∈ blockParts b

theorem StatementIn.mono {x : Stmt} (inside : StatementIn runs x) (sub : runs ⊆ more) :
    StatementIn more x := by
  obtain ⟨text, b, known, parsed, part⟩ := inside
  exact ⟨text, b, known.mono sub, parsed, part⟩

/-- Known texts run known texts only. -/
theorem statementIn_rules {fs : Files} {entry : String} (member : (fs, entry) ∈ runs) :
    Rules (StatementIn runs) (fun _ => True) fs where
  regular _ _ := trivial
  leaves _ _ _ _ _ := trivial
  files := by
    rintro x ⟨text, b, known, parsed, part⟩ file names c p content inner rfl found read parsed'
    have named := blockReferences_of_part b part names
    exact fun y part' => ⟨content, inner, .named known parsed named member found read, parsed', part'⟩

/-- What is allowed to be run does not matter to those who keep nothing back. -/
theorem all_rules (fs : Files) : Rules (fun _ => True) (fun _ => True) fs where
  regular _ _ := trivial
  leaves _ _ _ _ _ := trivial
  files := by
    intros
    trivial

theorem Decl.Kept.mono {d : Decl} (decl : d.Kept kept) (sub : ∀ x, kept x → kept' x) :
    d.Kept kept' := by
  refine ⟨fun proper => ?_, fun y part => sub y (decl.body y part)⟩
  obtain ⟨x, here, member⟩ := decl.made proper
  exact ⟨x, sub x here, member⟩

theorem Heap.Sound.mono (sound : h.Sound kept) (sub : ∀ x, kept x → kept' x) : h.Sound kept' where
  lists := sound.lists
  objects := sound.objects
  classes := sound.classes.mono fun _ _ ⟨older, path, ms, span, own, declared, built⟩ =>
    ⟨older, path, ms, span, own, sub _ declared, built⟩
  functions := sound.functions.mono fun _ _ ⟨decl, scope⟩ => ⟨decl.mono sub, scope⟩

/-- A state with a sound heap, in which its variables are. -/
structure State.Sound (kept : Stmt → Prop) (s : State) : Prop where
  heap : s.machine.heap.Sound kept
  frame : s.machine.heap.HasFrame s.frame

theorem State.start_sound : State.start.Sound kept := by
  have empty : Heap.empty.Sound kept := ⟨nofun, nofun, nofun, nofun⟩
  exact ⟨empty.newTable, List.forall_mem_nil _⟩

namespace State.Sound

variable {s : State}

theorem mono (sound : s.Sound kept) (sub : ∀ x, kept x → kept' x) : s.Sound kept' :=
  ⟨sound.heap.mono sub, sound.frame⟩

/-- Runs keep it, and undo nothing. -/
theorem after {α : Type} {allowed : Fault → Prop} {good : Heap → α → Prop} {x : Exec α}
    (sound : s.Sound kept) (upholds : ExecUpholds kept allowed s.machine.heap good x) :
    (endState (x s)).Sound kept ∧ s.machine.heap.Later (endState (x s)).machine.heap := by
  have ended := upholds s rfl ⟨sound.heap, sound.frame⟩
  cases run : x s with
  | ok a t =>
    rw [run] at ended
    exact ⟨⟨ended.2.1.1, ended.2.1.2⟩, ended.1⟩
  | error e t =>
    rw [run] at ended
    exact ⟨⟨ended.2.1.1, ended.2.1.2⟩, ended.1⟩

end State.Sound

theorem Way.run_upholds (w : Way) (c : Context) (text : String) :
    ExecUpholds (StatementIn ((c.files, text) :: runs)) (fun _ => True) h anything
      (w.run c text) := by
  have latest : (c.files, text) ∈ (c.files, text) :: runs := List.mem_cons_self
  have rules := statementIn_rules latest
  have tolerated (flow : Flow) : Upholds.Tolerated (fun _ => True) flow := by
    cases flow <;> trivial
  cases parsed : parse text with
  | error e =>
    cases w with
    | step =>
      simp only [Way.run, Session.step, runSource, parsed]
      exact Upholds.throw trivial
    | entry =>
      simp only [Way.run, parsed]
      exact Upholds.throw trivial
  | ok b =>
    have inner (y : Stmt) (part : y ∈ blockParts b) : StatementIn ((c.files, text) :: runs) y :=
      ⟨text, b, .ran latest, parsed, part⟩
    cases w with
    | step =>
      simp only [Way.run, Session.step, runSource, parsed]
      exact Upholds.program rules inner (fun _ _ flow _ => tolerated flow) Session.unlimited
    | entry =>
      simp only [Way.run, parsed]
      exact Upholds.entry rules inner fun _ _ flow _ => tolerated flow

theorem State.Sound.after_text {s : State} (sound : s.Sound (StatementIn runs)) (w : Way)
    (c : Context) (text : String) :
    (endState (w.run c text (Session.quiet s))).Sound (StatementIn ((c.files, text) :: runs)) ∧
      s.machine.heap.Later (endState (w.run c text (Session.quiet s))).machine.heap := by
  have before := sound.mono fun x inside => inside.mono (List.subset_cons_self (c.files, text) runs)
  have quiet : (Session.quiet s).Sound (StatementIn ((c.files, text) :: runs)) :=
    ⟨before.heap, before.frame⟩
  exact quiet.after (w.run_upholds c text)

theorem Reached.sound {s : State} (reached : Reached runs s) : s.Sound (StatementIn runs) := by
  induction reached with
  | start => exact State.start_sound
  | run earlier w c text ih => exact (ih.after_text w c text).1

/-! Objects. -/

/-- The objects of a session are maps. No key of one has quotes at an end or differs in case only
from another; whatever is run next leaves the keys where they are and as they are spelt; and what
was set under a key is found under any spelling of it. -/
theorem objects_ordered {s : State} (reached : Reached runs s) :
    (∀ (i : Nat) (o : Object Value), s.machine.heap.objects[i]? = some o → o.Ordered) ∧
      (∀ (i : Nat) (c : Class), s.machine.heap.classes[i]? = some c → c.properties.Ordered) ∧
      (∀ (w : Way) (c : Context) (text : String),
        s.machine.heap.KeepsKeys (endState (w.run c text (Session.quiet s))).machine.heap) ∧
      (∀ (limit : Nat) (c : Context) (b : Block),
        s.machine.heap.KeepsKeys (endState (run limit c b s)).machine.heap) ∧
      ∀ (o : Object Value) (key other : String) (v : Value),
        (o.set key v).get? other = (if Agree key other then some v else o.get? other) ∧
          o.contains other = (o.get? other).isSome := by
  have sound := reached.sound
  refine ⟨fun i o found => ?_, fun i c found => ?_, fun w c text => ?_, fun limit c b => ?_,
    fun o key other v => ⟨?_, o.contains_eq_isSome other⟩⟩
  · exact (sound.heap.objects i o found).ordered
  · obtain ⟨ms, own, built⟩ := (sound.heap.classes i c found).built
    exact built.properties.ordered
  · exact (sound.after_text w c text).2.objects
  · exact (later_law.run limit c b s).2.objects
  · split
    · rename_i agree
      exact o.get?_set_agree agree v
    · rename_i differ
      exact o.get?_set_differ differ v

/-- A session whose second text fails after it set a key of the object once more. -/
theorem spellings_ordered :
    ∃ s o, Reached [(⟨[], []⟩, "o[\"KEY\"] = 2 x = 1 / 0"), (⟨[], []⟩, "o = \x7b\"Key\": 1\x7d")] s ∧
      s.machine.heap.objects[0]? = some o ∧ o.keys = ["Key"] ∧ o.Ordered := by
  let c : Context := .inMemory ⟨[], []⟩ .working
  let first := endState (Way.step.run c "o = \x7b\"Key\": 1\x7d" (Session.quiet .start))
  let s := endState (Way.step.run c "o[\"KEY\"] = 2 x = 1 / 0" (Session.quiet first))
  have reached : Reached [(c.files, _), (c.files, _)] s := .run (.run .start .step c _) .step c _
  have keys : (s.machine.heap.objects[0]?).map Object.keys = some ["Key"] := by decide +kernel
  obtain ⟨o, found, same⟩ := Option.map_eq_some_iff.1 keys
  exact ⟨s, o, reached, found, same, (objects_ordered reached).1 0 o found⟩

end Script
