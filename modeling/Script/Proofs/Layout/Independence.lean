import Mathlib
import Script.Proofs.Layout.Parsing
import Script.Proofs.Layout.Statements
import Script.Session

/-! The layout of a source does not matter. Two sources with the same tokens, comments apart, parse to
the same program and run to the same end from states that agree but for places. -/

namespace Script

def Function.bare (f : Function) : Function :=
  { f with decl := f.decl.bare }

/-- A state without the places in its function declarations, which are the only ones it has. -/
def State.bare (s : State) : State :=
  let heap := { s.machine.heap with functions := s.machine.heap.functions.map Function.bare }
  { s with machine := { s.machine with heap := heap } }

/-- The same kind of error, with the same text and the same advice. -/
def Error.SameReport (e e' : Error) : Prop :=
  e.stage = e'.stage ∧ e.message = e'.message ∧ e.help = e'.help

def ParsesAlike : Except Error Block → Except Error Block → Prop
  | .ok p, .ok q => bareBlock p = bareBlock q
  | .error e, .error e' => e.SameReport e'
  | _, _ => False

def RunsToLike : EStateM.Result Halt State Unit → EStateM.Result Halt State Unit → Prop
  | .ok _ s, .ok _ t => s.bare = t.bare
  | .error (.fault e) s, .error (.fault e') t => e.SameReport e' ∧ s.bare = t.bare
  | .error .exhausted s, .error .exhausted t => s.bare = t.bare
  | _, _ => False

namespace World

/-- Both runs own all there is, and no place counts. -/
def overall : World := ⟨nowhere, .empty, .empty⟩

theorem overall_owns (v : Value) : overall.Owns v := by
  cases v with
  | list r => exact Nat.zero_le _
  | object r => exact Nat.zero_le _
  | cls r => exact Nat.zero_le _
  | function r => exact Nat.zero_le _
  | _ => trivial

theorem overall_ownsFrame (f : Frame) : overall.OwnsFrame f :=
  ⟨fun _ _ => overall_owns _, Nat.zero_le _, fun _ _ => overall_owns _⟩

theorem overall_ownsClass (c : Class) : overall.OwnsClass c :=
  ⟨fun _ _ => overall_owns _, fun _ _ => overall_owns _, fun _ _ => overall_owns _,
    fun _ _ => overall_owns _⟩

theorem overall_functions (f g : Function) : overall.Functions f g ↔ f.bare = g.bare := by
  constructor
  · intro like
    have decls : f.decl.bare = g.decl.bare := like.decl
    simp only [Function.bare, decls, like.scope, like.shared]
  · intro same
    simp only [Function.bare, Function.mk.injEq] at same
    obtain ⟨decls, scopes, shared⟩ := same
    exact ⟨decls, scopes, fun s _ => overall_ownsFrame s, shared⟩

end World

variable {α β : Type}

/-- Above nothing, rows are alike as a whole. -/
theorem Rows.iff_map_eq {like : α → α → Prop} {f : α → β} {a b : Array α}
    (same : ∀ x y, like x y ↔ f x = f y) : Rows like #[] #[] a b ↔ a.map f = b.map f := by
  constructor
  · intro rows
    apply Array.ext
    · simp [rows.size]
    · intro i below below'
      rw [Array.size_map] at below below'
      rw [Array.getElem_map, Array.getElem_map]
      apply (same _ _).1
      exact rows.newer i (Nat.zero_le _) _ _ (Array.getElem?_eq_getElem below)
        (Array.getElem?_eq_getElem below')
  · intro maps
    refine ⟨by simpa using congrArg Array.size maps, Nat.zero_le _, by simp, ?_⟩
    intro i _ x y hx hy
    have h : (a.map f)[i]? = (b.map f)[i]? := by rw [maps]
    rw [Array.getElem?_map, Array.getElem?_map, hx, hy] at h
    exact (same x y).2 (Option.some.inj h)

theorem Rows.iff_eq {good : α → Prop} (all : ∀ x, good x) {a b : Array α} :
    Rows (Same good) #[] #[] a b ↔ a = b := by
  have same (x y : α) : Same good x y ↔ id x = id y := ⟨And.left, fun h => ⟨h, all x⟩⟩
  rw [Rows.iff_map_eq same, Array.map_id, Array.map_id]

namespace World

theorem overall_states {s t : State} : overall.States s t ↔ s.bare = t.bare := by
  have values {vs : Array Value} : ∀ v ∈ vs, overall.Owns v := fun v _ => overall_owns v
  have entries (o : Object Value) : overall.OwnsEntries o.entries := fun _ _ => overall_owns _
  have tables (b : Bindings FunctionRef) : ∀ e ∈ b.entries, overall.Owns (.function e.2) :=
    fun _ _ => overall_owns _
  constructor
  · rintro ⟨frame, -, heap, output, shared⟩
    have lists := (Rows.iff_eq fun _ => values).1 heap.lists
    have objects := (Rows.iff_eq entries).1 heap.objects
    have classes := (Rows.iff_eq overall_ownsClass).1 heap.classes
    have functions := (Rows.iff_map_eq overall_functions).1 heap.functions
    have tables := (Rows.iff_eq tables).1 heap.tables
    simp only [State.bare, frame, output, shared, lists, objects, classes, functions, tables]
  · intro same
    simp only [State.bare, State.mk.injEq, Machine.mk.injEq, Heap.mk.injEq] at same
    obtain ⟨frame, ⟨lists, objects, classes, functions, tables'⟩, output, shared⟩ := same
    refine ⟨frame, overall_ownsFrame _, ⟨?_, ?_, ?_, ?_, ?_⟩, output, shared⟩
    · exact (Rows.iff_eq fun _ => values).2 lists
    · exact (Rows.iff_eq entries).2 objects
    · exact (Rows.iff_eq overall_ownsClass).2 classes
    · exact (Rows.iff_map_eq overall_functions).2 functions
    · exact (Rows.iff_eq tables).2 tables'

theorem runsToLike_of_endAlike {r r' : EStateM.Result Halt State Unit}
    (ended : EndAlike overall.States overall.Halts (Same fun _ => True) r r') :
    RunsToLike r r' := by
  rcases ended.cases with
    ⟨a, b, s, t, rfl, rfl, -, states⟩ | ⟨e, e', s, t, rfl, rfl, halts, states⟩
  · exact overall_states.1 states
  · cases e with
    | exhausted =>
      cases e' with
      | exhausted => exact overall_states.1 states
      | fault e' => exact halts.elim
    | fault e =>
      cases e' with
      | exhausted => exact halts.elim
      | fault e' =>
        obtain ⟨faults, -, messages⟩ := halts
        have stages : e.stage = e'.stage := congrArg Fault.stage faults
        have help : e.help = e'.help := congrArg Fault.help faults
        exact ⟨⟨stages, messages, help⟩, overall_states.1 states⟩

end World

theorem parse_of_scan {source : String} {ts : List Token} (lexed : Token.scan source = .ok ts) :
    parse source = Parser.program ts := by
  unfold parse
  rw [lexed]
  rfl

/-- Sources whose tokens agree in kind and text, comments apart, parse alike. In any context and with
any bound on nesting, they also run alike from states that agree but for places. A step of a session
is such a run. -/
theorem layout_independent {a b : String} {ts us : List Token} (left : Token.scan a = .ok ts)
    (right : Token.scan b = .ok us) (same : Token.contents ts = Token.contents us)
    (limit : Nat) (c : Context) {s t : State} (start : s.bare = t.bare) :
    ParsesAlike (parse a) (parse b) ∧
      RunsToLike (runSource (run limit c) a s) (runSource (run limit c) b t) := by
  have states := World.overall_states.2 start
  have alike := World.run_runsAlike limit World.overall c
  unfold runSource
  rw [parse_of_scan left, parse_of_scan right]
  rcases program_contents same with ⟨p, q, first, second, trees⟩ | ⟨e, e', g, first, second, h, h'⟩
  · rw [first, second]
    exact ⟨trees, World.runsToLike_of_endAlike (World.runProgram_execs alike trees s t states)⟩
  · have report : e.SameReport e' := by
      unfold Error.SameReport Error.stage Error.message Error.help
      rw [h, h']
      exact ⟨rfl, rfl, rfl⟩
    rw [first, second]
    exact ⟨report, report, start⟩

/-- A greeting, and the same with blanks, a comment and other quotes. -/
theorem layout_of_greeting :
    ParsesAlike (parse "print(\"hi\")") (parse "print( 'hi' )\n>> again") ∧
      RunsToLike
        (runSource (run 2 (.inMemory ⟨[], []⟩ .working)) "print(\"hi\")" State.start)
        (runSource (run 2 (.inMemory ⟨[], []⟩ .working)) "print( 'hi' )\n>> again" State.start) := by
  have left : Token.scan "print(\"hi\")" = .ok
      [⟨.keyword, "print", ⟨0, 5, 1, 1⟩⟩, ⟨.delimiter, "(", ⟨5, 6, 1, 6⟩⟩,
        ⟨.text, "hi", ⟨6, 10, 1, 7⟩⟩, ⟨.delimiter, ")", ⟨10, 11, 1, 11⟩⟩,
        ⟨.eof, "", ⟨11, 11, 1, 12⟩⟩] := by
    cbv
  have right : Token.scan "print( 'hi' )\n>> again" = .ok
      [⟨.keyword, "print", ⟨0, 5, 1, 1⟩⟩, ⟨.delimiter, "(", ⟨5, 6, 1, 6⟩⟩,
        ⟨.text, "hi", ⟨7, 11, 1, 8⟩⟩, ⟨.delimiter, ")", ⟨12, 13, 1, 13⟩⟩,
        ⟨.comment, ">> again", ⟨14, 22, 2, 1⟩⟩, ⟨.eof, "", ⟨22, 22, 2, 9⟩⟩] := by
    cbv
  exact layout_independent left right (by decide) 2 _ rfl

end Script
