import Script.Proofs.Sound.Reached

/-! Programs in which each `break` stands in a loop and each `return` in a function of its own. No run
of one fails for a stray `break` or `return`. -/

namespace Script

/-- The text of a fault of a `break` or a `return` out of place. -/
def Stray (text : String) : Prop :=
  text = "'break' can only be used inside a loop" ∨
    text = "'return' can only be used inside a function" ∨
    ∃ function : String, text = s!"'break' outside of a loop in '{function}'"

/-! No other message reads like these. Most begin with a word, which is not in quotes. -/

/-- The text begins with a letter. -/
def worded (text : String) : Bool :=
  text.toList.head?.any Char.isAlpha

theorem worded_append {a : String} (h : worded a = true) (b : String) : worded (a ++ b) = true := by
  unfold worded at h ⊢
  rw [String.toList_append, List.head?_append]
  cases first : a.toList.head? with
  | none =>
    rw [first] at h
    cases h
  | some c =>
    rw [first] at h
    exact h

theorem getElem?_append_of {a : String} {i : Nat} {c : Char} (h : a.toList[i]? = some c)
    (b : String) : (a ++ b).toList[i]? = some c := by
  obtain ⟨below, -⟩ := List.getElem?_eq_some_iff.1 h
  rw [String.toList_append, List.getElem?_append_left below, h]

theorem getLast?_append_of {b : String} {c : Char} (h : b.toList.getLast? = some c) (a : String) :
    (a ++ b).toList.getLast? = some c := by
  rw [String.toList_append, List.getLast?_append, h]
  rfl

namespace Stray

variable {text : String}

/-- It begins with an apostrophe, and the word after that is neither `in` nor `init`. -/
theorem begins (stray : Stray text) :
    text.toList[0]? = some (Char.ofNat 39) ∧ text.toList[1]? ≠ some 'i' := by
  rcases stray with rfl | rfl | ⟨f, rfl⟩
  · decide
  · decide
  · have first : "'break' outside of a loop in '".toList[0]? = some (Char.ofNat 39) := by decide
    have second : "'break' outside of a loop in '".toList[1]? = some 'b' := by decide
    refine ⟨getElem?_append_of (getElem?_append_of first f) "'", fun other => ?_⟩
    have both := (getElem?_append_of (getElem?_append_of second f) "'").symm.trans other
    exact absurd both (by decide)

theorem last (stray : Stray text) : text.toList.getLast? ≠ some 's' := by
  rcases stray with rfl | rfl | ⟨f, rfl⟩
  · decide
  · decide
  · have final : "'".toList.getLast? = some (Char.ofNat 39) := by decide
    intro other
    have both := (getLast?_append_of final ("'break' outside of a loop in '" ++ f)).symm.trans other
    exact absurd both (by decide)

end Stray

theorem not_stray_of_worded {text : String} (h : worded text = true) : ¬ Stray text := by
  intro stray
  unfold worded at h
  rw [List.head?_eq_getElem?, stray.begins.1] at h
  cases h

theorem Builtin.worded_name (b : Builtin) : worded b.name = true := by
  cases b <;> decide

theorem RunFault.message_not_stray {f : RunFault} (regular : f.Regular) : ¬ Stray f.message := by
  cases f with
  | strayLeave => exact regular.elim
  | strayGive => exact regular.elim
  | strayLeaveIn d => exact regular.elim
  | strayInit => exact fun stray => stray.begins.2 (by decide)
  | membership kind => exact fun stray => stray.begins.2 (by cases kind <;> decide)
  | notClass path =>
    intro stray
    have last : "' is not a valid class".toList.getLast? = some 's' := by decide
    exact stray.last (getLast?_append_of last _)
  | builtinArity name expected given =>
    obtain ⟨b, rfl⟩ := regular
    have text := worded_append b.worded_name "() takes exactly "
    exact not_stray_of_worded (worded_append (worded_append (worded_append text _) _) _)
  | builtinKey name kind =>
    obtain ⟨b, rfl⟩ := regular
    have text := worded_append b.worded_name "() expects a string key, got '"
    exact not_stray_of_worded (worded_append (worded_append text _) _)
  | _ =>
    apply not_stray_of_worded
    dsimp only [message]
    repeat with_reducible apply worded_append
    decide +kernel

theorem Fault.message_not_stray {f : Fault} (regular : f.Regular) (place : Span) :
    ¬ Stray (f.message place) := by
  have access (a : Access) : worded a.text = true := by
    cases a <;> decide
  cases f with
  | lexical f => exact regular.elim
  | grammar f => exact regular.elim
  | running f => exact RunFault.message_not_stray regular
  | noFile a file path => exact not_stray_of_worded (worded_append (access a) _)
  | unreadable a file reason => exact not_stray_of_worded (worded_append (access a) _)
  | module a file cause inner =>
    have text : Fault.message place (.module a file cause inner) =
      a.text ++ _ ++ _ ++ _ ++ _ ++ _ ++ _ := rfl
    simp only [text, String.append_assoc]
    exact not_stray_of_worded (worded_append (access a) _)
  | _ =>
    apply not_stray_of_worded
    dsimp only [message]
    repeat with_reducible apply worded_append
    decide +kernel

/-! Programs. -/

/-- Each `break` stands in a loop of the body that it belongs to, each `return` in a body, and no
other file is named. -/
structure Contained (b : Block) : Prop where
  leaves : blockLeaves b = false
  gives : blockGives b = false
  bodies : ∀ x ∈ blockParts b, ∀ d ∈ x.decls, blockLeaves d.body = false
  files : ∀ x ∈ blockParts b, x.file? = none

/-- What a contained program is made of. -/
def Settled (x : Stmt) : Prop :=
  x.file? = none ∧ ∀ d ∈ x.decls, blockLeaves d.body = false

theorem settled_rules (fs : Files) : Rules Settled Fault.Regular fs where
  regular _ regular := regular
  leaves x d settled member leaves := by
    rw [settled.2 d member] at leaves
    cases leaves
  files x settled file names := by
    rw [settled.1] at names
    cases names

theorem blockWithin_of_mem {b : Block} {x : Stmt} (member : x ∈ b) {flow : Flow}
    (within : flow.Within (blockLeaves [x]) (blockGives [x])) :
    flow.Within (blockLeaves b) (blockGives b) := by
  simp only [blockLeaves, blockGives, Bool.or_false] at within
  induction b with
  | nil => cases member
  | cons y b ih =>
    rcases List.mem_cons.1 member with rfl | later
    · exact within.or_left
    · exact (ih later).or_right

namespace Contained

variable {b : Block} (contained : Contained b)

include contained

theorem settled (y : Stmt) (part : y ∈ blockParts b) : Settled y :=
  ⟨contained.files y part, contained.bodies y part⟩

theorem tolerated (x : Stmt) (member : x ∈ b) (flow : Flow)
    (within : flow.Within (blockLeaves [x]) (blockGives [x])) :
    Upholds.Tolerated Fault.Regular flow := by
  have whole := blockWithin_of_mem member within
  rw [contained.leaves, contained.gives] at whole
  cases flow with
  | done => trivial
  | left => cases whole
  | gave v => cases whole

theorem program (limit : Nat) (c : Context) (h : Heap) :
    ExecUpholds Settled Fault.Regular h anything (runProgram (run limit c) b) :=
  Upholds.program (settled_rules c.files) contained.settled contained.tolerated limit

theorem entry (c : Context) (h : Heap) :
    ExecUpholds Settled Fault.Regular h anything (Repl.runEntry c b) :=
  Upholds.entry (settled_rules c.files) contained.settled contained.tolerated

end Contained

/-- What fails on a fresh state with regular faults only fails for no stray statement. -/
theorem not_stray_of_upholds {x : Exec Unit}
    (upholds : ∀ h, ExecUpholds Settled Fault.Regular h anything x) {e : Error} {t : State}
    (failed : x State.start = .error (.fault e) t) : ¬ Stray e.message := by
  have start : State.start.Sound Settled := State.start_sound
  have ended := upholds _ State.start rfl ⟨start.heap, start.frame⟩
  rw [failed] at ended
  exact Fault.message_not_stray ended.2.2 e.span

/-- A statement leaves a loop only by a `break` of its own that no loop in it encloses, a loop never
does, and a statement gives a value only by a `return` of its own. So a program where these stand in
loops and in bodies does not fail for one that does not. -/
theorem strays_contained :
    (∀ (host : Host) (x : Stmt) (s t : State) (flow : Flow), host.execute x s = .ok flow t →
      (flow = .left → x.leaves = true) ∧ ∀ v, flow = .gave v → x.gives = true) ∧
    (∀ (host : Host) (e : Expr) (b : Block) (span : Span) (s t : State),
      host.execute (.loop e b span) s ≠ .ok .left t) ∧
    (∀ (host : Host) (header : Header) (b : Block) (span : Span) (s t : State),
      host.execute (.iterate header b span) s ≠ .ok .left t) ∧
    ∀ b, Contained b → ∀ (limit : Nat) (c : Context) (e : Error) (t : State),
      (runProgram (run limit c) b State.start = .error (.fault e) t → ¬ Stray e.message) ∧
        (Repl.runEntry c b State.start = .error (.fault e) t → ¬ Stray e.message) := by
  have flows (host : Host) (x : Stmt) (s t : State) (flow : Flow)
      (ran : host.execute x s = .ok flow t) : flow.Within x.leaves x.gives := by
    have ended : EndSafe _ _ (Flow.Within x.leaves x.gives) (host.execute x s) :=
      Flows.execute x s trivial
    rw [ran] at ended
    exact ended.1
  refine ⟨fun host x s t flow ran => ?_, fun host e b span s t ran => ?_,
    fun host header b span s t ran => ?_, fun b contained limit c e t => ⟨?_, ?_⟩⟩
  · have within := flows host x s t flow ran
    constructor
    · rintro rfl
      exact within
    · rintro v rfl
      exact within
  · exact absurd (flows host _ s t _ ran) Bool.false_ne_true
  · exact absurd (flows host _ s t _ ran) Bool.false_ne_true
  · exact not_stray_of_upholds (contained.program limit c)
  · exact not_stray_of_upholds (contained.entry c)

/-- A function that gives a value from within a loop, a loop that is left, and a division by zero. -/
def busyProgram : Block :=
  [.function ⟨"g", [], [.iterate (.each "i" (.list [.literal (.int 1) default] default))
      [.branch [(.name "i" default, [.leave default])] none default] default,
    .give (some (.name "i" default)) default], default⟩ default,
  .loop (.literal (.bool true) default) [.leave default] default,
  .assign (.name "x")
    (.binary .div (.call "g" [] default) (.literal (.int 0) default) default) default]

/-- It fails, but not for a stray statement. -/
theorem busyProgram_contained :
    ∃ e t, Contained busyProgram ∧
      runProgram (run 9 (.inMemory ⟨[], []⟩ .working)) busyProgram State.start =
        .error (.fault e) t ∧ ¬ Stray e.message := by
  have contained : Contained busyProgram := ⟨by decide, by decide, by decide, by decide⟩
  have ended : faultOf (runProgram (run 9 (.inMemory ⟨[], []⟩ .working)) busyProgram State.start) =
      some ⟨.running .divisionByZero, default⟩ := by decide +kernel
  obtain ⟨t, failed⟩ := error_of_faultOf ended
  exact ⟨_, t, contained, failed,
    (strays_contained.2.2.2 busyProgram contained 9 (.inMemory ⟨[], []⟩ .working) _ t).1 failed⟩

end Script
