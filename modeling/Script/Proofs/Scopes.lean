import Mathlib.Data.List.Sort
import Script.Proofs.Frames
import Script.Proofs.Trace.Log

/-! Functions that carry the frame of a module. Their calls see the caller's variables only under
names that the module leaves free, and nothing of the caller's functions. -/

namespace Script

namespace Bindings

variable {α : Type} {b b' top : Bindings α}

theorem ext_get? (same : ∀ name, b.get? name = b'.get? name) : b = b' := by
  have members (e : String × α) : e ∈ b.entries ↔ e ∈ b'.entries := by
    constructor
    · intro member
      exact mem_of_lookup ((same e.1).symm.trans (get?_of_mem member))
    · intro member
      exact mem_of_lookup ((same e.1).trans (get?_of_mem member))
  have apart (b : Bindings α) : b.entries.Nodup := by
    apply b.sorted.imp
    rintro e _ below rfl
    exact String.lt_irrefl e.1 below
  have entries : b.entries = b'.entries :=
    ((List.perm_ext_iff_of_nodup (apart b) (apart b')).2 members).eq_of_pairwise
      (fun _ _ _ _ below above => absurd (String.lt_trans below above) (String.lt_irrefl _))
      b.sorted b'.sorted
  cases b
  cases b'
  cases entries
  rfl

/-- What lies on top hides all differences below it. -/
theorem overlay_eq_of_agree
    (agree : ∀ name, top.get? name = none → b.get? name = b'.get? name) :
    b.overlay top = b'.overlay top := by
  apply ext_get?
  intro name
  rw [get?_overlay, get?_overlay]
  cases bound : top.get? name with
  | none => rw [agree name bound]
  | some a => rfl

end Bindings

variable {caller other scope : Frame} {m : Machine} {r : FunctionRef}

/-- Two frames enter the frame of a module alike if they bind the names alike that it leaves
free. -/
theorem Frame.enter_eq_of_agree
    (agree : ∀ name, scope.get? name = none → caller.get? name = other.get? name) :
    caller.callee.enter scope = other.callee.enter scope := by
  have vars : caller.vars.overlay scope.vars = other.vars.overlay scope.vars :=
    Bindings.overlay_eq_of_agree agree
  unfold Frame.enter Frame.callee
  rw [vars]

/-- Calls of a function with a captured frame answer alike, leave the machine alike and execute the
same statements, whatever their callers bind under the names of that frame and whichever functions
they have. -/
theorem call_eq_of_agree (host : Host) (nested : Context → Block → Log State)
    (captured : (m.heap.function r).scope = some scope)
    (agree : ∀ name, scope.get? name = none → caller.get? name = other.get? name)
    (args : List Value) (span : Span) :
    host.call caller r args span m = host.call other r args span m ∧
      host.callLog nested caller r args span m = host.callLog nested other r args span m := by
  have entered := Frame.enter_eq_of_agree agree
  have frames : (m.heap.function r).scope.elim caller.callee caller.callee.enter =
      (m.heap.function r).scope.elim other.callee other.callee.enter := by
    rw [captured]
    exact entered
  constructor
  · change (do
        Host.checkArity (m.heap.function r) args span
        host.body (m.heap.function r) (((m.heap.function r).scope.elim caller.callee
          caller.callee.enter).assignAll (m.heap.function r).decl.params args) : Eval Value) m = _
    rw [frames]
    rfl
  · change Log.after (Host.checkArity (m.heap.function r) args span) (fun _ =>
        host.bodyLog nested (m.heap.function r) (((m.heap.function r).scope.elim caller.callee
          caller.callee.enter).assignAll (m.heap.function r).decl.params args)) m = _
    rw [frames]
    rfl

/-! A function that calls another of its module, where the callers bind clashing names. -/

def answered {σ α : Type} : EStateM.Result Halt σ α → Option α
  | .ok a _ => some a
  | .error .. => none

theorem ok_of_answered {σ α : Type} {x : EStateM.Result Halt σ α} {a : α}
    (answers : answered x = some a) : ∃ t, x = .ok a t := by
  cases x with
  | ok b t => exact ⟨t, by rw [Option.some.inj answers]⟩
  | error e t => cases answers

/-- Gives the sum of a variable and of what a call gives. -/
def tally : Decl where
  name := "tally"
  params := []
  body :=
    [.give (some (.binary .add (.name "a" default) (.call "help" [] default) default)) default]
  span := default

def helper (n : Int64) : Function :=
  ⟨⟨"help", [], [.give (some (.literal (.int n) default)) default], default⟩, none, false⟩

/-- The module binds one variable and has a function of its own. -/
def tallyScope : Frame :=
  ⟨Bindings.empty.insert "a" (.int 1), ⟨0⟩, none⟩

def tallyMachine : Machine where
  heap := {
    lists := #[]
    objects := #[]
    classes := #[]
    functions := #[⟨tally, some tallyScope, true⟩, helper 20, helper 300]
    tables := #[Bindings.empty.insert "help" ⟨1⟩, Bindings.empty.insert "help" ⟨2⟩, .empty] }
  output := ""
  shared := .empty

theorem tally_shielded :
    let host := Host.of 9 (.inMemory ⟨[], []⟩ .working)
    let caller : Frame := ⟨Bindings.empty.insert "a" (.int 5), ⟨1⟩, none⟩
    let other : Frame := ⟨Bindings.empty.insert "a" .null, ⟨2⟩, some ⟨0⟩⟩
    host.call caller ⟨0⟩ [] default tallyMachine = host.call other ⟨0⟩ [] default tallyMachine ∧
      ∃ m, host.call other ⟨0⟩ [] default tallyMachine = .ok (.int 21) m := by
  intro host caller other
  have bound : tallyScope.get? "a" = some (.int 1) := Bindings.get?_insert_self _ _ _
  have agree : ∀ name, tallyScope.get? name = none → caller.get? name = other.get? name := by
    intro name free
    have ne : name ≠ "a" := by
      rintro rfl
      cases free.symm.trans bound
    exact (Bindings.get?_insert_of_ne _ ne _).trans (Bindings.get?_insert_of_ne _ ne _).symm
  have ran : answered (host.call other ⟨0⟩ [] default tallyMachine) = some (.int 21) := by
    decide +kernel
  exact ⟨(call_eq_of_agree host (runLog 9) rfl agree [] default).1, ok_of_answered ran⟩

end Script
