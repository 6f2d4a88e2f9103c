import Script.Builtin
import Script.Proofs.Scalars

/-! What the methods of values without a class do. There are many methods, and few things that they
do: what holds of each of these holds of every method. -/

namespace Script.Builtin

/-- What the method `b` of a value with some arguments does, wherever it is called. -/
inductive Does (b : Builtin) : Value → List Value → (Span → Eval Value) → Prop
  | answers {v args u} (scalar : u.Scalar) : Does b v args fun _ => pure u
  | renders {v args} (is : b = .asString) : Does b v args fun _ => do
      match (← Eval.heap).text? v with
      | some text => return .string text
      | none => throw .exhausted
  | readsInteger {t args} (n : Option Int64) : Does b (.string t) args fun s => do
      return .int (← Eval.orFail n (.noInt t) s)
  | readsDouble {t args} (x : Option Float) : Does b (.string t) args fun s => do
      return .double (← Eval.orFail x (.noDouble t) s)
  | readsList {r args} {answer : Array Value → Value} (scalar : ∀ items, (answer items).Scalar) :
      Does b (.list r) args fun _ => do return answer ((← Eval.heap).list r)
  | readsObject {r args} {answer : Object Value → Value} (scalar : ∀ o, (answer o).Scalar) :
      Does b (.object r) args fun _ => do return answer ((← Eval.heap).object r)
  | changesList {r args} {change : Array Value → Array Value}
      (members : ∀ items, ∀ u ∈ change items, u ∈ items ∨ u ∈ args) :
      Does b (.list r) args fun _ => do
        Eval.changeHeap fun h => h.updateList r change
        return .null
  | copiesList {r args} {copy : Array Value → Array Value}
      (members : ∀ items, ∀ u ∈ copy items, u ∈ items) :
      Does b (.list r) args fun _ => do Eval.newList (copy ((← Eval.heap).list r))
  | listsObject {r args} {listed : Object Value → Array Value}
      (scalar : ∀ o, ∀ u ∈ listed o, u.Scalar) :
      Does b (.object r) args fun _ => do Eval.newList (listed ((← Eval.heap).object r))
  | findsKey {r args} (u : Value) : Does b (.object r) args fun s => do
      let key ← b.keyArg u s
      return .bool (((← Eval.heap).object r).contains key)
  | getsKey {r args} (u : Value) : Does b (.object r) args fun s => do
      let key ← b.keyArg u s
      Eval.orFail (((← Eval.heap).object r).get? key) (.missingKey key) s
  | setsKey {r args w} (u : Value) (given : w ∈ args) : Does b (.object r) args fun s => do
      let key ← b.keyArg u s
      Eval.changeHeap fun h => h.setKey r key w
      return .null

theorem does (b : Builtin) (v : Value) (args : List Value) : b.Does v args (b.run v args) := by
  cases b with
  | getType => exact .answers trivial
  | asString => exact .renders rfl
  | stringLength | stringReversed | uppercase | lowercase =>
    cases v with
    | string t => exact .answers trivial
    | _ => exact .answers trivial
  | asInt =>
    cases v with
    | string t => exact .readsInteger _
    | _ => exact .answers trivial
  | asDouble =>
    cases v with
    | string t => exact .readsDouble _
    | _ => exact .answers trivial
  | listLength =>
    cases v with
    | list r =>
      have size (items : Array Value) : (Value.int (Int64.ofNat items.size)).Scalar := trivial
      exact .readsList size
    | _ => exact .answers trivial
  | add =>
    cases v with
    | list r =>
      cases args with
      | nil => exact .answers trivial
      | cons u us =>
        refine .changesList fun items u' member => ?_
        rcases Array.mem_push.1 member with old | rfl
        · exact .inl old
        · exact .inr List.mem_cons_self
    | _ => exact .answers trivial
  | reverse =>
    cases v with
    | list r => exact .changesList fun items u member => .inl (Array.mem_reverse.1 member)
    | _ => exact .answers trivial
  | listReversed =>
    cases v with
    | list r => exact .copiesList fun items u member => Array.mem_reverse.1 member
    | _ => exact .answers trivial
  | clear =>
    cases v with
    | list r => exact .changesList fun items u member => absurd member (Array.not_mem_empty u)
    | _ => exact .answers trivial
  | count =>
    cases v with
    | object r =>
      have size (o : Object Value) : (Value.int (Int64.ofNat o.size)).Scalar := trivial
      exact .readsObject size
    | _ => exact .answers trivial
  | containsKey =>
    cases v with
    | object r =>
      cases args with
      | nil => exact .answers trivial
      | cons u us => exact .findsKey u
    | _ => exact .answers trivial
  | get =>
    cases v with
    | object r =>
      cases args with
      | nil => exact .answers trivial
      | cons u us => exact .getsKey u
    | _ => exact .answers trivial
  | set =>
    cases v with
    | object r =>
      match args with
      | [] | [u] => exact .answers trivial
      | u :: w :: us => exact .setsKey u (by simp)
    | _ => exact .answers trivial
  | keys =>
    cases v with
    | object r =>
      have names (o : Object Value) : ∀ u ∈ (o.keys.map Value.string).toArray, u.Scalar := by
        intro u member
        obtain ⟨key, -, rfl⟩ := List.mem_map.1 (List.mem_toArray.1 member)
        trivial
      exact .listsObject names
    | _ => exact .answers trivial

end Script.Builtin
