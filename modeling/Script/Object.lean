import Script.Text.Blank
import Script.Text.Case

/-! Objects: values under keys that do not tell upper from lower case. -/

namespace Script

/-- Keys are the same when they differ in case only. -/
def sameKey (a b : String) : Bool :=
  Text.fold a == Text.fold b

/-- A key without the double quotes at its two ends. -/
def bareKey (key : String) : String :=
  String.ofList (Text.strip (· == '"') key.toList)

/-- Values under keys, in the order in which the keys were first set. A key keeps the spelling
that it was first set with. -/
structure Object (α : Type) where
  entries : List (String × α)

namespace Object

variable {α : Type}

def empty : Object α := ⟨[]⟩

def size (o : Object α) : Nat := o.entries.length

def keys (o : Object α) : List String := o.entries.map Prod.fst

def get? (o : Object α) (key : String) : Option α :=
  (o.entries.find? fun e => sameKey e.1 (bareKey key)).map Prod.snd

def contains (o : Object α) (key : String) : Bool :=
  o.entries.any fun e => sameKey e.1 (bareKey key)

/-- Replaces the value of the first entry whose key is the same, or adds an entry at the end. -/
def put (key : String) (value : α) : List (String × α) → List (String × α)
  | [] => [(key, value)]
  | e :: rest => if sameKey e.1 key then (e.1, value) :: rest else e :: put key value rest

def set (o : Object α) (key : String) (value : α) : Object α :=
  ⟨put (bareKey key) value o.entries⟩

/-- Sets entries one after another. -/
def setAll (o : Object α) (entries : List (String × α)) : Object α :=
  entries.foldl (fun o e => o.set e.1 e.2) o

/-- Sets those entries whose keys the object does not hold yet. -/
def fill (o : Object α) (entries : List (String × α)) : Object α :=
  entries.foldl (fun o e => if o.contains e.1 then o else o.set e.1 e.2) o

end Object

end Script
