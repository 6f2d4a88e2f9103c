import Script.Heap

/-! Classes and their instances. -/

namespace Script

namespace Heap

/-- A class followed by its ancestors, as far as `bound` goes. A parent is older than its
children, so the number of classes is bound enough. -/
def chainUpTo (h : Heap) : Nat → ClassRef → List Class
  | 0, _ => []
  | n + 1, r =>
    let c := h.cls r
    c :: (c.parent.elim [] (h.chainUpTo n))

def chain (h : Heap) (r : ClassRef) : List Class :=
  h.chainUpTo h.classes.size r

end Heap

namespace Class

def method? (c : Class) (name : String) : Option FunctionRef :=
  c.methods.lookup name

/-- Replaces the method of the name, or adds one at the end. -/
def putMethod (name : String) (f : FunctionRef) :
    List (String × FunctionRef) → List (String × FunctionRef)
  | [] => [(name, f)]
  | m :: rest => if m.1 = name then (name, f) :: rest else m :: putMethod name f rest

def setMethod (c : Class) (name : String) (f : FunctionRef) : Class :=
  { c with methods := putMethod name f c.methods }

def methodEntries (c : Class) : List (String × Value) :=
  c.methods.map fun m => (m.1, .function m.2)

/-- The class that a class of the name starts from: all that the parent has but its
constructor. -/
def under (h : Heap) (name : String) (parent : Option ClassRef) : Class :=
  match parent with
  | none => ⟨name, none, .empty, [], none⟩
  | some p => ⟨name, some p, (h.cls p).properties, (h.cls p).methods, none⟩

end Class

/-- The key under which an instance holds its class. -/
def classKey : String := "__class__"

/-- The key under which an instance holds the parent of its class. -/
def parentKey : String := "__parent__"

/-- The name that a method or a constructor sees its instance under. -/
def selfName : String := "cur"

namespace Heap

/-- The method that instances of a class have under a name: the first along the chain. -/
def method? (h : Heap) (r : ClassRef) (name : String) : Option FunctionRef :=
  (h.chain r).findSome? (·.method? name)

/-- The class of an instance, which is an object that holds one under the key for it. -/
def classOf? (h : Heap) : Value → Option ClassRef
  | .object r =>
    match (h.object r).get? classKey with
    | some (.cls c) => some c
    | _ => none
  | _ => none

end Heap

end Script
