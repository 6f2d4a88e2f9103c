import Script.Bindings
import Script.Object
import Script.Value

/-! The heap that references point into. Nothing is ever removed from it. -/

namespace Script

/-- The variables that a running body sees, the functions of its script, and the class whose
constructor `super` runs. -/
structure Frame where
  vars : Bindings Value
  table : TableRef
  parent : Option ClassRef

/-- A function. An exported one carries the frame of the module that it was exported from. -/
structure Function where
  decl : Decl
  scope : Option Frame
  shared : Bool

/-- A class with what it inherits already among its properties and methods. -/
structure Class where
  name : String
  parent : Option ClassRef
  properties : Object Value
  methods : List (String × FunctionRef)
  constructor : Option FunctionRef

/-- All that references point to. -/
structure Heap where
  lists : Array (Array Value)
  objects : Array (Object Value)
  classes : Array Class
  functions : Array Function
  tables : Array (Bindings FunctionRef)

namespace Heap

def empty : Heap := ⟨#[], #[], #[], #[], #[]⟩

def list (h : Heap) (r : ListRef) : Array Value :=
  (h.lists[r.index]?).getD #[]

def newList (h : Heap) (items : Array Value) : ListRef × Heap :=
  (⟨h.lists.size⟩, { h with lists := h.lists.push items })

def updateList (h : Heap) (r : ListRef) (f : Array Value → Array Value) : Heap :=
  { h with lists := h.lists.modify r.index f }

def object (h : Heap) (r : ObjectRef) : Object Value :=
  (h.objects[r.index]?).getD .empty

def newObject (h : Heap) (o : Object Value) : ObjectRef × Heap :=
  (⟨h.objects.size⟩, { h with objects := h.objects.push o })

/-- Sets one key of an object. -/
def setKey (h : Heap) (r : ObjectRef) (key : String) (value : Value) : Heap :=
  { h with objects := h.objects.modify r.index fun o => o.set key value }

def cls (h : Heap) (r : ClassRef) : Class :=
  (h.classes[r.index]?).getD ⟨"", none, .empty, [], none⟩

def newClass (h : Heap) (c : Class) : ClassRef × Heap :=
  (⟨h.classes.size⟩, { h with classes := h.classes.push c })

def function (h : Heap) (r : FunctionRef) : Function :=
  (h.functions[r.index]?).getD ⟨⟨"", [], [], default⟩, none, false⟩

def newFunction (h : Heap) (f : Function) : FunctionRef × Heap :=
  (⟨h.functions.size⟩, { h with functions := h.functions.push f })

def markShared (h : Heap) (r : FunctionRef) : Heap :=
  { h with functions := h.functions.modify r.index fun f => { f with shared := true } }

def table (h : Heap) (r : TableRef) : Bindings FunctionRef :=
  (h.tables[r.index]?).getD .empty

def newTable (h : Heap) : TableRef × Heap :=
  (⟨h.tables.size⟩, { h with tables := h.tables.push .empty })

def define (h : Heap) (t : TableRef) (name : String) (f : FunctionRef) : Heap :=
  { h with tables := h.tables.modify t.index fun b => b.insert name f }

/-- Whether a condition holds on a value: all do but null, false, zeros and what is empty. -/
def truthy (h : Heap) : Value → Bool
  | .null => false
  | .bool b => b
  | .int n => n != 0
  | .double x => x != 0
  | .string s => s != ""
  | .list r => !(h.list r).isEmpty
  | .object r => !(h.object r).entries.isEmpty
  | .cls _ | .function _ => true

end Heap

end Script
