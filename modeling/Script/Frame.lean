import Script.Heap

/-! Frames. A call copies the variables of its caller and shares its functions, so what a callee
assigns is never seen outside. -/

namespace Script

namespace Frame

/-- A frame without variables over a table of its own. -/
def new (h : Heap) : Frame × Heap :=
  let (table, h) := h.newTable
  (⟨.empty, table, none⟩, h)

def get? (f : Frame) (name : String) : Option Value :=
  f.vars.get? name

def assign (f : Frame) (name : String) (value : Value) : Frame :=
  { f with vars := f.vars.insert name value }

/-- Binds names to values side by side. -/
def assignAll (f : Frame) (names : List String) (values : List Value) : Frame :=
  (names.zip values).foldl (fun f e => f.assign e.1 e.2) f

/-- The frame that a call starts in: the caller's variables and functions. -/
def callee (f : Frame) : Frame :=
  { f with parent := none }

/-- The variables of a module's frame over those of the caller, and the module's functions. -/
def enter (f scope : Frame) : Frame :=
  { f with vars := f.vars.overlay scope.vars, table := scope.table }

def function? (f : Frame) (h : Heap) (name : String) : Option FunctionRef :=
  (h.table f.table).get? name

end Frame

end Script
