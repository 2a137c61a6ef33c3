/-! Named entries in the order in which their names were first written. -/

namespace WidgetJsx

structure Fields (α : Type) where
  entries : List (String × α)
deriving Repr

namespace Fields

variable {α β : Type}

def empty : Fields α := ⟨[]⟩

instance : EmptyCollection (Fields α) := ⟨empty⟩

instance : Inhabited (Fields α) := ⟨empty⟩

def keys (fs : Fields α) : List String := fs.entries.map Prod.fst

def size (fs : Fields α) : Nat := fs.entries.length

def isEmpty (fs : Fields α) : Bool := fs.entries.isEmpty

def get? (fs : Fields α) (key : String) : Option α := fs.entries.lookup key

/-- A key that is there keeps its place and gets a new value; any other comes last. -/
def set (fs : Fields α) (key : String) (value : α) : Fields α :=
  if fs.keys.contains key then
    ⟨fs.entries.map fun entry => if entry.1 == key then (key, value) else entry⟩
  else ⟨fs.entries ++ [(key, value)]⟩

def setAll (fs : Fields α) (entries : List (String × α)) : Fields α :=
  entries.foldl (fun fs entry => fs.set entry.1 entry.2) fs

def ofList (entries : List (String × α)) : Fields α :=
  setAll ∅ entries

/-- The entries of both, where the second has the last word on values and the first on order. -/
def extend (fs gs : Fields α) : Fields α :=
  fs.setAll gs.entries

def erase (fs : Fields α) (key : String) : Fields α :=
  ⟨fs.entries.eraseP (·.1 == key)⟩

/-- Writes another prefix in front of the keys that have the old one. Keys may then coincide. -/
def renamePrefix (fs : Fields α) (old new : String) : Fields α :=
  ⟨fs.entries.map fun (key, value) =>
    if old.toList.isPrefixOf key.toList then
      (new ++ String.ofList (key.toList.drop old.toList.length), value)
    else (key, value)⟩

end Fields

end WidgetJsx
