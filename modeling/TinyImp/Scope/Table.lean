import TinyImp.Text
import Std.Data.ExtTreeMap

/-! # Symbol tables

A table lists the declared names in the order of their declaration and finds each of them through an
index.
-/

namespace TinyImp

/-- Declared names, with the position of each. -/
structure SymbolTable where
  names : Array String := #[]
  index : Std.ExtTreeMap String Nat := ∅

namespace SymbolTable

def contains (table : SymbolTable) (name : String) : Bool :=
  table.index.contains name

def size (table : SymbolTable) : Nat :=
  table.names.size

def isEmpty (table : SymbolTable) : Bool :=
  table.names.isEmpty

/-- Declare a name: whether it is new, and the table after it. A new name is added at the end. -/
def declare (table : SymbolTable) (name : String) : Bool × SymbolTable :=
  if table.contains name then (false, table)
  else
    let index := table.index.insert name table.names.size
    (true, { names := table.names.push name, index })

/-- The declared names in the order of their declaration. -/
def toList (table : SymbolTable) : List String :=
  table.names.toList

def render (table : SymbolTable) : String :=
  unlines (table.toList.map (· ++ ": int"))

end SymbolTable

end TinyImp
