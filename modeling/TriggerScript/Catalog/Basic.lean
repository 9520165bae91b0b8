import TriggerScript.ValueType

/-!
# Host catalogs

A catalog lists what the host offers to scripts: functions they may call and
listeners they may bind triggers to.  Functions and listeners are numbered
separately.
-/

namespace TriggerScript

namespace Catalog

structure Parameter where
  type : ValueType
  name : String
  deriving DecidableEq, Repr

structure Function where
  returns : ValueType
  name : String
  params : List Parameter
  id : UInt32
  deriving DecidableEq, Repr

def Function.signature (function : Function) : List ValueType :=
  function.params.map Parameter.type

structure Listener where
  name : String
  params : List Parameter
  id : UInt32
  deriving DecidableEq, Repr

end Catalog

/-- The functions and listeners of a host, in order of declaration. -/
structure Catalog where
  functions : List Catalog.Function := []
  listeners : List Catalog.Listener := []
  deriving DecidableEq, Repr

namespace Catalog

def listener? (catalog : Catalog) (name : String) : Option Listener :=
  catalog.listeners.find? fun listener => listener.name == name

/-- The first function with a given name, whatever its parameters. -/
def function? (catalog : Catalog) (name : String) : Option Function :=
  catalog.functions.find? fun function => function.name == name

/-- The first function with a given name and exactly these parameter
types. -/
def overload? (catalog : Catalog) (name : String)
    (types : List ValueType) : Option Function :=
  catalog.functions.find? fun function =>
    function.name == name && function.signature == types

def functionOfId? (catalog : Catalog) (id : UInt32) : Option Function :=
  catalog.functions.find? fun function => function.id == id

end Catalog

end TriggerScript
