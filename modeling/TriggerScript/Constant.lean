import TriggerScript.Node.Basic
import TriggerScript.Text.Quoted

/-!
# Constants

A program keeps the values of its literals in one table without repetition.
Instructions name a constant by its place in that table.  Booleans are kept
as the integers zero and one; an `int` and a `long` are never the same
constant.
-/

namespace TriggerScript

inductive Constant where
  | int (value : Int32)
  | long (value : Int64)
  | string (value : String)
  deriving DecidableEq, Repr

namespace Constant

def type : Constant → ValueType
  | int _ => .int
  | long _ => .long
  | string _ => .string

def text : Constant → String
  | int value => toString value.toInt
  | long value => toString value.toInt ++ "L"
  | string value => Text.quoted value

def ofBool (value : Bool) : Constant :=
  int (if value then 1 else 0)

def ofLiteral : Literal → Constant
  | .int value => int value
  | .long value => long value
  | .string value => string value
  | .bool value => ofBool value

end Constant

/-- A table of constants without repetition, in order of first use. -/
structure ConstantPool where
  entries : List Constant := []
  deriving DecidableEq, Repr

namespace ConstantPool

def size (pool : ConstantPool) : Nat :=
  pool.entries.length

def isEmpty (pool : ConstantPool) : Bool :=
  pool.entries.isEmpty

def get? (pool : ConstantPool) (index : Nat) : Option Constant :=
  pool.entries[index]?

/-- The place of a constant, which is added at the end if it is new. -/
def intern (pool : ConstantPool) (constant : Constant) :
    Nat × ConstantPool :=
  match pool.entries.idxOf? constant with
  | some index => (index, pool)
  | none => (pool.size, ⟨pool.entries ++ [constant]⟩)

def internBool (pool : ConstantPool) (value : Bool) :
    Nat × ConstantPool :=
  pool.intern (.ofBool value)

end ConstantPool

end TriggerScript
