import TriggerScript.Assembly.Draft

/-!
# Assembling bodies

The code of each tree, with `<e>` for the code of `e`:

* a literal: `PUSHCONST`
* a variable: `GETIVAR`
* a declaration with a value, an assignment: `<value>; SETIVAR`
* an equality: `<left>; <right>; EQ`
* a call: `<arguments>; NATIVECALL` or `<arguments>; CALL`
* a conditional: `<condition>; JZ other; <then>; JMP end; other: <else>; end:`

A call means the host function with exactly the types of its arguments, and
otherwise the method of that name.  Arguments must be literals, because only
literals have a type.
-/

namespace TriggerScript

namespace Node

/-- The types of arguments; the first has the given position. -/
def argumentTypes (callee : String) (position : Nat) :
    List Node → Except CompileError (List ValueType)
  | [] => .ok []
  | arg :: args =>
      match arg.staticType? with
      | none => .error (.untypedArgument callee position arg.kindName)
      | some type => do
          let types ← argumentTypes callee (position + 1) args
          return type :: types

end Node

/-- The instruction a call ends with. -/
def Scope.resolveCall (scope : Scope) (name : String)
    (types : List ValueType) : Except CompileError Instruction :=
  match scope.catalog.overload? name types with
  | some native => .ok { opcode := .callNative, i := native.id.toNat }
  | none =>
      match scope.methods.idxOf? name with
      | some index => .ok { opcode := .call, i := index }
      | none => .error (.unresolvedCall name types)

namespace Node

mutual

def assemble (scope : Scope) : Node → DraftM Unit
  | trigger event filter body =>
      throw (.nested (trigger event filter body))
  | proc name params body => throw (.nested (proc name params body))
  | block statements => assembleAll scope statements
  | declare type name none => do
      let _ ← DraftM.declare type name
  | declare type name (some value) => do
      let index ← DraftM.declare type name
      value.assemble scope
      DraftM.emitWith .setVariable index
  | assign name value => do
      let index ← DraftM.variableIndex name
      value.assemble scope
      DraftM.emitWith .setVariable index
  | branch condition thenBranch elseBranch => do
      let done ← DraftM.firstBranch (condition.assemble scope)
        (thenBranch.assemble scope)
      assembleOptional scope elseBranch
      DraftM.emitMarker done
  | call name args => do
      let types ← liftExcept (argumentTypes name 1 args)
      let instruction ← liftExcept (scope.resolveCall name types)
      assembleAll scope args
      DraftM.emit instruction
  | literal value => DraftM.pushLiteral value
  | compare left comparator right => do
      left.assemble scope
      right.assemble scope
      if comparator = .equal then
        DraftM.emitWith .equal 0
      else
        throw (.unknownComparator comparator)
  | var name => do
      let index ← DraftM.variableIndex name
      DraftM.emitWith .getVariable index

def assembleAll (scope : Scope) : List Node → DraftM Unit
  | [] => pure ()
  | node :: nodes => do
      node.assemble scope
      assembleAll scope nodes

def assembleOptional (scope : Scope) : Option Node → DraftM Unit
  | none => pure ()
  | some node => node.assemble scope

end

theorem assemble_branch_eq_test (scope : Scope) (condition thenBranch : Node)
    (elseBranch : Option Node) :
    (branch condition thenBranch elseBranch).assemble scope = (do
      let (otherwise, done) ← DraftM.test (condition.assemble scope)
      thenBranch.assemble scope
      DraftM.emitBranch .jump done
      DraftM.emitMarker otherwise
      assembleOptional scope elseBranch
      DraftM.emitMarker done) := by
  simp only [assemble, DraftM.firstBranch, bind_assoc, pure_bind]

/-- The code of a conditional, step by step. -/
theorem assemble_branch (scope : Scope) (condition thenBranch : Node)
    (elseBranch : Option Node) :
    (branch condition thenBranch elseBranch).assemble scope = (do
      condition.assemble scope
      let otherwise ← DraftM.newLabel
      let done ← DraftM.newLabel
      DraftM.emitBranch .jumpIfZero otherwise
      thenBranch.assemble scope
      DraftM.emitBranch .jump done
      DraftM.emitMarker otherwise
      assembleOptional scope elseBranch
      DraftM.emitMarker done) := by
  simp only [assemble_branch_eq_test, DraftM.test, bind_assoc, pure_bind]

end Node

end TriggerScript
