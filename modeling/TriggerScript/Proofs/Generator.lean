import TriggerScript.Proofs.Script

/-!
# Direct generation of code

The code of a tree can be written down in one pass when it is known where it
begins: the addresses inside of it follow from the lengths of its parts.  With
`<e>` for the code of `e` at its own address, a conditional is

`<condition>; JZ other; <then>; JMP end; other: <else>; end:`

where `other` lies one address behind the code of the first branch and its
jump, and `end` lies behind the code of the second branch.  Neither labels nor
patches are needed.  Assembled methods hold exactly this code.
-/

namespace TriggerScript

namespace Node

mutual

def generate (bindings : Bindings) (base : Nat) :
    Node → List Instruction
  | trigger _ _ _ => []
  | proc _ _ _ => []
  | block statements => generateAll bindings base statements
  | declare _ _ none => []
  | declare _ name (some value) =>
      let code := value.generate bindings base
      code ++
        [{ opcode := .setVariable
           i := bindings.locals.idxOf name
           address := base + code.length }]
  | assign name value =>
      let code := value.generate bindings base
      code ++
        [{ opcode := .setVariable
           i := bindings.locals.idxOf name
           address := base + code.length }]
  | branch condition thenBranch elseBranch =>
      let test := condition.generate bindings base
      let next := base + test.length + 1
      let positive := thenBranch.generate bindings next
      let other := next + positive.length + 1
      let negative := generateOptional bindings other elseBranch
      test ++
        [{ opcode := .jumpIfZero
           i := other
           address := base + test.length }] ++
        positive ++
        [{ opcode := .jump
           i := other + negative.length
           address := next + positive.length }] ++
        negative
  | call name args =>
      let code := generateAll bindings base args
      let callee := bindings.callee name (args.filterMap staticType?)
      code ++
        [{ opcode := callee.1
           i := callee.2
           address := base + code.length }]
  | literal value =>
      [{ opcode := .pushConst
         i := bindings.constants.idxOf (.ofLiteral value)
         address := base }]
  | compare left _ right =>
      let first := left.generate bindings base
      let second := right.generate bindings (base + first.length)
      first ++ second ++
        [{ opcode := .equal
           address := base + first.length + second.length }]
  | var name =>
      [{ opcode := .getVariable
         i := bindings.locals.idxOf name
         address := base }]

def generateAll (bindings : Bindings) (base : Nat) :
    List Node → List Instruction
  | [] => []
  | node :: nodes =>
      let code := node.generate bindings base
      code ++ generateAll bindings (base + code.length) nodes

def generateOptional (bindings : Bindings) (base : Nat) :
    Option Node → List Instruction
  | none => []
  | some node => node.generate bindings base

end

theorem generateAll_singleton (bindings : Bindings) (base : Nat)
    (node : Node) :
    generateAll bindings base [node] = node.generate bindings base := by
  simp [generateAll]

theorem generateAll_toList (bindings : Bindings) (base : Nat)
    (node : Option Node) :
    generateAll bindings base node.toList =
      generateOptional bindings base node := by
  cases node with
  | none =>
      simp [generateAll, generateOptional]
  | some node =>
      simp [generateAll, generateOptional]

theorem filterMap_staticType? {args : List Node}
    {types : List ValueType}
    (typed : args.map staticType? = types.map some) :
    args.filterMap staticType? = types := by
  have reduced := congrArg (List.filterMap id) typed
  simpa [List.filterMap_map] using reduced

end Node

/-! ## Symbolic code without its markers -/

namespace Symbol

/-- Resolved and numbered code without markers. -/
def layout (addressOf : Nat → Nat) (base : Nat)
    (code : List Symbol) : List Instruction :=
  (Instruction.place base (code.map (resolve addressOf))).1.filter
    Instruction.isOperation

variable {addressOf : Nat → Nat} {base : Nat}

theorem layout_nil : layout addressOf base [] = [] := rfl

theorem layout_append (left right : List Symbol) :
    layout addressOf base (left ++ right) =
      layout addressOf base left ++
        layout addressOf (base + size left) right := by
  rw [layout, List.map_append, Instruction.place_append,
    List.filter_append, span_resolve]
  rfl

theorem layout_op {opcode : Opcode} (real : opcode.isLabel = false)
    (operand : Nat) (rest : List Symbol) :
    layout addressOf base (op opcode operand :: rest) =
      { opcode, i := operand, address := base } ::
        layout addressOf (base + 1) rest := by
  simp [layout, resolve, Instruction.place, Instruction.isOperation,
    Instruction.isLabel, real]

theorem layout_branch {opcode : Opcode} (real : opcode.isLabel = false)
    (target : Nat) (rest : List Symbol) :
    layout addressOf base (branch opcode target :: rest) =
      { opcode, i := addressOf target, address := base } ::
        layout addressOf (base + 1) rest := by
  simp [layout, resolve, Instruction.place, Instruction.isOperation,
    Instruction.isLabel, real]

theorem layout_marker (label : Nat) (rest : List Symbol) :
    layout addressOf base (marker label :: rest) =
      layout addressOf base rest := rfl

theorem layout_markers (labels : List Nat) :
    layout addressOf base (labels.map marker) = [] := by
  induction labels with
  | nil =>
      rfl
  | cons label labels inductionHypothesis =>
      rw [List.map_cons, layout_marker, inductionHypothesis]

/-! ### Conditionals -/

section Conditional

variable {test positive negative : List Symbol} {other done : Nat}

/-- Where the parts of a conditional begin. -/
theorem marked_conditional
    (marked : Marked addressOf base
      (conditional test positive negative other done)) :
    Marked addressOf base test ∧
      Marked addressOf (base + size test + 1) positive ∧
      addressOf other = base + size test + 1 + size positive + 1 ∧
      Marked addressOf (base + size test + 1 + size positive + 1)
        negative ∧
      addressOf done =
        base + size test + 1 + size positive + 1 + size negative := by
  simp only [conditional, marked_append, size_append, size_branch,
    size_marker, size_nil, Nat.zero_add, ← Nat.add_assoc] at marked
  obtain ⟨⟨⟨⟨⟨testMarked, _⟩, positiveMarked⟩, otherMarked⟩,
    negativeMarked⟩, doneMarked⟩ := marked
  exact ⟨testMarked, positiveMarked,
    otherMarked (_, _) List.mem_cons_self, negativeMarked,
    doneMarked (_, _) List.mem_cons_self⟩

theorem layout_conditional :
    layout addressOf base
        (conditional test positive negative other done) =
      layout addressOf base test ++
        [{ opcode := .jumpIfZero
           i := addressOf other
           address := base + size test }] ++
        layout addressOf (base + size test + 1) positive ++
        [{ opcode := .jump
           i := addressOf done
           address := base + size test + 1 + size positive }] ++
        layout addressOf (base + size test + 1 + size positive + 1)
          negative := by
  have jumpIfZeroReal : Opcode.jumpIfZero.isLabel = false := rfl
  have jumpReal : Opcode.jump.isLabel = false := rfl
  simp only [conditional, layout_append, layout_branch jumpIfZeroReal,
    layout_branch jumpReal, layout_marker, layout_nil, List.append_nil,
    size_append, size_branch, size_marker, size_nil, Nat.zero_add,
    ← Nat.add_assoc]

end Conditional

/-- Where exactly the markers have labels, the layout is numbered without
gaps. -/
theorem layout_addresses (base : Nat) {code : List Symbol}
    (agree : ∀ instruction ∈ code.map (resolve addressOf),
      instruction.isLabel = instruction.label?.isSome) :
    (layout addressOf base code).map Instruction.address =
      List.range' base (size code) := by
  rw [layout, Instruction.place_addresses base agree, span_resolve]

end Symbol

/-! ## The generated code is the assembled code -/

theorem Bindings.callee_isLabel (bindings : Bindings) (name : String)
    (types : List ValueType) :
    (bindings.callee name types).1.isLabel = false := by
  rcases bindings.callee_opcode name types with opcode | opcode
  · rw [opcode]
    rfl
  · rw [opcode]
    rfl

namespace Emits

variable {bindings : Bindings} {nodes : List Node} {first last : Nat}
  {code : List Symbol} {addressOf : Nat → Nat} {base : Nat}

theorem length_layout
    (emitted : Emits bindings nodes first code last) :
    (Symbol.layout addressOf base code).length = Symbol.size code := by
  have agree : ∀ instruction ∈ code.map (Symbol.resolve addressOf),
      instruction.isLabel = instruction.label?.isSome := by
    intro instruction member
    obtain ⟨symbol, inCode, rfl⟩ := List.mem_map.mp member
    rw [Symbol.resolve_label?]
    exact (emitted.fits symbol inCode).isLabel_resolve
  have lengths := congrArg List.length
    (Symbol.layout_addresses base agree)
  rwa [List.length_map, List.length_range'] at lengths

theorem layout_append_op
    (emitted : Emits bindings nodes first code last) {opcode : Opcode}
    (real : opcode.isLabel = false) (operand : Nat)
    {generated : List Instruction}
    (equality : Symbol.layout addressOf base code = generated) :
    Symbol.layout addressOf base (code ++ [.op opcode operand]) =
      generated ++
        [{ opcode, i := operand, address := base + generated.length }] := by
  rw [Symbol.layout_append, Symbol.layout_op real, Symbol.layout_nil,
    equality, ← equality, emitted.length_layout]

/-- Where markers have the addresses of their labels, symbolic code is laid
out as it is generated. -/
theorem layout_eq_generateAll
    (emitted : Emits bindings nodes first code last)
    (marked : Symbol.Marked addressOf base code) :
    Symbol.layout addressOf base code =
      Node.generateAll bindings base nodes := by
  induction emitted generalizing base with
  | nil label =>
      rw [Symbol.layout_nil, Node.generateAll]
  | cons head tail headEq tailEq =>
      rw [Symbol.marked_append] at marked
      have headGenerated := headEq marked.1
      rw [Node.generateAll_singleton] at headGenerated
      rw [Symbol.layout_append, tailEq marked.2, headGenerated,
        Node.generateAll, ← headGenerated, head.length_layout]
  | block _ statementsEq =>
      rw [Node.generateAll_singleton, Node.generate]
      exact statementsEq marked
  | declare type name label =>
      rw [Symbol.layout_nil, Node.generateAll_singleton, Node.generate]
  | define type _ value valueEq =>
      rw [Symbol.marked_append] at marked
      have generated := valueEq marked.1
      rw [Node.generateAll_singleton] at generated
      rw [Node.generateAll_singleton, Node.generate]
      exact value.layout_append_op rfl _ generated
  | assign _ value valueEq =>
      rw [Symbol.marked_append] at marked
      have generated := valueEq marked.1
      rw [Node.generateAll_singleton] at generated
      rw [Node.generateAll_singleton, Node.generate]
      exact value.layout_append_op rfl _ generated
  | @call name args types _ _ _ typed _ arguments argumentsEq =>
      rw [Symbol.marked_append] at marked
      rw [Node.generateAll_singleton, Node.generate,
        Node.filterMap_staticType? typed]
      exact arguments.layout_append_op
        (bindings.callee_isLabel name types) _ (argumentsEq marked.1)
  | literal label _ =>
      rw [Symbol.layout_op rfl, Symbol.layout_nil,
        Node.generateAll_singleton, Node.generate]
  | var label _ =>
      rw [Symbol.layout_op rfl, Symbol.layout_nil,
        Node.generateAll_singleton, Node.generate]
  | equal left right leftEq rightEq =>
      rw [Symbol.marked_append, Symbol.marked_append] at marked
      have leftGenerated := leftEq marked.1.1
      have rightGenerated := rightEq marked.1.2
      rw [Node.generateAll_singleton] at leftGenerated rightGenerated
      rw [Symbol.layout_append, Symbol.layout_append,
        Symbol.layout_op rfl, Symbol.layout_nil,
        Node.generateAll_singleton, Node.generate, leftGenerated,
        rightGenerated, ← leftGenerated, left.length_layout,
        ← rightGenerated, right.length_layout, Symbol.size_append,
        Nat.add_assoc]
  | branch test positive negative testEq positiveEq negativeEq =>
      obtain ⟨testMarked, positiveMarked, otherAddress, negativeMarked,
        doneAddress⟩ := Symbol.marked_conditional marked
      have testGenerated := testEq testMarked
      have positiveGenerated := positiveEq positiveMarked
      have negativeGenerated := negativeEq negativeMarked
      rw [Node.generateAll_singleton] at testGenerated positiveGenerated
      rw [Node.generateAll_toList] at negativeGenerated
      -- Sizes count symbols; generation goes by the lengths of its parts.
      have testLength := testGenerated ▸ test.length_layout
      have positiveLength := positiveGenerated ▸ positive.length_layout
      have negativeLength := negativeGenerated ▸ negative.length_layout
      rw [Symbol.layout_conditional, otherAddress, doneAddress,
        Node.generateAll_singleton, Node.generate]
      simp only [testGenerated, positiveGenerated, negativeGenerated,
        testLength, positiveLength, negativeLength]

end Emits

/-! ## Methods -/

def Method.operations (method : Method) : List Instruction :=
  method.code.filter Instruction.isOperation

theorem Method.size_eq_length (method : Method) :
    method.size = method.operations.length := by
  rw [Method.operations, ← List.countP_eq_length_filter]
  exact Array.countP_toList.symm

namespace Piece

variable {catalog : Catalog} {program : Program}
  {addressOf : Nat → Nat} {base : Nat} {piece : Piece}
  {method : Method}

theorem Becomes.operations_eq_layout
    (becomes : piece.Becomes catalog program addressOf base method) :
    method.operations = Symbol.layout addressOf base piece.code := by
  rw [Method.operations, becomes.code]
  rfl

/-- Without its markers, a method is its body and the way out. -/
theorem Becomes.operations_eq
    (becomes : piece.Becomes catalog program addressOf base method) :
    method.operations =
      let body := piece.declaration.body.generate
        (program.bindings catalog method) base
      body ++ [{ opcode := .ret, address := base + body.length }] := by
  obtain ⟨body, first, last, emitted, codeEq, marked⟩ := becomes.code_eq
  have generated := emitted.layout_eq_generateAll marked
  rw [Node.generateAll_singleton] at generated
  rw [becomes.operations_eq_layout, codeEq, Symbol.layout_append,
    Symbol.layout_markers, List.nil_append, Symbol.size_markers,
    Nat.add_zero]
  exact emitted.layout_append_op rfl 0 generated

/-- The return at the end of a method lies behind its body. -/
theorem Becomes.getLast?_code
    (becomes : piece.Becomes catalog program addressOf base method) :
    method.code.getLast? =
      some
        { opcode := .ret
          address := base +
            (piece.declaration.body.generate
              (program.bindings catalog method) base).length } := by
  obtain ⟨body, first, last, emitted, codeEq, marked⟩ :=
    becomes.method_code
  have generated := emitted.layout_eq_generateAll marked
  rw [Node.generateAll_singleton] at generated
  rw [codeEq, List.getLast?_concat, ← generated, emitted.length_layout]

theorem Becomes.operations_addresses
    (becomes : piece.Becomes catalog program addressOf base method) :
    method.operations.map Instruction.address =
      List.range' base method.operations.length := by
  have addresses : method.operations.map Instruction.address =
      List.range' base (Symbol.size piece.code) := by
    rw [becomes.operations_eq_layout]
    exact Symbol.layout_addresses base becomes.isLabel_eq
  have lengths := congrArg List.length addresses
  rw [List.length_map, List.length_range'] at lengths
  rw [addresses, lengths]

end Piece

/-- Every method of an assembled program is, without its markers, what direct
generation gives for its declaration, followed by one return. -/
theorem Program.methods_eq_generated {catalog : Catalog}
    {nodes : List Node} {program : Program}
    (assembled : assemble catalog nodes = .ok program) :
    List.Forall₂
      (fun declaration method =>
        let body := declaration.body.generate
          (program.bindings catalog method) method.address
        method.name = declaration.name ∧
          method.operations =
            body ++
              [{ opcode := .ret
                 address := method.address + body.length }] ∧
          method.operations.map Instruction.address =
            List.range' method.address (body.length + 1))
      (Declaration.all nodes) program.methods := by
  obtain ⟨procs, triggers, addressOf, linked⟩ := assemble_linked assembled
  apply linked.forall₂
  intro piece method base _ becomes
  have operations := becomes.operations_eq
  have addresses := becomes.operations_addresses
  rw [← becomes.address_eq] at operations addresses
  refine ⟨becomes.name, operations, ?_⟩
  rw [addresses, operations, List.length_append, List.length_singleton]

theorem methods_eq_generated_door :
    Program.assemble doorCatalog doorScript = .ok doorProgram ∧
      List.Forall₂
        (fun declaration method =>
          let body := declaration.body.generate
            (doorProgram.bindings doorCatalog method) method.address
          method.name = declaration.name ∧
            method.operations =
              body ++
                [{ opcode := .ret
                   address := method.address + body.length }] ∧
            method.operations.map Instruction.address =
              List.range' method.address (body.length + 1))
        (Declaration.all doorScript) doorProgram.methods :=
  ⟨assemble_door, Program.methods_eq_generated assemble_door⟩

end TriggerScript
