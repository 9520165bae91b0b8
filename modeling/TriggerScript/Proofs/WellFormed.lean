import TriggerScript.Proofs.Generator

/-!
# Well-formed programs

What a machine may rely on when it runs an assembled program: tables are
numbered by place, every operand names something that exists, branches lead
forward and stay in their method, and the only way out of a method is the
return at its end.
-/

namespace TriggerScript

/-! ## Definitions -/

/-- An instruction whose operands mean something in a method that ends at the
address `exit`. -/
def Instruction.WellFormed (catalog : Catalog) (program : Program)
    (method : Method) (exit : Nat) (instruction : Instruction) : Prop :=
  instruction.l = 0 ∧ instruction.s = 0 ∧
    match instruction.opcode with
    | .pushConst => instruction.i < program.constants.length
    | .getVariable | .setVariable => instruction.i < method.locals.length
    | .call => instruction.i < program.methods.length
    | .callNative =>
        ∃ native ∈ catalog.functions, native.id.toNat = instruction.i
    | .jump | .jumpIfZero =>
        instruction.address < instruction.i ∧ instruction.i ≤ exit
    | .getLocal | .setLocal => False
    | .equal | .ret | .label => True

structure Method.WellFormed (catalog : Catalog) (program : Program)
    (declaration : Declaration) (method : Method) : Prop where
  numbered : method.locals.map Variable.index =
    List.range method.locals.length
  distinct : (method.locals.map Variable.name).Nodup
  params : method.params = List.range declaration.params.length
  entry : ∃ first, method.code.head? = some first ∧
    first.opcode = .label ∧ first.label? = some method.entry
  once : (method.code.map Instruction.opcode).count .ret = 1
  operands : ∃ exit, method.code.getLast? = some exit ∧
    exit.opcode = .ret ∧
      ∀ instruction ∈ method.code,
        instruction.WellFormed catalog program method exit.address

/-! ## Branches -/

theorem Bindings.callee_isBranch (bindings : Bindings) (name : String)
    (types : List ValueType) :
    (bindings.callee name types).1.isBranch = false := by
  rcases bindings.callee_opcode name types with opcode | opcode
  · rw [opcode]
    rfl
  · rw [opcode]
    rfl

/-- A branch goes forward, and not behind `exit`. -/
def Instruction.LeadsTo (exit : Nat) (instruction : Instruction) : Prop :=
  instruction.opcode.isBranch = true →
    instruction.address < instruction.i ∧ instruction.i ≤ exit

theorem Instruction.leadsTo_of_not_isBranch {exit : Nat}
    {instruction : Instruction}
    (plain : instruction.opcode.isBranch = false) :
    instruction.LeadsTo exit := by
  intro isBranch
  rw [plain] at isBranch
  cases isBranch

theorem Instruction.leadsTo_append {exit : Nat}
    {code : List Instruction} {operation : Instruction}
    (inCode : ∀ instruction ∈ code, instruction.LeadsTo exit)
    (plain : operation.opcode.isBranch = false) :
    ∀ instruction ∈ code ++ [operation], instruction.LeadsTo exit := by
  intro instruction member
  rcases List.mem_append.mp member with before | isOperation
  · exact inCode instruction before
  · rw [List.mem_singleton.mp isOperation]
    exact leadsTo_of_not_isBranch plain

/-- Branches stay in the code that was generated for their tree. -/
theorem Emits.generateAll_leadsTo {bindings : Bindings}
    {nodes : List Node} {first last : Nat} {code : List Symbol}
    (emitted : Emits bindings nodes first code last) {base exit : Nat}
    (bound : base + (Node.generateAll bindings base nodes).length ≤
      exit) :
    ∀ instruction ∈ Node.generateAll bindings base nodes,
      instruction.LeadsTo exit := by
  induction emitted generalizing base with
  | nil label =>
      simp [Node.generateAll]
  | declare type name label =>
      simp [Node.generateAll_singleton, Node.generate]
  | literal label _ =>
      rw [Node.generateAll_singleton, Node.generate]
      intro instruction member
      rw [List.mem_singleton.mp member]
      exact Instruction.leadsTo_of_not_isBranch rfl
  | var label _ =>
      rw [Node.generateAll_singleton, Node.generate]
      intro instruction member
      rw [List.mem_singleton.mp member]
      exact Instruction.leadsTo_of_not_isBranch rfl
  | block _ statements =>
      rw [Node.generateAll_singleton, Node.generate] at bound ⊢
      exact statements bound
  | cons _ _ head tail =>
      simp only [Node.generateAll_singleton] at head
      rw [Node.generateAll] at bound ⊢
      rw [List.length_append] at bound
      intro instruction member
      rcases List.mem_append.mp member with inHead | inTail
      · exact head (by omega) instruction inHead
      · exact tail (by omega) instruction inTail
  | define type _ _ value =>
      simp only [Node.generateAll_singleton] at value
      rw [Node.generateAll_singleton, Node.generate] at bound ⊢
      rw [List.length_append] at bound
      exact Instruction.leadsTo_append (value (by omega)) rfl
  | assign _ _ value =>
      simp only [Node.generateAll_singleton] at value
      rw [Node.generateAll_singleton, Node.generate] at bound ⊢
      rw [List.length_append] at bound
      exact Instruction.leadsTo_append (value (by omega)) rfl
  | call _ _ _ arguments =>
      rw [Node.generateAll_singleton, Node.generate] at bound ⊢
      rw [List.length_append] at bound
      exact Instruction.leadsTo_append (arguments (by omega))
        (bindings.callee_isBranch _ _)
  | equal _ _ left right =>
      simp only [Node.generateAll_singleton] at left right
      rw [Node.generateAll_singleton, Node.generate] at bound ⊢
      rw [List.length_append, List.length_append] at bound
      refine Instruction.leadsTo_append ?_ rfl
      intro instruction member
      rcases List.mem_append.mp member with inLeft | inRight
      · exact left (by omega) instruction inLeft
      · exact right (by omega) instruction inRight
  | branch _ _ _ test positive negative =>
      simp only [Node.generateAll_singleton] at test positive
      simp only [Node.generateAll_toList] at negative
      rw [Node.generateAll_singleton, Node.generate] at bound ⊢
      simp only [List.length_append, List.length_singleton] at bound
      intro instruction member
      simp only [List.mem_append, List.mem_singleton] at member
      rcases member with
        (((inTest | isTest) | inPositive) | isJump) | inNegative
      · exact test (by omega) instruction inTest
      · rw [isTest]
        intro _
        dsimp only
        omega
      · exact positive (by omega) instruction inPositive
      · rw [isJump]
        intro _
        dsimp only
        omega
      · exact negative (by omega) instruction inNegative

/-! ## Methods -/

/-- What fits into a body is well-formed once its branches are. -/
theorem Symbol.Fits.wellFormed {catalog : Catalog} {program : Program}
    {method : Method} {symbol : Symbol}
    (fits : symbol.Fits (program.bindings catalog method))
    {addressOf : Nat → Nat} {exit address : Nat}
    (leads : Instruction.LeadsTo exit
      { symbol.resolve addressOf with address }) :
    Instruction.WellFormed catalog program method exit
      { symbol.resolve addressOf with address } := by
  cases symbol with
  | marker label =>
      exact ⟨rfl, rfl, trivial⟩
  | op opcode operand =>
      refine ⟨rfl, rfl, ?_⟩
      cases opcode with
      | pushConst | callNative | equal =>
          exact fits
      | getVariable | setVariable =>
          have bound : operand < method.localNames.length := fits
          rw [Method.localNames, List.length_map] at bound
          exact bound
      | call =>
          have bound : operand <
              (program.methods.map Method.name).length := fits
          rw [List.length_map] at bound
          exact bound
      | jump | getLocal | setLocal | ret | jumpIfZero | label =>
          exact False.elim fits
  | branch opcode target =>
      refine ⟨rfl, rfl, ?_⟩
      cases opcode with
      | jump | jumpIfZero =>
          exact leads rfl
      | pushConst | getLocal | setLocal | ret | equal | call
      | callNative | getVariable | setVariable | label =>
          cases fits

theorem Symbol.Fits.opcode_ne_ret {bindings : Bindings} {symbol : Symbol}
    (fits : symbol.Fits bindings) (addressOf : Nat → Nat) :
    (symbol.resolve addressOf).opcode ≠ .ret := by
  intro isReturn
  cases symbol with
  | marker label =>
      cases isReturn
  | op opcode operand =>
      cases (isReturn : opcode = .ret)
      exact fits
  | branch opcode target =>
      cases (isReturn : opcode = .ret)
      cases fits

theorem Instruction.isOperation_of_isBranch {instruction : Instruction}
    (isBranch : instruction.opcode.isBranch = true) :
    instruction.isOperation = true := by
  rw [isOperation, isLabel]
  cases opcodeEq : instruction.opcode with
  | label =>
      rw [opcodeEq] at isBranch
      cases isBranch
  | pushConst | jump | getLocal | setLocal | ret | jumpIfZero | equal
  | call | callNative | getVariable | setVariable =>
      rfl

theorem Symbol.mem_place {addressOf : Nat → Nat} {base : Nat}
    {code : List Symbol} {instruction : Instruction}
    (member : instruction ∈
      (Instruction.place base (code.map (resolve addressOf))).1) :
    ∃ symbol ∈ code, instruction =
      { symbol.resolve addressOf with address := instruction.address } := by
  obtain ⟨original, inCode, equality⟩ := Instruction.mem_place member
  obtain ⟨symbol, isSymbol, rfl⟩ := List.mem_map.mp inCode
  exact ⟨symbol, isSymbol, equality⟩

namespace Piece.Becomes

variable {catalog : Catalog} {program : Program}
  {addressOf : Nat → Nat} {base : Nat} {piece : Piece}
  {method : Method}

/-- The only return is the one at the end. -/
theorem count_ret
    (becomes : piece.Becomes catalog program addressOf base method) :
    (method.code.map Instruction.opcode).count .ret = 1 := by
  obtain ⟨body, first, last, emitted, codeEq, _⟩ := becomes.method_code
  rw [codeEq, List.map_append, List.map_append, List.count_append,
    List.count_append]
  have inMarkers :
      (((method.entry :: piece.alias?.toList).map fun label =>
        { Instruction.marker label with address := base }).map
          Instruction.opcode).count .ret = 0 := by
    rw [List.count_eq_zero, List.map_map]
    intro member
    obtain ⟨label, _, isReturn⟩ := List.mem_map.mp member
    cases isReturn
  have inBody :
      ((Instruction.place base
        (body.map (Symbol.resolve addressOf))).1.map
          Instruction.opcode).count .ret = 0 := by
    rw [List.count_eq_zero]
    intro member
    obtain ⟨instruction, inCode, isReturn⟩ := List.mem_map.mp member
    obtain ⟨symbol, isSymbol, equality⟩ := Symbol.mem_place inCode
    rw [equality] at isReturn
    exact (emitted.fits symbol isSymbol).opcode_ne_ret addressOf
      isReturn
  rw [inMarkers, inBody]
  rfl

theorem operands
    (becomes : piece.Becomes catalog program addressOf base method) :
    ∃ exit, method.code.getLast? = some exit ∧
      exit.opcode = .ret ∧
        ∀ instruction ∈ method.code,
          instruction.WellFormed catalog program method exit.address := by
  obtain ⟨body, first, last, emitted, codeEq, marked⟩ :=
    becomes.method_code
  have generated := emitted.layout_eq_generateAll marked
  have leads := emitted.generateAll_leadsTo (Nat.le_refl (base + _))
  rw [Node.generateAll_singleton] at generated leads
  refine ⟨_, becomes.getLast?_code, rfl, ?_⟩
  intro instruction member
  rw [codeEq, List.mem_append, List.mem_append] at member
  rcases member with (isMarker | inBody) | isReturn
  · obtain ⟨label, _, rfl⟩ := List.mem_map.mp isMarker
    exact ⟨rfl, rfl, trivial⟩
  · have leadsTo : instruction.LeadsTo
        (base + (piece.declaration.body.generate
          (program.bindings catalog method) base).length) := by
      intro isBranch
      -- Markers aside, the code of the body is the generated code.
      have operates := Instruction.isOperation_of_isBranch isBranch
      have inGenerated : instruction ∈
          piece.declaration.body.generate
            (program.bindings catalog method) base := by
        rw [← generated]
        exact List.mem_filter.mpr ⟨inBody, operates⟩
      exact leads instruction inGenerated isBranch
    obtain ⟨symbol, isSymbol, equality⟩ := Symbol.mem_place inBody
    rw [equality] at leadsTo ⊢
    exact (emitted.fits symbol isSymbol).wellFormed leadsTo
  · rw [List.mem_singleton.mp isReturn]
    exact ⟨rfl, rfl, trivial⟩

theorem wellFormed
    (becomes : piece.Becomes catalog program addressOf base method) :
    method.WellFormed catalog program piece.declaration where
  numbered := becomes.numbered.index
  distinct := becomes.numbered.distinct
  params := becomes.params
  entry := by
    obtain ⟨body, first, last, _, codeEq, _⟩ := becomes.method_code
    rw [codeEq]
    exact ⟨_, rfl, rfl, rfl⟩
  once := becomes.count_ret
  operands := becomes.operands

end Piece.Becomes

theorem Program.assemble_wellFormed {catalog : Catalog}
    {nodes : List Node} {program : Program}
    (assembled : assemble catalog nodes = .ok program) :
    program.methods.map Method.index =
        List.range program.methods.length ∧
      List.Forall₂
        (fun declaration method =>
          method.WellFormed catalog program declaration)
        (Declaration.all nodes) program.methods := by
  obtain ⟨procs, triggers, addressOf, linked⟩ := assemble_linked assembled
  refine ⟨linked.indexed, linked.forall₂ ?_⟩
  intro piece method base _ becomes
  exact becomes.wellFormed

theorem assemble_wellFormed_door :
    Program.assemble doorCatalog doorScript = .ok doorProgram ∧
      doorProgram.methods.map Method.index =
        List.range doorProgram.methods.length ∧
      List.Forall₂
        (fun declaration method =>
          method.WellFormed doorCatalog doorProgram declaration)
        (Declaration.all doorScript) doorProgram.methods :=
  ⟨assemble_door, Program.assemble_wellFormed assemble_door⟩

end TriggerScript
