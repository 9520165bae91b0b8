import TriggerScript.Proofs.Generator

/-!
# The address space of a program

Read in the order of the methods, the operations of a program have the
addresses `0`, `1`, `2` and so on.  A label marker shares the address of the
next operation, which exists because every method ends with one.  A method
begins at its first operation, and a trigger at its method.
-/

namespace TriggerScript

/-! ## Placed code -/

namespace Instruction

/-- A label marker with an operation behind it has the address of the first
such operation. -/
theorem address_eq_of_find? {base : Nat}
    {code before after : List Instruction}
    {instruction next : Instruction}
    (split : (place base code).1 = before ++ instruction :: after)
    (agree : ∀ other ∈ (place base code).1,
      other.isLabel = other.label?.isSome)
    (marks : instruction.isLabel = true)
    (found : after.find? isOperation = some next) :
    instruction.address = next.address := by
  obtain ⟨isOperation, between, rest, rfl, skipped⟩ :=
    List.find?_eq_some_iff_append.mp found
  have longer : (place base code).1 =
      (before ++ instruction :: between) ++ next :: rest := by
    rw [split, List.append_assoc, List.cons_append]
  -- Nothing from the marker up to the operation takes an address.
  have noneBetween : span (instruction :: between) = 0 := by
    rw [span_eq_countP, List.countP_eq_zero]
    · intro other member
      rcases List.mem_cons.mp member with rfl | inBetween
      · simp [Instruction.isOperation, marks]
      · simpa using skipped other inBetween
    · intro other member
      apply agree
      rw [longer]
      exact List.mem_append_left _ (List.mem_append_right _ member)
  rw [address_of_place_eq split, address_of_place_eq longer, span_append,
    noneBetween, Nat.add_zero]

end Instruction

/-! ## Methods -/

namespace Piece.Becomes

variable {catalog : Catalog} {program : Program}
  {addressOf : Nat → Nat} {base : Nat} {piece : Piece}
  {method : Method}

/-- A method begins at its first operation. -/
theorem find?_isOperation
    (becomes : piece.Becomes catalog program addressOf base method) :
    ∃ first,
      method.code.find? Instruction.isOperation = some first ∧
        method.address = first.address := by
  have addresses := becomes.operations_addresses
  rw [← List.head?_filter]
  change ∃ first, method.operations.head? = some first ∧ _
  cases operations : method.operations with
  | nil =>
      have nonempty := becomes.operations_eq
      rw [operations] at nonempty
      exact absurd nonempty.symm (List.append_ne_nil_of_right_ne_nil _
        (List.cons_ne_nil _ _))
  | cons first rest =>
      rw [operations, List.length_cons, List.map_cons,
        List.range'_succ] at addresses
      have firstAddress : first.address = base :=
        (List.cons.inj addresses).1
      exact ⟨first, rfl, by rw [firstAddress, becomes.address_eq]⟩

/-- The alias of a method is marked at its start. -/
theorem alias_spec
    (becomes : piece.Becomes catalog program addressOf base method)
    {label : Nat} (aliased : piece.alias? = some label) :
    some label ∈ method.code.map Instruction.label? ∧
      addressOf label = method.address := by
  have inCode : Symbol.marker label ∈ piece.code := by
    rw [Piece.code, aliased]
    exact List.mem_cons_of_mem _ List.mem_cons_self
  constructor
  · rw [becomes.code, Instruction.place_map_labels, List.map_map]
    exact List.mem_map.mpr ⟨.marker label, inCode, rfl⟩
  · rw [becomes.address_eq]
    apply becomes.marked (label, base)
    rw [Piece.code, aliased]
    exact List.mem_cons_of_mem _ List.mem_cons_self

end Piece.Becomes

/-! ## Linked programs -/

def Program.code (program : Program) : List Instruction :=
  program.methods.flatMap Method.code

theorem Program.length_eq_countP (program : Program) :
    program.length = program.code.countP Instruction.isOperation := by
  rw [Program.length, Program.code]
  induction program.methods with
  | nil =>
      rfl
  | cons method methods inductionHypothesis =>
      rw [List.foldr_cons, inductionHypothesis, List.flatMap_cons,
        List.countP_append, method.size_eq_length, Method.operations,
        ← List.countP_eq_length_filter]

namespace Linked

variable {catalog : Catalog} {nodes : List Node} {program : Program}
  {procs triggers : List Piece} {addressOf : Nat → Nat}

theorem isLabel_resolve
    (linked : Linked catalog nodes program procs triggers addressOf) :
    ∀ instruction ∈ ((procs ++ triggers).flatMap Piece.code).map
        (Symbol.resolve addressOf),
      instruction.isLabel = instruction.label?.isSome := by
  intro instruction member
  obtain ⟨symbol, inCode, rfl⟩ := List.mem_map.mp member
  obtain ⟨piece, inPieces, inPiece⟩ := List.mem_flatMap.mp inCode
  obtain ⟨method, base, becomes⟩ := linked.exists_becomes inPieces
  exact becomes.isLabel_eq _ (List.mem_map_of_mem inPiece)

/-- In a program exactly the label markers have labels. -/
theorem isLabel_code
    (linked : Linked catalog nodes program procs triggers addressOf) :
    ∀ instruction ∈ program.code,
      instruction.isLabel = instruction.label?.isSome := by
  intro instruction member
  rw [Program.code, linked.flat] at member
  obtain ⟨original, inCode, equality⟩ := Instruction.mem_place member
  rw [equality]
  exact linked.isLabel_resolve original inCode

theorem length_eq_size
    (linked : Linked catalog nodes program procs triggers addressOf) :
    program.length =
      Symbol.size ((procs ++ triggers).flatMap Piece.code) := by
  rw [program.length_eq_countP,
    ← Instruction.span_eq_countP linked.isLabel_code, Program.code,
    linked.flat, Instruction.span_place, Symbol.span_resolve]

/-- A program does not end with a label marker. -/
theorem isOperation_of_getLast?
    (linked : Linked catalog nodes program procs triggers addressOf)
    {last : Instruction} (isLast : program.code.getLast? = some last) :
    last.isOperation = true := by
  rcases List.eq_nil_or_concat' program.methods with
    empty | ⟨methods, method, split⟩
  · rw [Program.code, empty] at isLast
    cases isLast
  · have member : method ∈ program.methods := by
      rw [split]
      exact List.mem_concat_self
    obtain ⟨piece, base, becomes⟩ := linked.becomes_of_mem member
    obtain ⟨body, _, _, _, codeEq, _⟩ := becomes.method_code
    rw [Program.code, split, List.flatMap_append, List.flatMap_singleton,
      codeEq, ← List.append_assoc, List.getLast?_concat] at isLast
    cases isLast
    rfl

/-- Behind every label marker there is an operation. -/
theorem find?_isOperation
    (linked : Linked catalog nodes program procs triggers addressOf)
    {before after : List Instruction} {instruction : Instruction}
    (split : program.code = before ++ instruction :: after)
    (marks : instruction.isLabel = true) :
    ∃ next, after.find? Instruction.isOperation = some next := by
  rcases List.eq_nil_or_concat' after with empty | ⟨rest, last, concat⟩
  · have isLast : program.code.getLast? = some instruction := by
      rw [split, empty, List.getLast?_concat]
    have operates := linked.isOperation_of_getLast? isLast
    rw [Instruction.isOperation, marks] at operates
    cases operates
  · have isLast : program.code.getLast? = some last := by
      rw [split, concat, ← List.cons_append, ← List.append_assoc,
        List.getLast?_concat]
    have operates := linked.isOperation_of_getLast? isLast
    apply Option.isSome_iff_exists.mp
    rw [List.find?_isSome, concat]
    exact ⟨last, List.mem_concat_self, operates⟩

/-- A method begins behind the methods before it. -/
theorem address_eq
    (linked : Linked catalog nodes program procs triggers addressOf)
    {index : Nat} (bound : index < program.methods.length) :
    program.methods[index].address =
      Symbol.size (((procs ++ triggers).take index).flatMap
        Piece.code) := by
  have pieceBound : index < (procs ++ triggers).length := by
    rw [← linked.length]
    exact bound
  have becomes := linked.becomes index _ _
    (List.getElem?_eq_getElem pieceBound)
    (List.getElem?_eq_getElem bound)
  exact becomes.address_eq

theorem addresses_increasing
    (linked : Linked catalog nodes program procs triggers addressOf) :
    (program.methods.map Method.address).Pairwise (· < ·) := by
  rw [← List.isChain_iff_pairwise, List.isChain_iff_getElem]
  intro index bound
  rw [List.length_map] at bound
  have pieceBound : index < (procs ++ triggers).length := by
    rw [← linked.length]
    exact Nat.lt_of_succ_lt bound
  rw [List.getElem_map, List.getElem_map, linked.address_eq,
    linked.address_eq, List.take_succ_eq_append_getElem pieceBound,
    List.flatMap_append, List.flatMap_singleton, Symbol.size_append]
  -- Every method takes at least the address of its return.
  obtain ⟨method, base, becomes⟩ :=
    linked.exists_becomes (List.getElem_mem pieceBound)
  obtain ⟨body, _, _, _, codeEq, _⟩ := becomes.code_eq
  rw [codeEq, Symbol.size_append, Symbol.size_append, Symbol.size_op]
  omega

end Linked

/-! ## Assembled programs -/

namespace Program

/-- How the code of a program lies in its address space. -/
structure LaidOut (program : Program) : Prop where
  operation : ∀ before instruction after,
    program.code = before ++ instruction :: after →
    instruction.isLabel = false →
      instruction.address = before.countP Instruction.isOperation
  addresses :
    (program.code.filter Instruction.isOperation).map
        Instruction.address =
      List.range program.length
  marker : ∀ before instruction after,
    program.code = before ++ instruction :: after →
    instruction.isLabel = true →
      ∃ next,
        after.find? Instruction.isOperation = some next ∧
          instruction.address = next.address
  labelled : ∀ instruction ∈ program.code,
    instruction.label?.isSome ↔ instruction.opcode = .label
  start : ∀ method ∈ program.methods,
    ∃ first,
      method.code.find? Instruction.isOperation = some first ∧
        method.address = first.address
  increasing : (program.methods.map Method.address).Pairwise (· < ·)

/-- Every trigger of a script is entered at the start of the method that was
made for it. -/
structure Enters (nodes : List Node) (program : Program) : Prop where
  length : program.triggers.length =
    (Declaration.triggers 0 nodes).length
  address : ∀ number declaration,
    (Declaration.triggers 0 nodes)[number]? = some declaration →
      ∃ row method,
        program.triggers[number]? = some row ∧
          program.methods[(Declaration.procs nodes).length + number]? =
            some method ∧
          method.name = declaration.name ∧
          declaration.trigger?.map Prod.fst = some row.event ∧
          some row.entry ∈ method.code.map Instruction.label? ∧
          row.address = method.address

end Program

namespace Linked

variable {catalog : Catalog} {nodes : List Node} {program : Program}
  {procs triggers : List Piece} {addressOf : Nat → Nat}

theorem laidOut
    (linked : Linked catalog nodes program procs triggers addressOf) :
    program.LaidOut where
  operation := by
    intro before instruction after split _
    have placed := split
    rw [Program.code, linked.flat] at placed
    rw [Instruction.address_of_place_eq placed, Nat.zero_add,
      Instruction.span_eq_countP]
    intro other member
    apply linked.isLabel_code
    rw [split]
    exact List.mem_append_left _ member
  addresses := by
    rw [Program.code, linked.flat,
      Instruction.place_addresses 0 linked.isLabel_resolve,
      Symbol.span_resolve, linked.length_eq_size, List.range_eq_range']
  marker := by
    intro before instruction after split marks
    obtain ⟨next, found⟩ := linked.find?_isOperation split marks
    have agree := linked.isLabel_code
    rw [Program.code, linked.flat] at split agree
    exact ⟨next, found,
      Instruction.address_eq_of_find? split agree marks found⟩
  labelled := by
    intro instruction member
    rw [← linked.isLabel_code instruction member, Instruction.isLabel]
    cases instruction.opcode <;> simp [Opcode.isLabel]
  start := by
    intro method member
    obtain ⟨piece, base, becomes⟩ := linked.becomes_of_mem member
    exact becomes.find?_isOperation
  increasing := linked.addresses_increasing

theorem enters
    (linked : Linked catalog nodes program procs triggers addressOf) :
    program.Enters nodes where
  length := by
    rw [← linked.rows.length_eq, ← linked.ofTriggers, List.length_map]
  address := by
    intro number declaration declared
    rw [← linked.ofTriggers, List.getElem?_map] at declared
    obtain ⟨piece, pieceAt, rfl⟩ := Option.map_eq_some_iff.mp declared
    obtain ⟨pieceBound, pieceEq⟩ := List.getElem?_eq_some_iff.mp pieceAt
    have rowBound : number < program.triggers.length := by
      rw [← linked.rows.length_eq]
      exact pieceBound
    obtain ⟨registered, rowAddress⟩ := linked.rows.get pieceBound rowBound
    simp only [List.get_eq_getElem, pieceEq] at registered rowAddress
    -- The methods of the triggers stand behind those of the procedures.
    have placeEq : (procs ++ triggers)[procs.length + number]? =
        some piece := by
      rw [List.getElem?_append_right (Nat.le_add_right _ _),
        Nat.add_sub_cancel_left, pieceAt]
    have methodBound :
        procs.length + number < program.methods.length := by
      rw [linked.length, List.length_append]
      exact Nat.add_lt_add_left pieceBound _
    have becomes := linked.becomes _ piece _ placeEq
      (List.getElem?_eq_getElem methodBound)
    have lengths : (Declaration.procs nodes).length = procs.length := by
      rw [← linked.ofProcs, List.length_map]
    obtain ⟨filter, listener, source, _⟩ := registered.source
    obtain ⟨marked, entered⟩ := becomes.alias_spec registered.entry
    refine ⟨program.triggers[number], _, List.getElem?_eq_getElem rowBound,
      ?_, becomes.name, ?_, marked, rowAddress.trans entered⟩
    · rw [lengths]
      exact List.getElem?_eq_getElem methodBound
    · rw [source]
      rfl

end Linked

/-- Every assembled program is laid out without gaps, the log ends with its
length, and its triggers are entered at the start of their methods. -/
theorem Program.assemble_laidOut {catalog : Catalog} {nodes : List Node}
    {program : Program}
    (assembled : assemble catalog nodes = .ok program) :
    program.LaidOut ∧
      (assembleLogged catalog nodes).2.back? =
        some (.addressesAssigned program.methods.length
          program.length) ∧
      program.Enters nodes := by
  obtain ⟨procs, triggers, addressOf, linked⟩ := assemble_linked assembled
  refine ⟨linked.laidOut, ?_, linked.enters⟩
  rw [linked.counted, linked.length_eq_size]

theorem assemble_laidOut_door :
    Program.assemble doorCatalog doorScript = .ok doorProgram ∧
      doorProgram.length = 20 ∧
      doorProgram.LaidOut ∧
      (Program.assembleLogged doorCatalog doorScript).2.back? =
        some (.addressesAssigned 2 20) ∧
      doorProgram.Enters doorScript :=
  ⟨assemble_door, by decide, Program.assemble_laidOut assemble_door⟩

end TriggerScript
