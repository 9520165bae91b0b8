import TriggerScript.Proofs.AddressLayout
import TriggerScript.Proofs.NamedCode

/-!
# Programs of scripts

Every method of an assembled program is known from the script: its name, its
number, its parameters and variables, the address at which it begins, the labels
it marks and, instruction by instruction, its code.  The rows of the trigger
table follow from the triggers and the methods made for them.
-/

namespace TriggerScript

/-! ## What declarations yield -/

/-- The variables with the given names and types, numbered in order. -/
def Variable.number (signature : List (String × ValueType)) :
    List Variable :=
  signature.mapIdx fun index known => ⟨known.1, index, known.2⟩

namespace Declaration

def size (declaration : Declaration) : Nat :=
  Node.operationCount declaration.body.subtrees + 1

/-- The code of a declaration: one marker, or two for a trigger, then the body
and a return. -/
def namedCode (base : Nat) (declaration : Declaration) :
    List (Nat × NamedInstruction) :=
  List.replicate (if declaration.trigger?.isSome then 2 else 1)
      (base, .marker) ++
    declaration.body.namedCode base ++
    [(base + Node.operationCount declaration.body.subtrees, .ret)]

end Declaration

/-- What the names in a declaration of a script stand for. -/
def Script.bindings (catalog : Catalog) (nodes : List Node)
    (declaration : Declaration) : Bindings where
  catalog := catalog
  methods := (Declaration.all nodes).map Declaration.name
  constants := Script.constants nodes
  locals := declaration.signature.map Prod.fst

/-- The address behind the first declarations of a script. -/
def Script.address (nodes : List Node) (place : Nat) : Nat :=
  ((Declaration.all nodes).take place).foldr
    (fun declaration length => declaration.size + length) 0

def Script.labels (nodes : List Node) (place : Nat) : List Nat :=
  ((records nodes)[place]?.map Record.labels).getD []

/-- The method that the declaration at a place of a script yields. -/
structure Declaration.Yields (catalog : Catalog) (nodes : List Node)
    (place : Nat) (declaration : Declaration) (method : Method) :
    Prop where
  name : method.name = declaration.name
  index : method.index = place
  params : method.params = List.range declaration.params.length
  address : method.address = Script.address nodes place
  locals : method.locals = Variable.number declaration.signature
  labels : method.code.filterMap Instruction.label? =
    Script.labels nodes place
  entry : (Script.labels nodes place).head? = some method.entry
  code : method.code.map Instruction.nameless =
    (declaration.namedCode (Script.address nodes place)).map
      (Script.bindings catalog nodes declaration).instruction

/-- The row of the trigger table for the trigger at a place of a script. -/
structure Declaration.Enters (catalog : Catalog) (nodes : List Node)
    (place : Nat) (declaration : Declaration) (row : TriggerEntry) :
    Prop where
  source : ∃ filter listener,
    declaration.trigger? = some (row.event, filter) ∧
      catalog.listener? row.event = some listener ∧
      row.listenerId = listener.id ∧
      TriggerEntry.readFilter filter = .ok row.filter
  entry : (Script.labels nodes place)[1]? = some row.entry
  address : row.address = Script.address nodes place

theorem forall₂_of_getElem? {α β : Type} {related : α → β → Prop}
    {left : List α} {right : List β} (lengths : left.length = right.length)
    (each : ∀ (place : Nat) (first : α) (second : β),
      left[place]? = some first → right[place]? = some second →
        related first second) :
    List.Forall₂ related left right := by
  rw [List.forall₂_iff_get]
  refine ⟨lengths, ?_⟩
  intro place leftBound rightBound
  exact each place _ _ (List.getElem?_eq_getElem leftBound)
    (List.getElem?_eq_getElem rightBound)

theorem exists_of_forall₂ {α β : Type} {related : α → β → Prop}
    {left : List α} {right : List β} (all : List.Forall₂ related left right)
    {first : α} (member : first ∈ left) :
    ∃ second ∈ right, related first second := by
  induction all with
  | nil =>
      cases member
  | cons here _ inductionHypothesis =>
      rcases List.mem_cons.mp member with rfl | behind
      · exact ⟨_, List.mem_cons_self, here⟩
      · obtain ⟨second, found, holds⟩ := inductionHypothesis behind
        exact ⟨second, List.mem_cons_of_mem _ found, holds⟩

theorem Declaration.speak_namedCode (base : Nat)
    (declaration : Declaration) :
    Node.Speak declaration.body.subtrees (declaration.namedCode base) := by
  refine (Node.Speak.append ?_ (Node.speak_namedCode base _)).append ?_
  · intro step member
    rw [List.eq_of_mem_replicate member]
    exact .control rfl
  · intro step member
    rw [List.mem_singleton.mp member]
    exact .control rfl

theorem Declaration.subtrees_subset {nodes : List Node}
    {declaration : Declaration} (member : declaration ∈ all nodes) :
    declaration.body.subtrees ⊆ Node.allSubtrees nodes := by
  intro tree inBody
  rcases List.mem_append.mp member with isProc | isTrigger
  · apply Node.subtrees_subset_of_mem (node_of_mem_procs isProc)
    rw [Node.subtrees]
    exact List.mem_cons_of_mem _ inBody
  · obtain ⟨event, filter, found⟩ := node_of_mem_triggers isTrigger
    apply Node.subtrees_subset_of_mem found
    rw [Node.subtrees]
    exact List.mem_cons_of_mem _ inBody

theorem Bindings.instruction_address (bindings : Bindings) (address : Nat)
    (named : NamedInstruction) :
    (bindings.instruction (address, named)).address = address := by
  cases named <;> rfl

namespace Declaration.Yields

variable {catalog : Catalog} {nodes : List Node} {place : Nat}
  {declaration : Declaration} {method : Method}

theorem length_code
    (yields : declaration.Yields catalog nodes place method) :
    method.code.length =
      (declaration.namedCode (Script.address nodes place)).length := by
  have lengths := congrArg List.length yields.code
  rwa [List.length_map, List.length_map] at lengths

/-- The instruction by names behind an instruction of the method. -/
theorem named_at
    (yields : declaration.Yields catalog nodes place method)
    {position : Nat} {instruction : Instruction}
    (found : method.code[position]? = some instruction) :
    ∃ named,
      (declaration.namedCode (Script.address nodes place))[position]? =
          some (instruction.address, named) ∧
        instruction.nameless =
          (Script.bindings catalog nodes declaration).instruction
            (instruction.address, named) := by
  have sketch := congrArg (fun code => code[position]?) yields.code
  simp only [List.getElem?_map, found, Option.map_some] at sketch
  obtain ⟨⟨address, named⟩, namedAt, bound⟩ :=
    Option.map_eq_some_iff.mp sketch.symm
  have addressEq : instruction.address = address := by
    have same := congrArg Instruction.address bound
    rw [Bindings.instruction_address] at same
    exact same.symm
  rw [addressEq]
  exact ⟨named, namedAt, bound.symm⟩

end Declaration.Yields

namespace Declaration.Enters

variable {catalog other : Catalog} {first second : List Node}
  {place : Nat} {declaration twin : Declaration}
  {left right : TriggerEntry}

/-- Rows for the same trigger bind the same event to the same listener. -/
theorem agree
    (entersLeft : declaration.Enters catalog first place left)
    (entersRight : twin.Enters other second place right)
    (triggers : declaration.trigger? = twin.trigger?)
    (listening : ∀ event listener,
      catalog.listener? event = some listener →
        other.listener? event = some listener) :
    left.event = right.event ∧ left.listenerId = right.listenerId ∧
      left.filter = right.filter := by
  obtain ⟨filter, listener, declared, found, idEq, reading⟩ :=
    entersLeft.source
  obtain ⟨filter', listener', declared', found', idEq', reading'⟩ :=
    entersRight.source
  rw [declared, declared'] at triggers
  have same := Option.some.inj triggers
  have eventEq : left.event = right.event := congrArg Prod.fst same
  have filterEq : filter = filter' := congrArg Prod.snd same
  refine ⟨eventEq, ?_, ?_⟩
  · have again := listening _ _ found
    rw [eventEq, found'] at again
    rw [idEq, idEq', Option.some.inj again]
  · rw [filterEq, reading'] at reading
    exact (Except.ok.inj reading).symm

/-- There is only one row for a trigger. -/
theorem unique
    (entersLeft : declaration.Enters catalog first place left)
    (entersRight : twin.Enters other second place right)
    (triggers : declaration.trigger? = twin.trigger?)
    (listening : ∀ event listener,
      catalog.listener? event = some listener →
        other.listener? event = some listener)
    (labels : Script.labels first place = Script.labels second place)
    (addresses : Script.address first place = Script.address second place) :
    left = right := by
  obtain ⟨events, listeners, filters⟩ :=
    entersLeft.agree entersRight triggers listening
  have entries : left.entry = right.entry := by
    have leftEntry := entersLeft.entry
    rw [labels, entersRight.entry] at leftEntry
    exact (Option.some.inj leftEntry).symm
  have places : left.address = right.address := by
    rw [entersLeft.address, entersRight.address, addresses]
  cases left
  cases right
  simp only [TriggerEntry.mk.injEq]
  exact ⟨events, listeners, filters, entries, places⟩

end Declaration.Enters

/-! ## Methods -/

theorem Method.Numbered.locals_eq {method : Method}
    (numbered : method.Numbered) :
    method.locals = Variable.number method.signature := by
  apply List.ext_getElem?
  intro place
  have indexed := congrArg (fun numbers => numbers[place]?) numbered.index
  simp only [List.getElem?_map] at indexed
  rw [Variable.number, Method.signature, List.getElem?_mapIdx,
    List.getElem?_map]
  cases found : method.locals[place]? with
  | none =>
      rfl
  | some known =>
      have bound : place < method.locals.length :=
        (List.getElem?_eq_some_iff.mp found).1
      rw [found, List.getElem?_range bound] at indexed
      have indexEq : known.index = place := Option.some.inj indexed
      simp only [Option.map_some, ← indexEq]

namespace Piece.Becomes

variable {catalog : Catalog} {program : Program}
  {addressOf : Nat → Nat} {base : Nat} {piece : Piece}
  {method : Method}

theorem size_code
    (becomes : piece.Becomes catalog program addressOf base method) :
    Symbol.size piece.code = piece.declaration.size := by
  obtain ⟨body, first, last, emitted, codeEq, _⟩ := becomes.code_eq
  have bodySize := emitted.size_eq
  rw [Node.allSubtrees_singleton] at bodySize
  rw [codeEq, Symbol.size_append, Symbol.size_append, Symbol.size_markers,
    Symbol.size_op, Symbol.size_nil, bodySize, Declaration.size]
  omega

/-- The first labels of a method are those of its entry markers. -/
theorem labels_eq
    (becomes : piece.Becomes catalog program addressOf base method) :
    ∃ rest, method.code.filterMap Instruction.label? =
      method.entry :: (piece.alias?.toList ++ rest) := by
  have entryEq : method.entry = piece.method.entry :=
    Method.field_eq_of_frame becomes.frame Method.entry fun _ _ => rfl
  refine ⟨Symbol.labels (ending piece.body?), ?_⟩
  rw [becomes.code, Symbol.filterMap_place_resolve, Piece.code,
    Symbol.labels_marker, Symbol.labels_append, entryEq]
  cases piece.alias? <;> rfl

theorem map_nameless
    (becomes : piece.Becomes catalog program addressOf base method)
    (aliased : piece.alias?.isSome = piece.declaration.trigger?.isSome) :
    method.code.map Instruction.nameless =
      (piece.declaration.namedCode base).map
        (program.bindings catalog method).instruction := by
  obtain ⟨body, first, last, emitted, codeEq, marked⟩ := becomes.code_eq
  have bodySketch := emitted.sketch_eq_map_instruction marked
  have bodySize := emitted.size_eq
  rw [Node.allNamedCode_singleton] at bodySketch
  rw [Node.allSubtrees_singleton] at bodySize
  have markers : (piece.method.entry :: piece.alias?.toList).length =
      if piece.declaration.trigger?.isSome then 2 else 1 := by
    rw [← aliased]
    cases piece.alias? <;> rfl
  have sketched : method.code.map Instruction.nameless =
      Symbol.sketch addressOf base piece.code := by
    rw [becomes.code]
    rfl
  rw [sketched, codeEq, Symbol.sketch_append, Symbol.sketch_append,
    Symbol.sketch_markers, Symbol.size_markers, Nat.add_zero, bodySketch,
    bodySize, markers, Declaration.namedCode, List.append_assoc,
    List.map_append, List.map_append, List.map_replicate]
  rfl

end Piece.Becomes

namespace Linked

variable {catalog : Catalog} {nodes : List Node} {program : Program}
  {procs triggers : List Piece} {addressOf : Nat → Nat}

theorem declarations_eq
    (linked : Linked catalog nodes program procs triggers addressOf) :
    (procs ++ triggers).map Piece.declaration = Declaration.all nodes := by
  rw [Declaration.all, List.map_append, linked.ofProcs, linked.ofTriggers]

/-- Exactly the triggers have a second entry marker. -/
theorem alias_isSome
    (linked : Linked catalog nodes program procs triggers addressOf)
    {piece : Piece} (member : piece ∈ procs ++ triggers) :
    piece.alias?.isSome = piece.declaration.trigger?.isSome := by
  rcases List.mem_append.mp member with inProcs | inTriggers
  · have declared : piece.declaration ∈ Declaration.procs nodes := by
      rw [← linked.ofProcs]
      exact List.mem_map_of_mem inProcs
    rw [linked.plain piece inProcs, Declaration.trigger?_of_mem_procs declared]
    rfl
  · have declared : piece.declaration ∈ Declaration.triggers 0 nodes := by
      rw [← linked.ofTriggers]
      exact List.mem_map_of_mem inTriggers
    obtain ⟨place, bound, rfl⟩ := List.mem_iff_getElem.mp inTriggers
    have registered := (linked.rows.get bound
      (linked.rows.length_eq ▸ bound)).1
    have aliased := registered.entry
    rw [List.get_eq_getElem] at aliased
    rw [aliased, Declaration.trigger?_of_mem_triggers declared]
    rfl

/-- A method begins behind the declarations before it. -/
theorem size_take
    (linked : Linked catalog nodes program procs triggers addressOf)
    (index : Nat) :
    Symbol.size (((procs ++ triggers).take index).flatMap Piece.code) =
      Script.address nodes index := by
  rw [Script.address, ← linked.declarations_eq, ← List.map_take,
    List.foldr_map]
  have sized : ∀ piece ∈ (procs ++ triggers).take index,
      Symbol.size piece.code = piece.declaration.size := by
    intro piece member
    obtain ⟨method, base, becomes⟩ :=
      linked.exists_becomes (List.mem_of_mem_take member)
    exact becomes.size_code
  generalize (procs ++ triggers).take index = pieces at sized
  induction pieces with
  | nil =>
      rfl
  | cons piece pieces inductionHypothesis =>
      rw [List.forall_mem_cons] at sized
      rw [List.flatMap_cons, Symbol.size_append, sized.1,
        inductionHypothesis sized.2, List.foldr_cons]

/-- The piece and the method that a row of the trigger table leads to. -/
theorem row_becomes
    (linked : Linked catalog nodes program procs triggers addressOf)
    {number : Nat} {row : TriggerEntry}
    (rowAt : program.triggers[number]? = some row) :
    ∃ piece method,
      triggers[number]? = some piece ∧
        program.methods[(Declaration.procs nodes).length + number]? =
          some method ∧
        Registered catalog piece row ∧
        row.address = addressOf row.entry ∧
        piece.Becomes catalog program addressOf
          (Symbol.size (((procs ++ triggers).take
            ((Declaration.procs nodes).length + number)).flatMap
              Piece.code)) method := by
  obtain ⟨rowBound, rowEq⟩ := List.getElem?_eq_some_iff.mp rowAt
  have bound : number < triggers.length := by
    rw [linked.rows.length_eq]
    exact rowBound
  obtain ⟨registered, rowAddress⟩ := linked.rows.get bound rowBound
  simp only [List.get_eq_getElem, rowEq] at registered rowAddress
  -- The pieces of the triggers stand behind those of the procedures.
  have lengths : (Declaration.procs nodes).length = procs.length := by
    rw [← linked.ofProcs, List.length_map]
  have pieceAt : (procs ++ triggers)[(Declaration.procs nodes).length +
      number]? = some triggers[number] := by
    rw [lengths, List.getElem?_append_right (Nat.le_add_right _ _),
      Nat.add_sub_cancel_left, List.getElem?_eq_getElem bound]
  have methodBound : (Declaration.procs nodes).length + number <
      program.methods.length := by
    rw [linked.length]
    exact (List.getElem?_eq_some_iff.mp pieceAt).1
  have methodAt := List.getElem?_eq_getElem methodBound
  exact ⟨triggers[number], _, List.getElem?_eq_getElem bound, methodAt,
    registered, rowAddress, linked.becomes _ _ _ pieceAt methodAt⟩

end Linked

namespace Program

variable {catalog : Catalog} {nodes : List Node} {program : Program}

theorem assemble_length (assembled : assemble catalog nodes = .ok program) :
    program.methods.length = (Declaration.all nodes).length := by
  obtain ⟨procs, triggers, addressOf, linked⟩ := assemble_linked assembled
  rw [linked.length, ← linked.declarations_eq, List.length_map]

theorem assemble_labels (assembled : assemble catalog nodes = .ok program)
    {place : Nat} {method : Method}
    (found : program.methods[place]? = some method) :
    method.code.filterMap Instruction.label? =
      Script.labels nodes place := by
  rw [Script.labels, ← (assemble_records assembled).1, List.getElem?_map,
    found]
  rfl

/-- Every method is yielded by the declaration at its place. -/
theorem assemble_yields (assembled : assemble catalog nodes = .ok program)
    {place : Nat} {method : Method}
    (found : program.methods[place]? = some method) :
    ∃ declaration, (Declaration.all nodes)[place]? = some declaration ∧
      declaration.Yields catalog nodes place method := by
  obtain ⟨procs, triggers, addressOf, linked⟩ := assemble_linked assembled
  obtain ⟨records, constantsEq⟩ := assemble_records assembled
  have bound := (List.getElem?_eq_some_iff.mp found).1
  obtain ⟨piece, pieceAt⟩ : ∃ piece,
      (procs ++ triggers)[place]? = some piece :=
    ⟨_, List.getElem?_eq_getElem (linked.length ▸ bound)⟩
  have declared : (Declaration.all nodes)[place]? =
      some piece.declaration := by
    rw [← linked.declarations_eq, List.getElem?_map, pieceAt]
    rfl
  have becomes := linked.becomes place piece method pieceAt found
  have aliased := linked.alias_isSome (List.mem_of_getElem? pieceAt)
  rw [linked.size_take] at becomes
  have signatureEq : method.signature = piece.declaration.signature := by
    have rows := congrArg (fun rows => rows[place]?)
      (Script.records_signature nodes)
    rw [← records] at rows
    simp only [List.getElem?_map, found, declared, Option.map_some,
      Option.some.injEq] at rows
    exact rows
  -- What the names in a method stand for is known from the script alone.
  have bindingsEq : program.bindings catalog method =
      Script.bindings catalog nodes piece.declaration := by
    have localsEq : method.localNames =
        piece.declaration.signature.map Prod.fst := by
      rw [← signatureEq, Method.signature, List.map_map]
      rfl
    rw [Program.bindings, linked.methodNames_eq, constantsEq, localsEq]
    rfl
  refine ⟨piece.declaration, declared, ?_⟩
  constructor
  · exact becomes.name
  · have numbers := congrArg (fun numbers => numbers[place]?) linked.indexed
    simp only [List.getElem?_map, found, Option.map_some,
      List.getElem?_range bound, Option.some.injEq] at numbers
    exact numbers
  · exact becomes.params
  · exact becomes.address_eq
  · rw [becomes.numbered.locals_eq, signatureEq]
  · exact assemble_labels assembled found
  · obtain ⟨rest, labelsEq⟩ := becomes.labels_eq
    rw [← assemble_labels assembled found, labelsEq]
    rfl
  · rw [becomes.map_nameless aliased, bindingsEq]

/-- Every row belongs to the trigger with its number. -/
theorem assemble_enters (assembled : assemble catalog nodes = .ok program)
    {number : Nat} {row : TriggerEntry}
    (rowAt : program.triggers[number]? = some row) :
    ∃ declaration,
      (Declaration.triggers 0 nodes)[number]? = some declaration ∧
        declaration.Enters catalog nodes
          ((Declaration.procs nodes).length + number) row := by
  obtain ⟨procs, triggers, addressOf, linked⟩ := assemble_linked assembled
  obtain ⟨piece, method, pieceAt, methodAt, registered, rowAddress,
    becomes⟩ := linked.row_becomes rowAt
  refine ⟨piece.declaration, ?_, registered.source, ?_, ?_⟩
  · rw [← linked.ofTriggers, List.getElem?_map, pieceAt]
    rfl
  · obtain ⟨rest, labelsEq⟩ := becomes.labels_eq
    rw [← assemble_labels assembled methodAt, labelsEq, registered.entry]
    rfl
  · rw [rowAddress, (becomes.alias_spec registered.entry).2,
      becomes.address_eq, linked.size_take]

theorem assemble_triggers_length
    (assembled : assemble catalog nodes = .ok program) :
    program.triggers.length = (Declaration.triggers 0 nodes).length := by
  obtain ⟨procs, triggers, addressOf, linked⟩ := assemble_linked assembled
  rw [← linked.rows.length_eq, ← linked.ofTriggers, List.length_map]

/-! ### Two programs -/

variable {other : Catalog} {second : List Node} {twin : Program}
  {change : Declaration → Declaration}

/-- Methods at the same place come from corresponding declarations. -/
theorem yields_both (assembled : assemble catalog nodes = .ok program)
    (again : assemble other second = .ok twin)
    (corresponds : Declaration.all second =
      (Declaration.all nodes).map change)
    {place : Nat} {method twinMethod : Method}
    (methodAt : program.methods[place]? = some method)
    (twinAt : twin.methods[place]? = some twinMethod) :
    ∃ declaration, (Declaration.all nodes)[place]? = some declaration ∧
      declaration.Yields catalog nodes place method ∧
      (change declaration).Yields other second place twinMethod := by
  obtain ⟨declaration, declared, yields⟩ :=
    assemble_yields assembled methodAt
  obtain ⟨changed, changedAt, others⟩ := assemble_yields again twinAt
  rw [corresponds, List.getElem?_map, declared, Option.map_some]
    at changedAt
  cases changedAt
  exact ⟨declaration, declared, yields, others⟩

/-- Rows with the same number come from corresponding triggers. -/
theorem enters_both (assembled : assemble catalog nodes = .ok program)
    (again : assemble other second = .ok twin)
    (corresponds : Declaration.triggers 0 second =
      (Declaration.triggers 0 nodes).map change)
    (behind : (Declaration.procs second).length =
      (Declaration.procs nodes).length)
    {number : Nat} {row twinRow : TriggerEntry}
    (rowAt : program.triggers[number]? = some row)
    (twinAt : twin.triggers[number]? = some twinRow) :
    ∃ declaration place, declaration.Enters catalog nodes place row ∧
      (change declaration).Enters other second place twinRow := by
  obtain ⟨declaration, declared, enters⟩ := assemble_enters assembled rowAt
  obtain ⟨changed, changedAt, others⟩ := assemble_enters again twinAt
  rw [corresponds, List.getElem?_map, declared, Option.map_some]
    at changedAt
  cases changedAt
  rw [behind] at others
  exact ⟨declaration, _, enters, others⟩

end Program

end TriggerScript
