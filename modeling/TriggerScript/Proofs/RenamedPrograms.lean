import TriggerScript.Proofs.Renaming
import TriggerScript.Proofs.ScriptPrograms
import Mathlib.Logic.Equiv.Basic

/-!
# Programs of renamed scripts

Everything a script determines about its program is read off trees, and names
enter only where they are looked up.  A renamed tree has renamed parts, takes
the same labels and addresses and pushes the same constants; a renamed name is
found among renamed names at the place where the name was found.  So the program
of a renamed script is the program of the script with the new names in it.
-/

namespace TriggerScript

/-! ## Views of renamed trees -/

def NamedInstruction.rename (naming : Renaming) :
    NamedInstruction → NamedInstruction
  | push constant => push constant
  | get name => get (naming.vars name)
  | set name => set (naming.vars name)
  | call name types => call (naming.procs name) types
  | equal => equal
  | jump target => jump target
  | jumpIfZero target => jumpIfZero target
  | ret => ret
  | marker => marker

namespace Node

variable (naming : Renaming)

theorem ownOperations_rename (tree : Node) :
    (tree.rename naming).ownOperations = tree.ownOperations := by
  cases tree with
  | declare type name value =>
      cases value <;> simp [rename, renameOptional, ownOperations]
  | trigger | proc | block | assign | branch | call | literal | compare
  | var =>
      simp [rename, ownOperations]

theorem isConditional_rename (tree : Node) :
    (tree.rename naming).isConditional = tree.isConditional := by
  cases tree <;> simp [rename, isConditional]

theorem pushed?_rename (tree : Node) :
    (tree.rename naming).pushed? = tree.pushed? := by
  cases tree <;> simp [rename, pushed?]

theorem declared?_rename (tree : Node) :
    (tree.rename naming).declared? =
      tree.declared?.map (Prod.map naming.vars id) := by
  cases tree with
  | declare type name value =>
      rw [rename, declared?, declared?, Option.map_map]
      rfl
  | trigger | proc | block | assign | branch | call | literal | compare
  | var =>
      simp [rename, declared?]

theorem filterMap_declared?_rename (trees : List Node) :
    (trees.map (rename naming)).filterMap declared? =
      (trees.filterMap declared?).map (Prod.map naming.vars id) := by
  rw [List.filterMap_map, List.map_filterMap]
  congr 1
  funext tree
  exact declared?_rename naming tree

theorem operationCount_rename (trees : List Node) :
    operationCount (trees.map (rename naming)) = operationCount trees := by
  simp only [operationCount, List.foldr_map, ownOperations_rename]

theorem labelCount_rename (trees : List Node) :
    labelCount (trees.map (rename naming)) = labelCount trees := by
  rw [labelCount, List.countP_map, labelCount]
  congr 2
  funext tree
  exact isConditional_rename naming tree

mutual

theorem labels_rename : (node : Node) → ∀ first,
    (node.rename naming).labels first = node.labels first
  | trigger event filter body, first => by
      rw [rename, labels, labels]
  | proc name params body, first => by
      rw [rename, labels, labels]
  | block statements, first => by
      rw [rename, labels, labels, allLabels_rename statements]
  | declare type name value, first => by
      rw [rename, labels, labels, optionalLabels_rename value]
  | assign name value, first => by
      rw [rename, labels, labels, labels_rename value]
  | branch condition thenBranch elseBranch, first => by
      rw [rename, labels, labels, subtrees_rename, subtrees_rename,
        labelCount_rename, labelCount_rename, labels_rename condition,
        labels_rename thenBranch, optionalLabels_rename elseBranch]
  | call name args, first => by
      rw [rename, labels, labels, allLabels_rename args]
  | literal value, first => by
      rw [rename]
  | compare left comparator right, first => by
      rw [rename, labels, labels, subtrees_rename, labelCount_rename,
        labels_rename left, labels_rename right]
  | var name, first => by
      rw [rename, labels, labels]

theorem allLabels_rename : (nodes : List Node) → ∀ first,
    allLabels first (renameAll naming nodes) = allLabels first nodes
  | [], first => by
      rw [renameAll]
  | node :: nodes, first => by
      rw [renameAll, allLabels, allLabels, subtrees_rename,
        labelCount_rename, labels_rename node, allLabels_rename nodes]

theorem optionalLabels_rename : (node : Option Node) → ∀ first,
    optionalLabels first (renameOptional naming node) =
      optionalLabels first node
  | none, first => by
      rw [renameOptional]
  | some node, first => by
      rw [renameOptional, optionalLabels, optionalLabels,
        labels_rename node]

end

def renameCode (code : List (Nat × NamedInstruction)) :
    List (Nat × NamedInstruction) :=
  code.map (Prod.map id (NamedInstruction.rename naming))

mutual

theorem namedCode_rename : (node : Node) → ∀ base,
    (node.rename naming).namedCode base =
      renameCode naming (node.namedCode base)
  | trigger event filter body, base => by
      rw [rename, namedCode, namedCode]
      rfl
  | proc name params body, base => by
      rw [rename, namedCode, namedCode]
      rfl
  | block statements, base => by
      rw [rename, namedCode, namedCode, allNamedCode_rename statements]
  | declare type name none, base => by
      rw [rename, renameOptional, namedCode, namedCode]
      rfl
  | declare type name (some value), base => by
      rw [rename, renameOptional, namedCode, namedCode,
        namedCode_rename value, subtrees_rename, operationCount_rename]
      simp only [renameCode, List.map_append]
      rfl
  | assign name value, base => by
      rw [rename, namedCode, namedCode, namedCode_rename value,
        subtrees_rename, operationCount_rename]
      simp only [renameCode, List.map_append]
      rfl
  | branch condition thenBranch elseBranch, base => by
      rw [rename, namedCode, namedCode, namedCode_rename condition,
        namedCode_rename thenBranch, optionalNamedCode_rename elseBranch,
        subtrees_rename, subtrees_rename, optionalSubtrees_rename,
        operationCount_rename, operationCount_rename, operationCount_rename]
      simp only [renameCode, List.map_append]
      rfl
  | call name args, base => by
      rw [rename, namedCode, namedCode, allNamedCode_rename args,
        allSubtrees_rename, operationCount_rename,
        filterMap_staticType?_rename]
      simp only [renameCode, List.map_append]
      rfl
  | literal value, base => by
      rw [rename, namedCode]
      rfl
  | compare left comparator right, base => by
      rw [rename, namedCode, namedCode, namedCode_rename left,
        namedCode_rename right, subtrees_rename, subtrees_rename,
        operationCount_rename, operationCount_rename]
      simp only [renameCode, List.map_append]
      rfl
  | var name, base => by
      rw [rename, namedCode, namedCode]
      rfl

theorem allNamedCode_rename : (nodes : List Node) → ∀ base,
    allNamedCode base (renameAll naming nodes) =
      renameCode naming (allNamedCode base nodes)
  | [], base => by
      rw [renameAll, allNamedCode]
      rfl
  | node :: nodes, base => by
      rw [renameAll, allNamedCode, allNamedCode, namedCode_rename node,
        allNamedCode_rename nodes, subtrees_rename, operationCount_rename]
      simp only [renameCode, List.map_append]

theorem optionalNamedCode_rename : (node : Option Node) → ∀ base,
    optionalNamedCode base (renameOptional naming node) =
      renameCode naming (optionalNamedCode base node)
  | none, base => by
      rw [renameOptional, optionalNamedCode]
      rfl
  | some node, base => by
      rw [renameOptional, optionalNamedCode, optionalNamedCode,
        namedCode_rename node]

end

end Node

/-! ## Renamed declarations -/

/-- A declaration with new names.  The method of a trigger is named after its
event and keeps its name. -/
def Declaration.rename (naming : Renaming) (declaration : Declaration) :
    Declaration where
  name :=
    if declaration.trigger?.isSome then declaration.name
    else naming.procs declaration.name
  params := declaration.params.map (Param.rename naming)
  body := declaration.body.rename naming
  trigger? := declaration.trigger?

namespace Declaration

variable (naming : Renaming)

theorem procs_rename (nodes : List Node) :
    procs (nodes.map (Node.rename naming)) =
      (procs nodes).map (rename naming) := by
  induction nodes with
  | nil =>
      rfl
  | cons node rest inductionHypothesis =>
      cases node with
      | proc name params body =>
          rw [List.map_cons, Node.rename, procs, inductionHypothesis, procs,
            List.map_cons]
          rfl
      | trigger | block | declare | assign | branch | call | literal
      | compare | var =>
          rw [List.map_cons, Node.rename]
          exact inductionHypothesis

theorem triggers_rename (ordinal : Nat) (nodes : List Node) :
    triggers ordinal (nodes.map (Node.rename naming)) =
      (triggers ordinal nodes).map (rename naming) := by
  induction nodes generalizing ordinal with
  | nil =>
      rfl
  | cons node rest inductionHypothesis =>
      cases node with
      | trigger event filter body =>
          rw [List.map_cons, Node.rename, triggers, inductionHypothesis,
            triggers, List.map_cons]
          rfl
      | proc | block | declare | assign | branch | call | literal
      | compare | var =>
          rw [List.map_cons, Node.rename]
          exact inductionHypothesis ordinal

theorem all_rename (nodes : List Node) :
    all (nodes.map (Node.rename naming)) =
      (all nodes).map (rename naming) := by
  rw [all, procs_rename, triggers_rename, all, List.map_append]

theorem signature_rename (declaration : Declaration) :
    (declaration.rename naming).signature =
      declaration.signature.map (Prod.map naming.vars id) := by
  have params :
      ((declaration.params.map (Param.rename naming)).map Param.tree) =
        (declaration.params.map Param.tree).map (Node.rename naming) := by
    rw [List.map_map, List.map_map]
    apply List.map_congr_left
    intro param _
    rw [Function.comp, Function.comp, Param.tree, Param.tree, Node.rename,
      Node.renameOptional]
    rfl
  rw [signature, signature, Param.signature, Param.signature, rename, params,
    Node.filterMap_declared?_rename, Node.subtrees_rename,
    Node.filterMap_declared?_rename, List.map_append]

theorem size_rename (declaration : Declaration) :
    (declaration.rename naming).size = declaration.size := by
  rw [size, rename, Node.subtrees_rename, Node.operationCount_rename, size]

theorem namedCode_rename (declaration : Declaration) (base : Nat) :
    (declaration.rename naming).namedCode base =
      Node.renameCode naming (declaration.namedCode base) := by
  rw [namedCode, namedCode, rename, Node.namedCode_rename,
    Node.subtrees_rename, Node.operationCount_rename]
  simp only [Node.renameCode, List.map_append, List.map_replicate]
  rfl

end Declaration

namespace Script

variable (naming : Renaming)

theorem address_rename (nodes : List Node) (place : Nat) :
    address (nodes.map (Node.rename naming)) place =
      address nodes place := by
  simp only [address, Declaration.all_rename, ← List.map_take,
    List.foldr_map, Declaration.size_rename]

theorem constants_rename (nodes : List Node) :
    constants (nodes.map (Node.rename naming)) = constants nodes := by
  rw [constants, ← Node.renameAll_eq_map, Node.allSubtrees_rename,
    List.filterMap_map, constants]
  congr 3
  funext tree
  exact tree.pushed?_rename naming

theorem procRecords_rename (entry next : Nat) (nodes : List Node) :
    (procRecords entry next (nodes.map (Node.rename naming))).map
        Record.labels =
      (procRecords entry next nodes).map Record.labels := by
  induction nodes generalizing entry next with
  | nil =>
      rfl
  | cons node rest inductionHypothesis =>
      cases node with
      | proc name params body =>
          rw [List.map_cons, Node.rename, procRecords, procRecords,
            List.map_cons, List.map_cons, Node.subtrees_rename,
            Node.labelCount_rename, inductionHypothesis]
          simp [Record.extend, Node.labels_rename]
      | trigger event filter body =>
          rw [List.map_cons, Node.rename, procRecords, procRecords,
            Node.subtrees_rename, Node.labelCount_rename,
            inductionHypothesis]
      | block | declare | assign | branch | call | literal | compare
      | var =>
          rw [List.map_cons, Node.rename]
          exact inductionHypothesis entry next

theorem triggerRecords_rename (next : Nat) (nodes : List Node) :
    (triggerRecords next (nodes.map (Node.rename naming))).map
        Record.labels =
      (triggerRecords next nodes).map Record.labels := by
  induction nodes generalizing next with
  | nil =>
      rfl
  | cons node rest inductionHypothesis =>
      cases node with
      | trigger event filter body =>
          rw [List.map_cons, Node.rename, triggerRecords, triggerRecords,
            List.map_cons, List.map_cons, Node.subtrees_rename,
            Node.labelCount_rename, inductionHypothesis]
          simp [Record.extend, Node.labels_rename]
      | proc name params body =>
          rw [List.map_cons, Node.rename, triggerRecords, triggerRecords,
            Node.subtrees_rename, Node.labelCount_rename,
            inductionHypothesis]
      | block | declare | assign | branch | call | literal | compare
      | var =>
          rw [List.map_cons, Node.rename]
          exact inductionHypothesis next

theorem labels_rename (nodes : List Node) (place : Nat) :
    labels (nodes.map (Node.rename naming)) place = labels nodes place := by
  have rows : (records (nodes.map (Node.rename naming))).map
      Record.labels = (records nodes).map Record.labels := by
    rw [records, records, Declaration.procs_rename, List.length_map,
      List.map_append, List.map_append, procRecords_rename,
      triggerRecords_rename]
  rw [labels, ← List.getElem?_map, rows, List.getElem?_map, labels]

end Script

/-! ## Names that are looked up -/

theorem idxOf_map_of_injective {change : String → String}
    (injective : Function.Injective change) (names : List String)
    (name : String) :
    (names.map change).idxOf (change name) = names.idxOf name := by
  rw [List.idxOf, List.findIdx_map, List.idxOf]
  congr 1
  funext other
  simp [injective.eq_iff]

theorem Renaming.Fixes.overload?_rename {naming : Renaming}
    {catalog : Catalog} (fixes : naming.Fixes catalog) (name : String)
    (types : List ValueType) :
    catalog.overload? (naming.procs name) types =
      catalog.overload? name types := by
  apply List.find?_congr
  intro native member
  rw [Bool.eq_iff_iff]
  simp only [Bool.and_eq_true, beq_iff_eq, fixes.name_eq_iff member]

namespace Script

variable {naming : Renaming} {catalog : Catalog} {nodes : List Node}
  {declaration : Declaration}

/-- The names of the methods of a renamed script. -/
theorem methods_rename (naming : Renaming) (nodes : List Node) :
    (Declaration.all (nodes.map (Node.rename naming))).map
        Declaration.name =
      ((Declaration.procs nodes).map Declaration.name).map naming.procs ++
        (Declaration.triggers 0 nodes).map Declaration.name := by
  rw [Declaration.all_rename, Declaration.all, List.map_append,
    List.map_append, List.map_map, List.map_map, List.map_map]
  congr 1
  · apply List.map_congr_left
    intro declaration member
    simp [Declaration.rename, Declaration.trigger?_of_mem_procs member]
  · apply List.map_congr_left
    intro declaration member
    simp [Declaration.rename, Declaration.trigger?_of_mem_triggers member]

/-- A renamed call goes where the call went. -/
theorem callee_rename (fixes : naming.Fixes catalog) {name : String}
    (plain : name.toList.head? ≠ some '@')
    (plainRenamed : (naming.procs name).toList.head? ≠ some '@')
    (types : List ValueType) :
    (bindings catalog (nodes.map (Node.rename naming))
        (declaration.rename naming)).callee (naming.procs name) types =
      (bindings catalog nodes declaration).callee name types := by
  have found : ((Declaration.all (nodes.map (Node.rename naming))).map
      Declaration.name).idxOf (naming.procs name) =
        ((Declaration.all nodes).map Declaration.name).idxOf name := by
    -- Neither name is that of a trigger, so both are found or missed among
    -- the procedures.
    have absent := notMem_triggers_of_head? plain 0 nodes
    have absentRenamed := notMem_triggers_of_head? plainRenamed 0 nodes
    rw [methods_rename, Declaration.all, List.map_append, List.idxOf_append,
      List.idxOf_append, List.idxOf_of_notMem absent,
      List.idxOf_of_notMem absentRenamed,
      idxOf_map_of_injective naming.procs_injective]
    simp only [List.mem_map_of_injective naming.procs_injective,
      List.length_map]
  simp only [Bindings.callee, bindings, fixes.overload?_rename, found]

theorem instruction_rename (fixes : naming.Fixes catalog)
    (address : Nat) {named : NamedInstruction}
    (plain : ∀ name types, named = .call name types →
      name.toList.head? ≠ some '@' ∧
        (naming.procs name).toList.head? ≠ some '@') :
    (bindings catalog (nodes.map (Node.rename naming))
        (declaration.rename naming)).instruction
          (address, named.rename naming) =
      (bindings catalog nodes declaration).instruction
        (address, named) := by
  have locals : ((declaration.rename naming).signature.map Prod.fst) =
      (declaration.signature.map Prod.fst).map naming.vars := by
    rw [Declaration.signature_rename, List.map_map, List.map_map]
    rfl
  cases named with
  | push constant =>
      simp only [NamedInstruction.rename, Bindings.instruction, bindings,
        constants_rename]
  | get name =>
      simp only [NamedInstruction.rename, Bindings.instruction, bindings,
        locals, idxOf_map_of_injective naming.vars_injective]
  | set name =>
      simp only [NamedInstruction.rename, Bindings.instruction, bindings,
        locals, idxOf_map_of_injective naming.vars_injective]
  | call name types =>
      obtain ⟨before, after⟩ := plain name types rfl
      simp only [NamedInstruction.rename, Bindings.instruction,
        callee_rename fixes before after]
  | equal | jump | jumpIfZero | ret | marker =>
      rfl

end Script

/-! ## Renamed programs -/

/-- The name of a method with the new names.  The methods of triggers, whose
names start with `@`, keep theirs. -/
def Renaming.method (naming : Renaming) (name : String) : String :=
  if name.toList.head? = some '@' then name else naming.procs name

def Variable.rename (naming : Renaming) (known : Variable) : Variable :=
  { known with name := naming.vars known.name }

def Method.rename (naming : Renaming) (method : Method) : Method :=
  { method with
    name := naming.method method.name
    locals := method.locals.map (Variable.rename naming) }

def Program.rename (naming : Renaming) (program : Program) : Program :=
  { program with methods := program.methods.map (Method.rename naming) }

theorem Variable.number_rename (naming : Renaming)
    (signature : List (String × ValueType)) :
    number (signature.map (Prod.map naming.vars id)) =
      (number signature).map (rename naming) := by
  apply List.ext_getElem?
  intro place
  rw [number, List.getElem?_mapIdx, List.getElem?_map, List.getElem?_map,
    number, List.getElem?_mapIdx, Option.map_map, Option.map_map]
  rfl

theorem Node.eq_call_of_closing? {tree : Node} {name : String}
    {types : List ValueType}
    (closes : tree.closing? = some (.call name types)) :
    ∃ args, tree = .call name args := by
  unfold closing? at closes
  split at closes <;> cases closes
  exact ⟨_, rfl⟩

/-- What the code of a declaration calls is called in the script. -/
theorem Declaration.mem_calledNames {nodes : List Node}
    {declaration : Declaration} (member : declaration ∈ all nodes)
    {base address : Nat} {name : String} {types : List ValueType}
    (called : (address, .call name types) ∈ declaration.namedCode base) :
    ∃ node ∈ nodes, name ∈ node.calledNames := by
  cases declaration.speak_namedCode base _ called with
  | control steers =>
      cases steers
  | closing tree inBody closes =>
      obtain ⟨args, rfl⟩ := Node.eq_call_of_closing? closes
      have inScript := subtrees_subset member inBody
      rw [Node.allSubtrees_eq_flatMap] at inScript
      obtain ⟨node, isNode, inNode⟩ := List.mem_flatMap.mp inScript
      exact ⟨node, isNode, Node.mem_calledNames inNode⟩

/-- Names of procedures do not start with `@`, and neither do names that are
called, before and after renaming. -/
structure Renaming.Plain (naming : Renaming) (nodes : List Node) : Prop where
  procs : ∀ declaration ∈ Declaration.procs nodes,
    declaration.name.toList.head? ≠ some '@'
  calls : ∀ node ∈ nodes, ∀ name ∈ node.calledNames,
    name.toList.head? ≠ some '@' ∧
      (naming.procs name).toList.head? ≠ some '@'

namespace Renaming.Plain

variable {naming : Renaming} {catalog : Catalog} {nodes : List Node}
  {declaration : Declaration}

theorem name_rename (plain : naming.Plain nodes)
    (member : declaration ∈ Declaration.all nodes) :
    (declaration.rename naming).name = naming.method declaration.name := by
  rw [Declaration.rename, Renaming.method]
  rcases List.mem_append.mp member with isProc | isTrigger
  · rw [Declaration.trigger?_of_mem_procs isProc,
      if_neg (plain.procs declaration isProc)]
    rfl
  · rw [if_pos (Declaration.trigger?_of_mem_triggers isTrigger),
      if_pos (Script.head?_of_mem_triggers isTrigger)]

/-- The method of a renamed declaration. -/
theorem method_eq (plain : naming.Plain nodes)
    (fixes : naming.Fixes catalog)
    (member : declaration ∈ Declaration.all nodes) {place : Nat}
    {method other : Method}
    (yields : declaration.Yields catalog nodes place method)
    (others : (declaration.rename naming).Yields catalog
      (nodes.map (Node.rename naming)) place other) :
    other = method.rename naming := by
  have codes : other.code = method.code := by
    apply Instruction.eq_of_map_nameless
    · rw [others.code, yields.code, Script.address_rename,
        Declaration.namedCode_rename, Node.renameCode, List.map_map]
      apply List.map_congr_left
      rintro ⟨address, named⟩ inCode
      apply Script.instruction_rename fixes
      rintro name types rfl
      obtain ⟨node, isNode, called⟩ :=
        Declaration.mem_calledNames member inCode
      exact plain.calls node isNode name called
    · rw [others.labels, yields.labels, Script.labels_rename]
  have entries : other.entry = method.entry := by
    have entry := others.entry
    rw [Script.labels_rename, yields.entry] at entry
    exact (Option.some.inj entry).symm
  have locals : other.locals =
      method.locals.map (Variable.rename naming) := by
    rw [others.locals, yields.locals, Declaration.signature_rename,
      Variable.number_rename]
  have params : other.params = method.params := by
    rw [others.params, yields.params, Declaration.rename, List.length_map]
  have names : other.name = naming.method method.name := by
    rw [others.name, yields.name, plain.name_rename member]
  have addresses : other.address = method.address := by
    rw [others.address, yields.address, Script.address_rename]
  cases other
  simp only [Method.rename, Method.mk.injEq]
  exact ⟨names, others.index.trans yields.index.symm,
    Array.toList_inj.mp codes, locals, params, entries, addresses⟩

/-- The program of a renamed script. -/
theorem program_eq (plain : naming.Plain nodes)
    (fixes : naming.Fixes catalog) {program renamed : Program}
    (assembled : Program.assemble catalog nodes = .ok program)
    (again : Program.assemble catalog (nodes.map (Node.rename naming)) =
      .ok renamed) :
    renamed = program.rename naming := by
  have constants : renamed.constants = program.constants := by
    rw [(Program.assemble_records again).2,
      (Program.assemble_records assembled).2, Script.constants_rename]
  have methods :
      renamed.methods = program.methods.map (Method.rename naming) := by
    rw [← List.forall₂_eq_eq_eq, List.forall₂_map_right_iff]
    apply forall₂_of_getElem?
    · rw [Program.assemble_length again, Program.assemble_length assembled,
        Declaration.all_rename, List.length_map]
    · intro place other method otherAt methodAt
      obtain ⟨declaration, declared, yields, others⟩ :=
        Program.yields_both assembled again
          (Declaration.all_rename naming nodes) methodAt otherAt
      exact plain.method_eq fixes (List.mem_of_getElem? declared) yields
        others
  have triggers : renamed.triggers = program.triggers := by
    rw [← List.forall₂_eq_eq_eq]
    apply forall₂_of_getElem?
    · rw [Program.assemble_triggers_length again,
        Program.assemble_triggers_length assembled,
        Declaration.triggers_rename, List.length_map]
    · intro number other row otherAt rowAt
      have behind : (Declaration.procs
          (nodes.map (Node.rename naming))).length =
            (Declaration.procs nodes).length := by
        rw [Declaration.procs_rename, List.length_map]
      obtain ⟨declaration, place, enters, others⟩ :=
        Program.enters_both assembled again
          (Declaration.triggers_rename naming 0 nodes) behind rowAt otherAt
      exact others.unique enters rfl (fun _ _ => id)
        (Script.labels_rename naming nodes _)
        (Script.address_rename naming nodes _)
  cases renamed
  simp only [Program.rename, Program.mk.injEq]
  exact ⟨methods, constants, triggers⟩

/-- Renaming does not change the verdict on a script. -/
theorem checkWithTriggers_rename (plain : naming.Plain nodes)
    (fixes : naming.Fixes catalog) :
    Script.checkWithTriggers catalog (nodes.map (Node.rename naming)) =
      naming.outcome id (Script.checkWithTriggers catalog nodes) := by
  rw [← Script.check_eq_checkWithTriggers
      fun node member name called => (plain.calls node member name called).1,
    ← Script.check_eq_checkWithTriggers, Script.check_rename fixes]
  intro node member name called
  obtain ⟨original, isNode, rfl⟩ := List.mem_map.mp member
  rw [Node.calledNames_rename] at called
  obtain ⟨spoken, inOriginal, rfl⟩ := List.mem_map.mp called
  exact (plain.calls original isNode spoken inOriginal).2

end Renaming.Plain

/-- Assembling a renamed script gives the renamed program, or the error about
the renamed name. -/
theorem Program.assemble_rename {catalog : Catalog} {nodes : List Node}
    (naming : Renaming) (fixes : naming.Fixes catalog)
    (plain : naming.Plain nodes) :
    assemble catalog (nodes.map (Node.rename naming)) =
      naming.outcome (Program.rename naming) (assemble catalog nodes) := by
  have verdict := plain.checkWithTriggers_rename fixes
  rcases assemble_outcome catalog nodes with
    ⟨error, failed, found⟩ | ⟨program, assembled, nothing⟩
  · rw [found, Renaming.outcome_error] at verdict
    rw [failed, Renaming.outcome_error]
    rcases assemble_outcome catalog (nodes.map (Node.rename naming)) with
      ⟨other, otherFailed, otherFound⟩ | ⟨renamed, _, accepted⟩
    · rw [verdict] at otherFound
      cases otherFound
      exact otherFailed
    · rw [verdict] at accepted
      cases accepted
  · rw [nothing, Renaming.outcome_ok] at verdict
    obtain ⟨renamed, again⟩ := exists_assemble_iff.mpr verdict
    rw [again, assembled, Renaming.outcome_ok,
      plain.program_eq fixes assembled again]

/-- Two variables change their names, and a procedure gets a new one. -/
def doorNaming : Renaming where
  vars := Equiv.swap "guest" "late"
  procs := Equiv.swap "greet" "welcome"
  vars_injective := Equiv.injective _
  procs_injective := Equiv.injective _

theorem assemble_rename_door :
    doorNaming.Fixes doorCatalog ∧ doorNaming.Plain doorScript ∧
      Program.assemble doorCatalog
          (doorScript.map (Node.rename doorNaming)) =
        .ok (doorProgram.rename doorNaming) ∧
      (doorProgram.rename doorNaming).methods.map Method.name =
        ["welcome", "@knock@2@0"] := by
  have fixes : doorNaming.Fixes doorCatalog := by
    unfold Renaming.Fixes
    decide +kernel
  have plain : doorNaming.Plain doorScript := by
    constructor
    · decide +kernel
    · decide +kernel
  refine ⟨fixes, plain, ?_, by decide +kernel⟩
  rw [Program.assemble_rename doorNaming fixes plain, assemble_door]
  rfl

end TriggerScript
