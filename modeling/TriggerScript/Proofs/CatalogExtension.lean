import TriggerScript.Proofs.Acceptance
import TriggerScript.Proofs.ScriptPrograms

/-!
# Larger catalogs

A host may add functions and listeners behind those it already offers.  What
was found before is still found first, so every script that was accepted is
accepted again, and its program stays the same except for one thing: a call that
went to a procedure goes to a new host function if that function has the name of
the procedure and exactly the types of the arguments.
-/

namespace TriggerScript

namespace Catalog

/-- Functions and listeners added behind those of a catalog. -/
def extend (catalog added : Catalog) : Catalog where
  functions := catalog.functions ++ added.functions
  listeners := catalog.listeners ++ added.listeners

theorem extend_overload? (catalog added : Catalog) (name : String)
    (types : List ValueType) :
    (catalog.extend added).overload? name types =
      (catalog.overload? name types).or (added.overload? name types) :=
  List.find?_append

theorem extend_listener? {catalog : Catalog} (added : Catalog)
    {name : String} {listener : Listener}
    (found : catalog.listener? name = some listener) :
    (catalog.extend added).listener? name = some listener := by
  have appended : (catalog.extend added).listener? name =
      (catalog.listener? name).or (added.listener? name) :=
    List.find?_append
  rw [appended, found, Option.some_or]

end Catalog

/-! ## Acceptance -/

/-- What the first verdict accepts, the second accepts with the same value. -/
def Keeps {ε α : Type} (first second : Except ε α) : Prop :=
  ∀ value, first = .ok value → second = .ok value

namespace Keeps

variable {ε α β : Type}

theorem refl (verdict : Except ε α) : Keeps verdict verdict :=
  fun _ accepted => accepted

theorem of_error (error : ε) (verdict : Except ε α) :
    Keeps (.error error) verdict := by
  intro value accepted
  cases accepted

theorem bind {first second : Except ε α} {next rule : α → Except ε β}
    (keeps : Keeps first second)
    (continues : ∀ value, Keeps (next value) (rule value)) :
    Keeps (first >>= next) (second >>= rule) := by
  intro value accepted
  cases run : first with
  | error error =>
      rw [run] at accepted
      cases accepted
  | ok middle =>
      rw [run] at accepted
      rw [keeps middle run]
      exact continues middle value accepted

theorem map {first second : Except ε α} (keeps : Keeps first second)
    (change : α → β) : Keeps (first.map change) (second.map change) := by
  intro value accepted
  cases run : first with
  | error error =>
      rw [run] at accepted
      cases accepted
  | ok middle =>
      rw [run] at accepted
      rw [keeps middle run]
      exact accepted

end Keeps

namespace Node

variable (catalog added : Catalog) (callable : List String)

theorem checkCall_extend (name : String) (args : List Node)
    (declared : List String) :
    Keeps (checkCall catalog callable name args declared)
      (checkCall (catalog.extend added) callable name args declared) := by
  unfold checkCall
  split
  · exact .refl _
  · dsimp only
    split
    · rename_i resolved
      have again : (∃ native ∈ (catalog.extend added).functions,
          native.name = name ∧
            native.signature = args.filterMap staticType?) ∨
          name ∈ callable := by
        rcases resolved with ⟨native, member, matching⟩ | isMethod
        · exact Or.inl ⟨native, List.mem_append_left _ member, matching⟩
        · exact Or.inr isMethod
      rw [if_pos again]
      exact .refl _
    · exact .of_error _ _

mutual

/-- A body that is accepted stays accepted when the catalog grows. -/
theorem check_extend : (node : Node) → ∀ declared,
    Keeps (node.check catalog callable declared)
      (node.check (catalog.extend added) callable declared)
  | trigger event filter body, declared => by
      rw [check]
      exact .of_error _ _
  | proc name params body, declared => by
      rw [check]
      exact .of_error _ _
  | block statements, declared => by
      rw [check, check]
      exact checkAll_extend statements declared
  | declare type name value, declared => by
      rw [check, check]
      exact (Keeps.refl _).bind fun declared =>
        checkOptional_extend value declared
  | assign name value, declared => by
      rw [check, check]
      exact (Keeps.refl _).bind fun declared => check_extend value declared
  | branch condition thenBranch elseBranch, declared => by
      rw [check, check]
      exact (check_extend condition declared).bind fun declared =>
        (check_extend thenBranch declared).bind fun declared =>
          checkOptional_extend elseBranch declared
  | call name args, declared => by
      rw [check, check]
      exact checkCall_extend catalog added callable name args declared
  | literal value, declared => by
      rw [check, check]
      exact .refl _
  | compare left comparator right, declared => by
      rw [check, check]
      exact (check_extend left declared).bind fun declared =>
        (check_extend right declared).bind fun declared => .refl _
  | var name, declared => by
      rw [check, check]
      exact .refl _

theorem checkAll_extend : (nodes : List Node) → ∀ declared,
    Keeps (checkAll catalog callable nodes declared)
      (checkAll (catalog.extend added) callable nodes declared)
  | [], declared => by
      rw [checkAll, checkAll]
      exact .refl _
  | node :: nodes, declared => by
      rw [checkAll, checkAll]
      exact (check_extend node declared).bind fun declared =>
        checkAll_extend nodes declared

theorem checkOptional_extend : (node : Option Node) → ∀ declared,
    Keeps (checkOptional catalog callable node declared)
      (checkOptional (catalog.extend added) callable node declared)
  | none, declared => by
      rw [checkOptional, checkOptional]
      exact .refl _
  | some node, declared => by
      rw [checkOptional, checkOptional]
      exact check_extend node declared

end

end Node

namespace Script

variable (catalog added : Catalog)

theorem checkDeclaration_extend (callable : List String) (node : Node) :
    Keeps (checkDeclaration catalog callable node)
      (checkDeclaration (catalog.extend added) callable node) := by
  cases node with
  | trigger event filter body =>
      rw [checkDeclaration, checkDeclaration]
      by_cases unknown : ∀ listener ∈ catalog.listeners,
          listener.name ≠ event
      · rw [if_pos unknown]
        exact .of_error _ _
      · have known : ¬ ∀ listener ∈ (catalog.extend added).listeners,
            listener.name ≠ event := by
          intro absent
          apply unknown
          intro listener member
          exact absent listener (List.mem_append_left _ member)
        rw [if_neg unknown, if_neg known]
        by_cases noFilter : ¬ IsFilter filter
        · rw [if_pos noFilter]
          exact .of_error _ _
        · rw [if_neg noFilter, if_neg noFilter]
          exact (Node.check_extend catalog added callable body []).map _
  | proc name params body =>
      rw [checkDeclaration, checkDeclaration]
      exact (Node.check_extend catalog added callable body _).map _
  | block | declare | assign | branch | call | literal | compare | var =>
      exact .of_error _ _

theorem checkFrom_extend (callable : List Node → List String)
    (begun rest : List Node) :
    Keeps (checkFrom catalog callable begun rest)
      (checkFrom (catalog.extend added) callable begun rest) := by
  induction rest generalizing begun with
  | nil =>
      exact .refl _
  | cons node rest inductionHypothesis =>
      rw [checkFrom, checkFrom]
      exact (checkDeclaration_extend catalog added _ node).bind fun _ =>
        inductionHypothesis (begun ++ [node])

theorem checkWithTriggers_extend (nodes : List Node) :
    Keeps (checkWithTriggers catalog nodes)
      (checkWithTriggers (catalog.extend added) nodes) :=
  (Keeps.refl _).bind fun _ => checkFrom_extend catalog added _ [] nodes

end Script

/-! ## Rebound calls -/

/-- What becomes of an instruction when a catalog is extended: it stays, or it
was a call to a method and goes to an added function that has the name and the
argument types of the call, while no function of the old catalog has them. -/
inductive Instruction.Rebound (catalog added : Catalog)
    (named : NamedInstruction) (first second : Instruction) : Prop
  | same (unchanged : second = first)
  | native (name : String) (types : List ValueType)
      (native : Catalog.Function)
      (calls : named = .call name types)
      (unknown : catalog.overload? name types = none)
      (found : added.overload? name types = some native)
      (method : first.opcode = .call)
      (rebound : second =
        { first with opcode := .callNative, i := native.id.toNat })

/-- What becomes of the method of a declaration when a catalog is extended. -/
structure Method.Rebound (catalog added : Catalog)
    (declaration : Declaration) (first second : Method) : Prop where
  frame : second.withoutCode = first.withoutCode
  length : second.code.length = first.code.length
  code : ∀ (position : Nat) (before : Instruction),
    first.code[position]? = some before →
      ∃ named after,
        (declaration.namedCode first.address)[position]? =
            some (before.address, named) ∧
          second.code[position]? = some after ∧
          before.Rebound catalog added named after

theorem Bindings.instruction_label? (left right : Bindings)
    (step : Nat × NamedInstruction) :
    (left.instruction step).label? = (right.instruction step).label? := by
  obtain ⟨address, named⟩ := step
  cases named <;> rfl

namespace Script

variable {catalog : Catalog} {nodes : List Node} {declaration : Declaration}

theorem callee_of_unknown {name : String} {types : List ValueType}
    (unknown : catalog.overload? name types = none) :
    ((bindings catalog nodes declaration).callee name types).1 = .call := by
  simp [Bindings.callee, bindings, unknown]

/-- A call means the same in a larger catalog, unless it is first found among
the added functions. -/
theorem callee_extend (catalog added : Catalog) (nodes : List Node)
    (declaration : Declaration) (name : String) (types : List ValueType) :
    (catalog.overload? name types = none ∧
        ∃ native, added.overload? name types = some native ∧
          (bindings (catalog.extend added) nodes declaration).callee name
            types = (.callNative, native.id.toNat)) ∨
      (bindings (catalog.extend added) nodes declaration).callee name
          types =
        (bindings catalog nodes declaration).callee name types := by
  unfold Bindings.callee bindings
  simp only [catalog.extend_overload? added name types]
  cases catalog.overload? name types with
  | some native =>
      exact Or.inr rfl
  | none =>
      cases added.overload? name types with
      | some native =>
          exact Or.inl ⟨rfl, native, rfl, rfl⟩
      | none =>
          exact Or.inr rfl

/-- An instruction bound against both catalogs. -/
theorem instruction_rebound {added : Catalog} {before after : Instruction}
    {address : Nat} {named : NamedInstruction}
    (old : before.nameless =
      (bindings catalog nodes declaration).instruction (address, named))
    (new : after.nameless =
      (bindings (catalog.extend added) nodes declaration).instruction
        (address, named))
    (labels : after.label? = before.label?) :
    before.Rebound catalog added named after := by
  cases named with
  | call name types =>
      -- Nothing else is looked up in the catalog.
      rw [Bindings.instruction] at old new
      rcases callee_extend catalog added nodes declaration name types with
        ⟨unknown, native, found, callee⟩ | unchanged
      · have opcodeEq := congrArg Instruction.opcode old
        rw [callee_of_unknown unknown] at opcodeEq
        refine .native name types native rfl unknown found opcodeEq ?_
        have kept : Instruction.nameless { before with
              opcode := .callNative, i := native.id.toNat } =
            { before.nameless with
              opcode := .callNative, i := native.id.toNat } := rfl
        refine Instruction.eq_of_nameless ?_ labels
        rw [new, kept, old, callee]
      · apply Instruction.Rebound.same
        apply Instruction.eq_of_nameless _ labels
        rw [new, old, unchanged]
  | push | get | set | equal | jump | jumpIfZero | ret | marker =>
      apply Instruction.Rebound.same
      exact Instruction.eq_of_nameless (new.trans old.symm) labels

end Script

namespace Declaration.Yields

variable {catalog other : Catalog} {nodes : List Node} {place : Nat}
  {declaration : Declaration} {method twin : Method}

/-- Only code depends on the catalog. -/
theorem withoutCode_eq
    (yields : declaration.Yields catalog nodes place method)
    (others : declaration.Yields other nodes place twin) :
    twin.withoutCode = method.withoutCode := by
  have entries : twin.entry = method.entry := by
    have entry := others.entry
    rw [yields.entry] at entry
    exact (Option.some.inj entry).symm
  simp only [Method.withoutCode, Method.mk.injEq, true_and]
  exact ⟨others.name.trans yields.name.symm,
    others.index.trans yields.index.symm,
    others.locals.trans yields.locals.symm,
    others.params.trans yields.params.symm, entries,
    others.address.trans yields.address.symm⟩

/-- Labels do not depend on the catalog. -/
theorem labels_eq
    (yields : declaration.Yields catalog nodes place method)
    (others : declaration.Yields other nodes place twin) :
    List.Forall₂ (fun before after => after.label? = before.label?)
      method.code twin.code := by
  have sketches : List.Forall₂
      (fun before after : Instruction => before.label? = after.label?)
      (method.code.map Instruction.nameless)
      (twin.code.map Instruction.nameless) := by
    rw [yields.code, others.code, List.forall₂_map_left_iff,
      List.forall₂_map_right_iff, List.forall₂_same]
    intro step _
    exact Bindings.instruction_label? _ _ step
  have each := Instruction.forall₂_labels
    (fun _ _ same => congrArg Option.isSome same) sketches
    (yields.labels.trans others.labels.symm)
  exact each.imp fun _ _ same => same.2.symm

theorem rebound {added : Catalog}
    (yields : declaration.Yields catalog nodes place method)
    (others : declaration.Yields (catalog.extend added) nodes place twin) :
    method.Rebound catalog added declaration twin := by
  have lengths : twin.code.length = method.code.length := by
    rw [yields.length_code, others.length_code]
  refine ⟨yields.withoutCode_eq others, lengths, ?_⟩
  intro position before found
  have bound := (List.getElem?_eq_some_iff.mp found).1
  obtain ⟨after, afterAt⟩ : ∃ after, twin.code[position]? = some after :=
    ⟨_, List.getElem?_eq_getElem (lengths ▸ bound)⟩
  obtain ⟨named, namedAt, old⟩ := yields.named_at found
  obtain ⟨again, againAt, new⟩ := others.named_at afterAt
  rw [namedAt, Option.some.injEq, Prod.mk.injEq] at againAt
  obtain ⟨addresses, rfl⟩ := againAt
  rw [← addresses] at new
  have labels := (yields.labels_eq others).get bound
    (List.getElem?_eq_some_iff.mp afterAt).1
  simp only [List.get_eq_getElem, (List.getElem?_eq_some_iff.mp found).2,
    (List.getElem?_eq_some_iff.mp afterAt).2] at labels
  rw [← yields.address] at namedAt
  exact ⟨named, after, namedAt, afterAt,
    Script.instruction_rebound old new labels⟩

end Declaration.Yields

/-! ## Conservative extension -/

/-- A script that is accepted is accepted under every larger catalog, and its
program stays the same except for calls that are rebound to added functions. -/
theorem Program.assemble_extend {catalog : Catalog} {nodes : List Node}
    {program : Program} (added : Catalog)
    (assembled : assemble catalog nodes = .ok program) :
    ∃ extended, assemble (catalog.extend added) nodes = .ok extended ∧
      extended.constants = program.constants ∧
      extended.triggers = program.triggers ∧
      extended.methods.length = program.methods.length ∧
      ∀ (place : Nat) (method : Method),
        program.methods[place]? = some method →
          ∃ declaration other,
            (Declaration.all nodes)[place]? = some declaration ∧
              extended.methods[place]? = some other ∧
              method.Rebound catalog added declaration other := by
  have accepted : Script.checkWithTriggers catalog nodes = .ok () :=
    exists_assemble_iff.mp ⟨program, assembled⟩
  obtain ⟨extended, again⟩ := exists_assemble_iff.mpr
    (Script.checkWithTriggers_extend catalog added nodes () accepted)
  have lengths : extended.methods.length = program.methods.length := by
    rw [assemble_length again, assemble_length assembled]
  refine ⟨extended, again, ?_, ?_, lengths, ?_⟩
  · rw [(assemble_records again).2, (assemble_records assembled).2]
  · rw [← List.forall₂_eq_eq_eq]
    apply forall₂_of_getElem?
    · rw [assemble_triggers_length again, assemble_triggers_length assembled]
    · intro number row old rowAt oldAt
      obtain ⟨declaration, place, enters, others⟩ :=
        enters_both assembled again (List.map_id _).symm rfl oldAt rowAt
      exact (enters.unique others rfl
        (fun _ _ => Catalog.extend_listener? added) rfl rfl).symm
  · intro place method found
    have bound := (List.getElem?_eq_some_iff.mp found).1
    obtain ⟨other, otherAt⟩ : ∃ other,
        extended.methods[place]? = some other :=
      ⟨_, List.getElem?_eq_getElem (lengths ▸ bound)⟩
    obtain ⟨declaration, declared, yields, others⟩ :=
      yields_both assembled again (List.map_id _).symm found otherAt
    exact ⟨declaration, other, declared, otherAt, yields.rebound others⟩

/-- A function with the name and the parameter of a procedure, and one more
listener. -/
def doorAddition : Catalog where
  functions := [⟨.void, "greet", [⟨.string, "guest"⟩], 9⟩]
  listeners := [⟨"ring", [], 4⟩]

theorem assemble_extend_door :
    Program.assemble doorCatalog doorScript = .ok doorProgram ∧
      ∃ extended,
        Program.assemble (doorCatalog.extend doorAddition) doorScript =
            .ok extended ∧
          extended.constants = doorProgram.constants ∧
          extended.triggers = doorProgram.triggers ∧
          extended.methods.length = doorProgram.methods.length ∧
          ∀ (place : Nat) (method : Method),
            doorProgram.methods[place]? = some method →
              ∃ declaration other,
                (Declaration.all doorScript)[place]? = some declaration ∧
                  extended.methods[place]? = some other ∧
                  method.Rebound doorCatalog doorAddition declaration
                    other :=
  ⟨assemble_door, Program.assemble_extend doorAddition assemble_door⟩

-- The one call to a procedure is rebound.
example : doorProgram.code.countP (fun step => step.opcode = .call) = 1 ∧
    (Program.assemble (doorCatalog.extend doorAddition)
      doorScript).toOption.map (fun extended =>
        extended.code.countP fun step => step.opcode = .call) = some 0 := by
  decide +kernel

end TriggerScript
