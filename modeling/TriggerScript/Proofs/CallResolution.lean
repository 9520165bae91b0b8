import TriggerScript.Proofs.CatalogFormat
import TriggerScript.Proofs.TriggerIsolation
import TriggerScript.Proofs.Visits

/-!
# What calls lead to

The types of literals are known, so a call with literals for arguments picks a
host function by its name and the exact types of its parameters.  The first
such function is meant, and its number leads back to it, because no number is
given twice in a catalog.  Only if there is none, the call goes to a procedure,
which may be declared further down.

The values of the arguments are pushed in order before the call.  Their
constants stay at their places until the program is finished.
-/

namespace TriggerScript

/-! ## Host functions -/

namespace Catalog

/-- A function with a name and with exactly these types of parameters. -/
def Function.Fits (function : Function) (name : String)
    (types : List ValueType) : Prop :=
  function.name = name ∧ function.params.map Parameter.type = types

variable {catalog : Catalog} {name : String} {types : List ValueType}

theorem Function.fits_iff {function : Function} :
    (function.name == name && function.signature == types) = true ↔
      function.Fits name types := by
  simp [Fits, signature]

/-- The function that a call means is the first that fits. -/
theorem overload?_eq_some_iff {function : Function} :
    catalog.overload? name types = some function ↔
      function.Fits name types ∧
        ∃ first behind, catalog.functions = first ++ function :: behind ∧
          ∀ earlier ∈ first, ¬ earlier.Fits name types := by
  rw [overload?, List.find?_eq_some_iff_append]
  simp only [Bool.not_eq_true', ← Bool.not_eq_true, Function.fits_iff]

theorem overload?_eq_none_iff :
    catalog.overload? name types = none ↔
      ∀ function ∈ catalog.functions, ¬ function.Fits name types := by
  rw [overload?, List.find?_eq_none]
  simp only [Function.fits_iff]

/-- Without repeated numbers, a function is found by its number. -/
theorem Distinct.functionOfId?_eq (distinct : catalog.Distinct)
    {function : Function} (member : function ∈ catalog.functions) :
    catalog.functionOfId? function.id = some function := by
  cases found : catalog.functionOfId? function.id with
  | none =>
      have different := List.find?_eq_none.mp found function member
      exact absurd (beq_self_eq_true function.id) different
  | some other =>
      have sameId : other.id = function.id := by
        simpa using List.find?_some found
      have otherMember : other ∈ catalog.functions :=
        List.mem_of_find?_eq_some found
      rw [List.inj_on_of_nodup_map distinct.functions otherMember member
        sameId]

theorem WritesParameters.type_mem {text : List Char}
    {params : List Parameter} (written : WritesParameters text params) :
    ∀ param ∈ params, param.type ∈ [ValueType.int, .string, .bool] := by
  induction written with
  | single writes =>
      cases writes with
      | mk known =>
          simpa using known
  | cons writes _ inductionHypothesis =>
      cases writes with
      | mk known =>
          exact List.forall_mem_cons.mpr ⟨known, inductionHypothesis⟩

/-- No function that can be declared takes a `long`. -/
theorem Declares.long_notMem {line : List Char} {function : Function}
    (declares : Declares line (.function function)) :
    ValueType.long ∉ function.params.map Parameter.type := by
  cases declares with
  | mk kind _ _ signature =>
      cases kind with
      | function _ =>
          cases signature with
          | mk _ _ inner =>
              cases inner with
              | blank _ =>
                  exact List.not_mem_nil
              | written written =>
                  intro member
                  obtain ⟨param, inParams, isLong⟩ := List.mem_map.mp member
                  have known := written.type_mem param inParams
                  rw [isLong] at known
                  exact absurd known (by decide)

theorem exists_declares {lines : List (List Char)} {entries : List Entry}
    (declared : List.Forall₂ Declares lines entries) :
    ∀ entry ∈ entries, ∃ line, Declares line entry := by
  induction declared with
  | nil =>
      exact List.forall_mem_nil _
  | cons declares _ inductionHypothesis =>
      exact List.forall_mem_cons.mpr ⟨⟨_, declares⟩, inductionHypothesis⟩

/-- In a catalog that was read from a description no number is given twice and
no function takes a `long`. -/
theorem distinct_of_parse {text : String}
    (described : parse text = .ok catalog) :
    catalog.Distinct ∧ ∀ function ∈ catalog.functions,
      ValueType.long ∉ function.params.map Parameter.type := by
  have start : (ofEntries []).Distinct := ⟨List.nodup_nil, List.nodup_nil⟩
  obtain ⟨entries, declared, distinct, rfl⟩ :=
    (insertLines_eq_ok_iff start).mp described
  refine ⟨distinct, ?_⟩
  intro function member
  obtain ⟨entry, inEntries, isFunction⟩ := List.mem_filterMap.mp member
  obtain ⟨line, declares⟩ := exists_declares declared entry inEntries
  cases entry with
  | listener listener =>
      cases isFunction
  | function other =>
      cases isFunction
      exact declares.long_notMem

end Catalog

/-! ## Arguments -/

def Instruction.push (place : Nat) : Instruction :=
  { opcode := .pushConst, i := place }

/-- The constants at these places are those of the values. -/
def Literal.PlacedAt (constants : List Constant) (places : List Nat)
    (values : List Literal) : Prop :=
  List.Forall₂ (fun place value =>
    constants[place]? = some (.ofLiteral value)) places values

theorem getElem?_of_kept {constants more : List Constant} {place : Nat}
    {constant : Constant} (kept : constants <+: more)
    (found : constants[place]? = some constant) :
    more[place]? = some constant := by
  obtain ⟨added, rfl⟩ := kept
  obtain ⟨bound, _⟩ := List.getElem?_eq_some_iff.mp found
  rw [List.getElem?_append_left bound, found]

theorem Literal.PlacedAt.mono {constants more : List Constant}
    {places : List Nat} {values : List Literal}
    (placed : PlacedAt constants places values)
    (kept : constants <+: more) : PlacedAt more places values := by
  refine List.Forall₂.imp ?_ placed
  intro place value found
  exact getElem?_of_kept kept found

namespace Node

variable {scope : Scope} {values : List Literal} {before after : Draft}

theorem argumentTypes_literals {callee : String} {position : Nat}
    {types : List ValueType}
    (typed : argumentTypes callee position (values.map literal) =
      .ok types) :
    types = values.map Literal.type := by
  have known := argumentTypes_spec typed
  rw [List.map_map] at known
  apply List.map_injective_iff.mpr fun _ _ => Option.some.inj
  rw [← known, List.map_map]
  rfl

/-- Literals are pushed one after the other. -/
theorem assembleAll_literals
    (run : assembleAll scope (values.map literal) before = .ok () after) :
    ∃ places,
      after.method.instructions.toList =
          before.method.instructions.toList ++
            places.map Instruction.push ∧
        Literal.PlacedAt after.tables.constants.entries places values := by
  induction values generalizing before with
  | nil =>
      rw [List.map_nil, assembleAll] at run
      obtain ⟨_, rfl⟩ := pure_eq_ok.mp run
      exact ⟨[], (List.append_nil _).symm, .nil⟩
  | cons value rest inductionHypothesis =>
      rw [List.map_cons, assembleAll] at run
      obtain ⟨_, middle, pushRun, restRun⟩ := bind_eq_ok.mp run
      rw [assemble] at pushRun
      obtain ⟨place, grows, _, member, placeEq⟩ :=
        DraftM.pushLiteral_grows pushRun
      obtain ⟨places, code, placed⟩ := inductionHypothesis restRun
      have found : middle.tables.constants.entries[place]? =
          some (.ofLiteral value) := by
        rw [placeEq]
        exact List.getElem?_idxOf member
      have kept := (assembleAll_leaves scope (rest.map literal)).keeps
        middle () after restRun
      refine ⟨place :: places, ?_, .cons (getElem?_of_kept kept found)
        placed⟩
      rw [code, grows.instructions, List.append_assoc]
      rfl

/-- A call pushes its arguments and ends with one instruction. -/
theorem assemble_call_literals {name : String}
    (run : (call name (values.map literal)).assemble scope before =
      .ok () after) :
    ∃ places instruction,
      scope.resolveCall name (values.map Literal.type) =
          .ok instruction ∧
        after.method.instructions.toList =
          before.method.instructions.toList ++
            (places.map Instruction.push ++ [instruction]) ∧
        Literal.PlacedAt after.tables.constants.entries places values := by
  rw [assemble] at run
  obtain ⟨types, _, typing, run⟩ := bind_eq_ok.mp run
  obtain ⟨typed, rfl⟩ := liftExcept_eq_ok.mp typing
  obtain ⟨instruction, _, resolving, run⟩ := bind_eq_ok.mp run
  obtain ⟨resolved, rfl⟩ := liftExcept_eq_ok.mp resolving
  obtain ⟨_, pushed, argsRun, emitted⟩ := bind_eq_ok.mp run
  obtain ⟨places, code, placed⟩ := assembleAll_literals argsRun
  rw [argumentTypes_literals typed] at resolved
  refine ⟨places, instruction, resolved, ?_, ?_⟩
  · cases emitted
    rw [← List.append_assoc, ← code]
    exact Array.toList_push
  · exact placed.mono (DraftM.emit_keeps instruction _ () after emitted)

end Node

/-! ## Procedures -/

namespace Script

/-- The number leads to a procedure of the script, and no other method has
its name. -/
structure OnlyProc (nodes : List Node) (methods : List String)
    (name : String) (index : Nat) : Prop where
  declared : ∃ params body, .proc name params body ∈ nodes ∧
    (Declaration.procs nodes)[index]? = some ⟨name, params, body, none⟩
  named : methods[index]? = some name
  unique : ∀ other, methods[other]? = some name → other = index

variable {nodes : List Node} {name : String} {index : Nat}

/-- Triggers do not get in the way of a name without `@` in front. -/
theorem onlyProc_of_getElem?
    (distinct : ((Declaration.procs nodes).map Declaration.name).Nodup)
    (plain : name.toList.head? ≠ some '@')
    (named : ((Declaration.procs nodes).map Declaration.name)[index]? =
      some name) (met : List Node) :
    OnlyProc nodes ((Declaration.procs nodes).map Declaration.name ++
      Declaration.triggerNames met) name index where
  declared := by
    rw [List.getElem?_map, Option.map_eq_some_iff] at named
    obtain ⟨declared, found, rfl⟩ := named
    have member : declared ∈ Declaration.procs nodes :=
      List.mem_of_getElem? found
    have noTrigger := Declaration.trigger?_of_mem_procs member
    refine ⟨declared.params, declared.body,
      Declaration.node_of_mem_procs member, ?_⟩
    rw [found, ← noTrigger]
  named := by
    obtain ⟨bound, _⟩ := List.getElem?_eq_some_iff.mp named
    rw [List.getElem?_append_left bound, named]
  unique := by
    intro other otherNamed
    by_cases bound : other < ((Declaration.procs nodes).map
        Declaration.name).length
    · rw [List.getElem?_append_left bound, ← named] at otherNamed
      exact (List.getElem?_inj bound distinct).mp otherNamed
    · rw [List.getElem?_append_right (Nat.le_of_not_lt bound)]
        at otherNamed
      exact absurd (List.mem_of_getElem? otherNamed)
        (notMem_triggers_of_head? plain 0 met)

theorem getElem?_procs_of_idxOf? {procs : List String} {met : List Node}
    (plain : name.toList.head? ≠ some '@')
    (found : (procs ++ Declaration.triggerNames met).idxOf? name =
      some index) :
    procs[index]? = some name := by
  have known : name ∈ procs ++ Declaration.triggerNames met :=
    List.isSome_idxOf?.mp (by rw [found]; rfl)
  rw [idxOf?_eq_some_idxOf known, Option.some.injEq] at found
  rcases List.mem_append.mp known with isProc | isTrigger
  · rw [← found, List.idxOf_append_of_mem isProc]
    exact List.getElem?_idxOf isProc
  · exact absurd isTrigger (notMem_triggers_of_head? plain 0 met)

/-- A call that no host function fits goes to a procedure. -/
theorem Visits.onlyProc {catalog : Catalog} {scope : Scope} {inner : Node}
    {draft : Draft} {types : List ValueType} {instruction : Instruction}
    (visits : Visits catalog nodes scope inner draft)
    (plain : name.toList.head? ≠ some '@')
    (unfit : catalog.overload? name types = none)
    (resolved : scope.resolveCall name types = .ok instruction) :
    ∃ index, instruction = { opcode := .call, i := index } ∧
      OnlyProc nodes scope.methods name index ∧
      ∀ program, Program.assemble catalog nodes = .ok program →
        OnlyProc nodes (program.methods.map Method.name) name index := by
  obtain ⟨catalogEq, distinct, met, methodsEq⟩ := visits.methods_eq
  rw [Scope.resolveCall, catalogEq, unfit] at resolved
  cases found : scope.methods.idxOf? name with
  | none =>
      rw [found] at resolved
      cases resolved
  | some index =>
      rw [found] at resolved
      cases resolved
      rw [methodsEq] at found ⊢
      have named := getElem?_procs_of_idxOf? plain found
      refine ⟨index, rfl, onlyProc_of_getElem? distinct plain named met, ?_⟩
      intro program made
      obtain ⟨_, _, _, linked⟩ := Program.assemble_linked made
      rw [linked.methodNames_eq, Declaration.all, List.map_append]
      exact onlyProc_of_getElem? distinct plain named nodes

end Script

/-- A call with literals for arguments, wherever assembling a script has come
to.  Its arguments are pushed in order; then comes the first host function
that fits, by a number that leads back to it, and otherwise the only procedure
of that name. -/
theorem Script.Visits.call_resolved {text : String} {catalog : Catalog}
    {nodes : List Node} {scope : Scope} {inner : Node}
    {draft after : Draft} {name : String} {values : List Literal}
    (described : Catalog.parse text = .ok catalog)
    (visits : Script.Visits catalog nodes scope inner draft)
    (plain : name.toList.head? ≠ some '@')
    (assembled : (Node.call name (values.map .literal)).assemble scope
      draft = .ok () after) :
    ∃ places instruction,
      after.method.instructions.toList =
          draft.method.instructions.toList ++
            (places.map Instruction.push ++ [instruction]) ∧
        Literal.PlacedAt after.tables.constants.entries places values ∧
        ((∃ function ∈ catalog.functions,
            function.Fits name (values.map Literal.type)) →
          ∃ first function behind,
            catalog.functions = first ++ function :: behind ∧
              function.Fits name (values.map Literal.type) ∧
              (∀ earlier ∈ first,
                ¬ earlier.Fits name (values.map Literal.type)) ∧
              instruction =
                { opcode := .callNative, i := function.id.toNat } ∧
              catalog.functionOfId? (UInt32.ofNat instruction.i) =
                some function) ∧
        ((∀ function ∈ catalog.functions,
            ¬ function.Fits name (values.map Literal.type)) →
          ∃ index, instruction = { opcode := .call, i := index } ∧
            OnlyProc nodes scope.methods name index ∧
            ∀ program, Program.assemble catalog nodes = .ok program →
              OnlyProc nodes (program.methods.map Method.name) name
                index) ∧
        ((∃ number, .long number ∈ values) →
          instruction.opcode = .call) ∧
        ∀ program, Program.assemble catalog nodes = .ok program →
          inner = .call name (values.map .literal) →
            Literal.PlacedAt program.constants places values := by
  obtain ⟨distinct, shortTypes⟩ := Catalog.distinct_of_parse described
  obtain ⟨places, instruction, resolved, code, placed⟩ :=
    Node.assemble_call_literals assembled
  have toProc : (∀ function ∈ catalog.functions,
      ¬ function.Fits name (values.map Literal.type)) →
        ∃ index, instruction = { opcode := .call, i := index } ∧
          OnlyProc nodes scope.methods name index ∧
          ∀ program, Program.assemble catalog nodes = .ok program →
            OnlyProc nodes (program.methods.map Method.name) name index :=
    fun unfit => visits.onlyProc plain
      (Catalog.overload?_eq_none_iff.mpr unfit) resolved
  rw [Scope.resolveCall, visits.methods_eq.1] at resolved
  refine ⟨places, instruction, code, placed, ?_, toProc, ?_, ?_⟩
  · rintro ⟨function, member, fits⟩
    cases overload : catalog.overload? name (values.map Literal.type) with
    | none =>
        exact absurd fits
          (Catalog.overload?_eq_none_iff.mp overload function member)
    | some native =>
        rw [overload] at resolved
        cases resolved
        obtain ⟨nativeFits, first, behind, split, earlier⟩ :=
          Catalog.overload?_eq_some_iff.mp overload
        have nativeMember : native ∈ catalog.functions := by
          rw [split]
          exact List.mem_append_right first List.mem_cons_self
        refine ⟨first, native, behind, split, nativeFits, earlier, rfl, ?_⟩
        rw [UInt32.ofNat_toNat]
        exact distinct.functionOfId?_eq nativeMember
  · rintro ⟨number, member⟩
    have unfit : ∀ function ∈ catalog.functions,
        ¬ function.Fits name (values.map Literal.type) := by
      intro function inCatalog fits
      apply shortTypes function inCatalog
      rw [fits.2]
      exact List.mem_map_of_mem member
    obtain ⟨index, rfl, _⟩ := toProc unfit
    rfl
  · intro program made isCall
    obtain ⟨next, run, kept⟩ := visits.assembled made
    rw [isCall, assembled] at run
    cases run
    exact placed.mono kept

/-- Where the door script greets the dog, the procedure is still to come. -/
theorem call_resolved_greet :
    ∃ (scope : Scope) (draft after : Draft) (places : List Nat),
      Script.Visits doorCatalog doorScript scope
          (.call "greet" [.literal (.string "dog")]) draft ∧
        after.method.instructions.toList =
          draft.method.instructions.toList ++
            (places.map Instruction.push ++
              [{ opcode := .call, i := 0 }]) ∧
        Literal.PlacedAt doorProgram.constants places [.string "dog"] := by
  have described : Catalog.parse
      "void open(int door) -> 7;\nlistener knock() -> 3;" =
        .ok doorCatalog := by
    decide +kernel
  obtain ⟨scope, draft, visits⟩ : ∃ scope draft,
      Script.Visits doorCatalog doorScript scope
        (.call "greet" [.literal (.string "dog")]) draft :=
    Script.Visits.of_assemble assemble_door
      (by simp [doorScript, Node.allSubtrees, Node.subtrees])
      (by simp [doorScript])
  obtain ⟨after, assembled, _⟩ := visits.assembled assemble_door
  have greeted : (Node.call "greet"
      ([Literal.string "dog"].map .literal)).assemble scope draft =
        .ok () after :=
    assembled
  obtain ⟨places, instruction, code, _, _, toProc, _, placed⟩ :=
    Script.Visits.call_resolved described visits (by decide) greeted
  have unfit : ∀ function ∈ doorCatalog.functions,
      ¬ function.Fits "greet" [.string] := by
    intro function member fits
    rw [List.mem_singleton.mp member] at fits
    exact absurd fits.1 (by decide)
  obtain ⟨index, rfl, _, only⟩ := toProc unfit
  have isFirst : 0 = index :=
    (only doorProgram assemble_door).unique 0 (by decide)
  subst isFirst
  exact ⟨scope, draft, after, places, visits, code,
    placed doorProgram assemble_door rfl⟩

end TriggerScript
