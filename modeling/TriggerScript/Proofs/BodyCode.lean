import TriggerScript.Proofs.Symbols

/-!
# The code of bodies

Assembling a tree only lengthens the draft of its method and the tables that
all methods share.  What it appends is the symbolic code of the tree:

* the instructions are those of the symbols, with empty branches;
* the patches are those of the symbols, at their places in the method;
* the operands stay right under all bindings that extend the final draft.
-/

namespace TriggerScript

/-! ## Successful steps -/

section Steps

variable {ε σ α β : Type} {before after : σ}

theorem bind_eq_ok {first : EStateM ε σ α} {next : α → EStateM ε σ β}
    {result : β} :
    (first >>= next) before = .ok result after ↔
      ∃ value middle,
        first before = .ok value middle ∧
          next value middle = .ok result after := by
  change EStateM.bind first next before = _ ↔ _
  unfold EStateM.bind
  cases first before with
  | ok value middle =>
      constructor
      · intro run
        exact ⟨value, middle, rfl, run⟩
      · rintro ⟨_, _, equality, run⟩
        cases equality
        exact run
  | error error middle =>
      simp

/-- Work that goes on behind a step that succeeds. -/
theorem bind_eq_of_ok {first : EStateM ε σ α} {next : α → EStateM ε σ β}
    {middle : σ} {value : α} (step : first before = .ok value middle) :
    (first >>= next) before = next value middle := by
  change EStateM.bind first next before = _
  rw [EStateM.bind, step]

theorem pure_eq_ok {value result : α} :
    (pure value : EStateM ε σ α) before = .ok result after ↔
      value = result ∧ before = after := by
  change EStateM.Result.ok value before = _ ↔ _
  rw [EStateM.Result.ok.injEq]

theorem throw_ne_ok {error : ε} {result : α} :
    (throw error : EStateM ε σ α) before ≠ .ok result after := by
  intro run
  cases run

theorem liftExcept_eq_ok {outcome : Except ε α} {result : α} :
    (liftExcept outcome : EStateM ε σ α) before = .ok result after ↔
      outcome = .ok result ∧ before = after := by
  cases outcome with
  | error error =>
      exact ⟨fun run => absurd run throw_ne_ok, fun run => by cases run.1⟩
  | ok value =>
      rw [Except.ok.injEq]
      exact pure_eq_ok

end Steps

/-! ## Growth of drafts -/

def Method.heading (method : Method) : Method :=
  { method with instructions := #[], locals := [] }

def Method.localNames (method : Method) : List String :=
  method.locals.map Variable.name

/-- Variables are numbered in order and no two have the same name. -/
structure Method.Numbered (method : Method) : Prop where
  index : method.locals.map Variable.index =
    List.range method.locals.length
  distinct : method.localNames.Nodup

/-- `before.Grows after code` says that a draft was lengthened by symbolic
code, and perhaps by variables and constants. -/
structure Draft.Grows (before after : Draft) (code : List Symbol) :
    Prop where
  heading : after.method.heading = before.method.heading
  instructions : after.method.instructions.toList =
    before.method.instructions.toList ++ code.map Symbol.draft
  locals : before.method.locals <+: after.method.locals
  numbered : before.method.Numbered → after.method.Numbered
  constants : before.tables.constants.entries <+:
    after.tables.constants.entries
  patches : after.tables.patches.toList =
    before.tables.patches.toList ++
      Symbol.patches before.method.index
        before.method.instructions.size code

namespace Draft.Grows

variable {before middle after : Draft} {first second : List Symbol}

/-- Whatever does not depend on code and variables stays the same. -/
theorem field_eq {α : Type} (grows : before.Grows after first)
    (field : Method → α)
    (ignored : ∀ method : Method,
      field method.heading = field method) :
    field after.method = field before.method := by
  rw [← ignored after.method, grows.heading, ignored]

theorem refl (draft : Draft) : draft.Grows draft [] where
  heading := rfl
  instructions := (List.append_nil _).symm
  locals := List.prefix_rfl
  numbered := id
  constants := List.prefix_rfl
  patches := (List.append_nil _).symm

theorem trans (grows : before.Grows middle first)
    (further : middle.Grows after second) :
    before.Grows after (first ++ second) where
  heading := further.heading.trans grows.heading
  instructions := by
    rw [further.instructions, grows.instructions, List.map_append,
      List.append_assoc]
  locals := grows.locals.trans further.locals
  numbered := fun numbered => further.numbered (grows.numbered numbered)
  constants := grows.constants.trans further.constants
  patches := by
    have sizeEq : middle.method.instructions.size =
        before.method.instructions.size + first.length := by
      rw [← Array.length_toList, grows.instructions,
        List.length_append, List.length_map, Array.length_toList]
    have indexEq : middle.method.index = before.method.index :=
      grows.field_eq Method.index fun _ => rfl
    rw [further.patches, grows.patches, indexEq, sizeEq,
      Symbol.patches_append, List.append_assoc]

end Draft.Grows

/-- Bindings agree with everything that a draft and its scope know so
far. -/
structure Bindings.Covers (bindings : Bindings) (scope : Scope)
    (draft : Draft) : Prop where
  catalog : bindings.catalog = scope.catalog
  methods : scope.methods <+: bindings.methods
  constants : draft.tables.constants.entries <+: bindings.constants
  locals : draft.method.localNames <+: bindings.locals

theorem Bindings.Covers.of_grows {bindings : Bindings} {scope : Scope}
    {before after : Draft} {code : List Symbol}
    (covers : bindings.Covers scope after)
    (grows : before.Grows after code) :
    bindings.Covers scope before where
  catalog := covers.catalog
  methods := covers.methods
  constants := grows.constants.trans covers.constants
  locals := (grows.locals.map Variable.name).trans covers.locals

/-- A draft grows by the symbolic code of some trees. -/
structure Draft.Assembles (scope : Scope) (nodes : List Node)
    (before after : Draft) (code : List Symbol) : Prop where
  grows : before.Grows after code
  emits : ∀ bindings, bindings.Covers scope after →
    Emits bindings nodes before.tables.nextLabel code
      after.tables.nextLabel

/-! ## Single steps -/

namespace DraftM

variable {before after : Draft}

/-- Appending the instruction of a symbol that needs no patch. -/
theorem emit_grows {symbol : Symbol}
    (unpatched : ∀ method position,
      Symbol.patches method position [symbol] = [])
    (run : emit symbol.draft before = .ok () after) :
    before.Grows after [symbol] ∧
      after.tables.nextLabel = before.tables.nextLabel := by
  cases run
  refine ⟨?_, rfl⟩
  constructor
  · rfl
  · simp [Method.emit]
  · exact List.prefix_rfl
  · exact fun numbered => ⟨numbered.index, numbered.distinct⟩
  · exact List.prefix_rfl
  · rw [unpatched, List.append_nil]
    rfl

theorem emitWith_grows {opcode : Opcode} {operand : Nat}
    (run : emitWith opcode operand before = .ok () after) :
    before.Grows after [.op opcode operand] ∧
      after.tables.nextLabel = before.tables.nextLabel :=
  emit_grows (fun _ _ => rfl) run

theorem emitMarker_grows {label : Nat}
    (run : emitMarker label before = .ok () after) :
    before.Grows after [.marker label] ∧
      after.tables.nextLabel = before.tables.nextLabel :=
  emit_grows (fun _ _ => rfl) run

theorem emitBranch_grows {opcode : Opcode} {label : Nat}
    (run : emitBranch opcode label before = .ok () after) :
    before.Grows after [.branch opcode label] ∧
      after.tables.nextLabel = before.tables.nextLabel := by
  cases run
  refine ⟨?_, rfl⟩
  constructor
  · rfl
  · simp [Method.emit, Symbol.draft]
  · exact List.prefix_rfl
  · exact fun numbered => ⟨numbered.index, numbered.distinct⟩
  · exact List.prefix_rfl
  · simp [Symbol.patches, Method.emit, Tables.log]

theorem newLabel_grows {label : Nat}
    (run : newLabel before = .ok label after) :
    before.Grows after [] ∧ label = before.tables.nextLabel ∧
      after.tables.nextLabel = before.tables.nextLabel + 1 := by
  cases run
  refine ⟨?_, rfl, rfl⟩
  constructor
  · rfl
  · simp
  · exact List.prefix_rfl
  · exact id
  · exact List.prefix_rfl
  · simp [Symbol.patches]

end DraftM

/-- Interning only appends, and gives the place of the constant. -/
theorem ConstantPool.intern_spec (pool : ConstantPool)
    (constant : Constant) :
    pool.entries <+: (pool.intern constant).2.entries ∧
      constant ∈ (pool.intern constant).2.entries ∧
      (pool.intern constant).1 =
        (pool.intern constant).2.entries.idxOf constant := by
  unfold intern
  cases found : pool.entries.idxOf? constant with
  | some index =>
      refine ⟨List.prefix_rfl, ?_, ?_⟩
      · exact List.isSome_idxOf?.mp (by rw [found]; rfl)
      · simp [List.idxOf_eq_getD_idxOf?, found]
  | none =>
      have absent : constant ∉ pool.entries :=
        List.idxOf?_eq_none_iff.mp found
      refine ⟨List.prefix_append _ _, by simp, ?_⟩
      simp [List.idxOf_append_of_notMem absent, ConstantPool.size]

namespace DraftM

variable {before after : Draft}

theorem pushLiteral_grows {literal : Literal}
    (run : pushLiteral literal before = .ok () after) :
    ∃ index,
      before.Grows after [.op .pushConst index] ∧
        after.tables.nextLabel = before.tables.nextLabel ∧
        .ofLiteral literal ∈ after.tables.constants.entries ∧
        index =
          after.tables.constants.entries.idxOf (.ofLiteral literal) := by
  obtain ⟨index, middle, interned, emitted⟩ := bind_eq_ok.mp run
  obtain ⟨spec, member, place⟩ :=
    before.tables.constants.intern_spec (.ofLiteral literal)
  have interning : before.Grows middle [] := by
    cases interned
    constructor
    · rfl
    · simp
    · exact List.prefix_rfl
    · exact id
    · exact spec
    · simp [Symbol.patches]
  cases interned
  obtain ⟨emission, labels⟩ := emitWith_grows emitted
  cases emitted
  exact ⟨_, interning.trans emission, labels, member, place⟩

end DraftM

namespace Method

/-- The number of a variable is the place of its name. -/
theorem index_of_variableNamed? {method : Method} {name : String}
    {found : Variable} (numbered : method.Numbered)
    (lookup : method.variableNamed? name = some found) :
    name ∈ method.localNames ∧
      found.index = method.localNames.idxOf name := by
  obtain ⟨same, place, bound, atPlace, earlier⟩ :=
    List.find?_eq_some_iff_getElem.mp lookup
  have foundName : found.name = name := by simpa using same
  have placeBound : place < method.localNames.length := by
    simpa [localNames] using bound
  have nameAt : method.localNames[place] = name := by
    simp [localNames, atPlace, foundName]
  have indexAt : found.index = place := by
    have listed : (method.locals.map Variable.index)[place]? =
        some found.index := by
      rw [List.getElem?_map, List.getElem?_eq_getElem bound, atPlace]
      rfl
    rw [numbered.index, List.getElem?_range bound] at listed
    exact (Option.some.inj listed).symm
  refine ⟨nameAt ▸ List.getElem_mem placeBound, ?_⟩
  rw [indexAt, ← nameAt]
  exact (numbered.distinct.idxOf_getElem place placeBound).symm

theorem notMem_localNames_of_variableNamed? {method : Method}
    {name : String} (lookup : method.variableNamed? name = none) :
    name ∉ method.localNames := by
  intro member
  obtain ⟨found, present, same⟩ := List.mem_map.mp member
  have different := List.find?_eq_none.mp lookup found present
  exact different (by simp [same])

/-- A variable with a new name keeps the variables numbered. -/
theorem Numbered.define {method : Method} {name : String}
    (numbered : method.Numbered) (type : ValueType)
    (fresh : name ∉ method.localNames) :
    (method.define name type).2.Numbered where
  index := by
    simp [Method.define, numbered.index, List.range_succ]
  distinct := by
    simp only [Method.define, localNames, List.map_append,
      List.map_cons, List.map_nil]
    refine List.Nodup.append numbered.distinct
      (List.nodup_singleton name) ?_
    simpa [localNames] using fresh

end Method

namespace DraftM

variable {before after : Draft}

theorem variableIndex_spec {name : String} {index : Nat}
    (numbered : before.method.Numbered)
    (run : variableIndex name before = .ok index after) :
    before = after ∧ name ∈ before.method.localNames ∧
      index = before.method.localNames.idxOf name := by
  obtain ⟨draft, middle, got, rest⟩ := bind_eq_ok.mp run
  cases got
  cases lookup : before.method.variableNamed? name with
  | none =>
      rw [lookup] at rest
      exact absurd rest throw_ne_ok
  | some found =>
      rw [lookup] at rest
      obtain ⟨equality, same⟩ := pure_eq_ok.mp rest
      obtain ⟨member, place⟩ :=
        Method.index_of_variableNamed? numbered lookup
      exact ⟨same, member, equality ▸ place⟩

/-- A declaration adds one variable under a new name and the next
number. -/
theorem declare_spec {type name : String} {index : Nat}
    (run : declare type name before = .ok index after) :
    name ∉ before.method.localNames ∧
      index = before.method.locals.length ∧
      ∃ valueType,
        after = { before with
          method := (before.method.define name valueType).2 } := by
  unfold declare at run
  cases typed : ValueType.ofVariableName? type with
  | none =>
      rw [typed] at run
      exact absurd run throw_ne_ok
  | some valueType =>
      rw [typed] at run
      obtain ⟨draft, middle, got, rest⟩ := bind_eq_ok.mp run
      cases got
      cases lookup : before.method.variableNamed? name with
      | some found =>
          rw [lookup] at rest
          exact absurd rest throw_ne_ok
      | none =>
          rw [lookup] at rest
          cases rest
          exact ⟨Method.notMem_localNames_of_variableNamed? lookup,
            rfl, valueType, rfl⟩

theorem declare_grows {type name : String} {index : Nat}
    (run : declare type name before = .ok index after) :
    before.Grows after [] ∧
      after.tables.nextLabel = before.tables.nextLabel ∧
      name ∈ after.method.localNames ∧
      index = after.method.localNames.idxOf name := by
  obtain ⟨fresh, place, valueType, rfl⟩ := declare_spec run
  refine ⟨?_, rfl, by simp [Method.define, Method.localNames], ?_⟩
  · constructor
    · rfl
    · simp [Method.define]
    · exact List.prefix_append _ _
    · exact fun numbered => numbered.define valueType fresh
    · exact List.prefix_rfl
    · simp [Symbol.patches]
  · rw [Method.localNames] at fresh
    simp [Method.define, Method.localNames,
      List.idxOf_append_of_notMem fresh, place]

end DraftM

/-! ## Calls -/

theorem Node.argumentTypes_spec {callee : String} :
    ∀ {args : List Node} {position : Nat} {types : List ValueType},
      argumentTypes callee position args = .ok types →
        args.map staticType? = types.map some
  | [], position, types, typed => by
      cases typed
      rfl
  | arg :: args, position, types, typed => by
      rw [argumentTypes] at typed
      cases known : arg.staticType? with
      | none =>
          rw [known] at typed
          cases typed
      | some type =>
          rw [known] at typed
          cases rest : argumentTypes callee (position + 1) args with
          | error error =>
              rw [rest] at typed
              cases typed
          | ok tail =>
              rw [rest] at typed
              cases typed
              simp [known, argumentTypes_spec rest]

/-- A call resolved in a scope is resolved in the same way under all bindings
that cover the scope. -/
theorem Scope.resolveCall_spec {scope : Scope} {name : String}
    {types : List ValueType} {instruction : Instruction}
    (resolved : scope.resolveCall name types = .ok instruction) :
    ∃ opcode operand,
      instruction = (Symbol.op opcode operand).draft ∧
        ∀ bindings : Bindings, bindings.catalog = scope.catalog →
          scope.methods <+: bindings.methods →
            bindings.Callable name types ∧
              bindings.callee name types = (opcode, operand) := by
  unfold resolveCall at resolved
  cases overload : scope.catalog.overload? name types with
  | some native =>
      rw [overload] at resolved
      cases resolved
      refine ⟨_, _, rfl, ?_⟩
      intro bindings catalogEq _
      constructor
      · left
        rw [catalogEq, overload]
        rfl
      · rw [Bindings.callee, catalogEq, overload]
  | none =>
      rw [overload] at resolved
      cases found : scope.methods.idxOf? name with
      | none =>
          rw [found] at resolved
          cases resolved
      | some index =>
          rw [found] at resolved
          cases resolved
          have member : name ∈ scope.methods :=
            List.isSome_idxOf?.mp (by rw [found]; rfl)
          refine ⟨_, _, rfl, ?_⟩
          intro bindings catalogEq extension
          refine ⟨Or.inr (extension.subset member), ?_⟩
          rw [Bindings.callee, catalogEq, overload,
            ← extension.idxOf_eq_of_mem member,
            List.idxOf_eq_getD_idxOf?, found]
          rfl

/-! ## Bodies -/

namespace Draft.Assembles

variable {scope : Scope} {nodes further : List Node}
  {before middle after : Draft} {code rest : List Symbol}

theorem numbered (assembled : Assembles scope nodes before after code)
    (numbered : before.method.Numbered) : after.method.Numbered :=
  assembled.grows.numbered numbered

theorem of_grows_nil (grows : before.Grows after [])
    (labels : after.tables.nextLabel = before.tables.nextLabel)
    (rule : ∀ bindings label, Emits bindings nodes label [] label) :
    Assembles scope nodes before after [] where
  grows := grows
  emits := by
    intro bindings _
    rw [labels]
    exact rule bindings _

theorem refl_nil : Assembles scope [] before before [] :=
  of_grows_nil (.refl before) rfl fun _ label => .nil label

theorem append_op {opcode : Opcode} {operand : Nat}
    (assembled : Assembles scope nodes before middle code)
    (emission : middle.Grows after [.op opcode operand] ∧
      after.tables.nextLabel = middle.tables.nextLabel)
    (rule : ∀ bindings, bindings.Covers scope after →
      Emits bindings nodes before.tables.nextLabel code
        middle.tables.nextLabel →
      Emits bindings further before.tables.nextLabel
        (code ++ [.op opcode operand]) middle.tables.nextLabel) :
    Assembles scope further before after
      (code ++ [.op opcode operand]) where
  grows := assembled.grows.trans emission.1
  emits := by
    intro bindings covers
    rw [emission.2]
    exact rule bindings covers <|
      assembled.emits bindings (covers.of_grows emission.1)

theorem cons {node : Node}
    (head : Assembles scope [node] before middle code)
    (tail : Assembles scope nodes middle after rest) :
    Assembles scope (node :: nodes) before after (code ++ rest) where
  grows := head.grows.trans tail.grows
  emits := by
    intro bindings covers
    exact Emits.cons
      (head.emits bindings (covers.of_grows tail.grows))
      (tail.emits bindings covers)

theorem block (assembled : Assembles scope nodes before after code) :
    Assembles scope [.block nodes] before after code where
  grows := assembled.grows
  emits := fun bindings covers =>
    .block (assembled.emits bindings covers)

/-- The steps of a conditional, one draft after another. -/
theorem branch {condition thenBranch : Node} {elseBranch : Option Node}
    {tested first second jumping taken leaving marked missed : Draft}
    {other done : Nat} {test positive negative : List Symbol}
    (testAssembled : Assembles scope [condition] before tested test)
    (otherTaken : DraftM.newLabel tested = .ok other first)
    (doneTaken : DraftM.newLabel first = .ok done second)
    (jumpIfZero :
      DraftM.emitBranch .jumpIfZero other second = .ok () jumping)
    (thenAssembled : Assembles scope [thenBranch] jumping taken positive)
    (jump : DraftM.emitBranch .jump done taken = .ok () leaving)
    (otherMarked : DraftM.emitMarker other leaving = .ok () marked)
    (elseAssembled :
      Assembles scope elseBranch.toList marked missed negative)
    (doneMarked : DraftM.emitMarker done missed = .ok () after) :
    Assembles scope [.branch condition thenBranch elseBranch] before
      after (Symbol.conditional test positive negative other done) := by
  obtain ⟨otherGrows, otherEq, firstLabel⟩ :=
    DraftM.newLabel_grows otherTaken
  obtain ⟨doneGrows, doneEq, secondLabel⟩ :=
    DraftM.newLabel_grows doneTaken
  obtain ⟨jumpIfZeroGrows, jumpingLabel⟩ :=
    DraftM.emitBranch_grows jumpIfZero
  obtain ⟨jumpGrows, leavingLabel⟩ := DraftM.emitBranch_grows jump
  obtain ⟨otherMarkGrows, markedLabel⟩ :=
    DraftM.emitMarker_grows otherMarked
  obtain ⟨doneMarkGrows, afterLabel⟩ :=
    DraftM.emitMarker_grows doneMarked
  have upToJump :
      before.Grows jumping (test ++ [.branch .jumpIfZero other]) := by
    have grown := testAssembled.grows.trans <|
      otherGrows.trans <| doneGrows.trans jumpIfZeroGrows
    simpa using grown
  have afterThen :
      taken.Grows marked [.branch .jump done, .marker other] :=
    jumpGrows.trans otherMarkGrows
  have elseToEnd : marked.Grows after (negative ++ [.marker done]) :=
    elseAssembled.grows.trans doneMarkGrows
  have thenToEnd :
      jumping.Grows after
        (positive ++ ([.branch .jump done, .marker other] ++
          (negative ++ [.marker done]))) :=
    thenAssembled.grows.trans (afterThen.trans elseToEnd)
  constructor
  · simpa only [Symbol.conditional, List.append_assoc] using
      upToJump.trans thenToEnd
  · intro bindings covers
    have elseEmits :=
      elseAssembled.emits bindings (covers.of_grows doneMarkGrows)
    have thenEmits :=
      thenAssembled.emits bindings <|
        covers.of_grows (afterThen.trans elseToEnd)
    have testEmits :=
      testAssembled.emits bindings <|
        covers.of_grows <|
          (otherGrows.trans (doneGrows.trans jumpIfZeroGrows)).trans
            thenToEnd
    -- Both labels are taken between the condition and the branches.
    rw [doneEq, firstLabel, otherEq, afterLabel]
    rw [markedLabel, leavingLabel] at elseEmits
    rw [jumpingLabel, secondLabel, firstLabel] at thenEmits
    exact .branch testEmits thenEmits elseEmits

end Draft.Assembles

mutual

/-- What a successful assembly of a tree has appended to the draft. -/
theorem Node.assemble_assembles {scope : Scope} :
    ∀ {node : Node} {before after : Draft},
      before.method.Numbered →
      node.assemble scope before = .ok () after →
        ∃ code, Draft.Assembles scope [node] before after code
  | .trigger event filter body, before, after, numbered, run => by
      rw [Node.assemble] at run
      exact absurd run throw_ne_ok
  | .proc name params body, before, after, numbered, run => by
      rw [Node.assemble] at run
      exact absurd run throw_ne_ok
  | .block statements, before, after, numbered, run => by
      rw [Node.assemble] at run
      obtain ⟨code, assembled⟩ :=
        Node.assembleAll_assembles numbered run
      exact ⟨code, assembled.block⟩
  | .declare type name none, before, after, numbered, run => by
      rw [Node.assemble] at run
      obtain ⟨index, middle, declared, rest⟩ := bind_eq_ok.mp run
      obtain ⟨_, rfl⟩ := pure_eq_ok.mp rest
      obtain ⟨grows, labels, _⟩ := DraftM.declare_grows declared
      exact ⟨[], .of_grows_nil grows labels fun bindings label =>
        .declare type name label⟩
  | .declare type name (some value), before, after, numbered, run => by
      rw [Node.assemble] at run
      obtain ⟨index, declaring, declared, run⟩ := bind_eq_ok.mp run
      obtain ⟨_, middle, valueRun, setRun⟩ := bind_eq_ok.mp run
      obtain ⟨grows, labels, member, place⟩ :=
        DraftM.declare_grows declared
      obtain ⟨code, assembled⟩ :=
        Node.assemble_assembles (grows.numbered numbered) valueRun
      have emission := DraftM.emitWith_grows setRun
      have initialized :
          Draft.Assembles scope [.declare type name (some value)]
            declaring after (code ++ [.op .setVariable index]) := by
        refine assembled.append_op emission ?_
        intro bindings covers emits
        -- Variables declared later stand behind this one.
        have extension :
            declaring.method.localNames <+: bindings.locals :=
          (covers.of_grows (assembled.grows.trans emission.1)).locals
        rw [place, extension.idxOf_eq_of_mem member]
        exact .define type (extension.subset member) emits
      refine ⟨code ++ [.op .setVariable index], ?_, ?_⟩
      · exact grows.trans initialized.grows
      · rw [← labels]
        exact initialized.emits
  | .assign name value, before, after, numbered, run => by
      rw [Node.assemble] at run
      obtain ⟨index, looking, found, run⟩ := bind_eq_ok.mp run
      obtain ⟨_, middle, valueRun, setRun⟩ := bind_eq_ok.mp run
      obtain ⟨rfl, member, place⟩ :=
        DraftM.variableIndex_spec numbered found
      obtain ⟨code, assembled⟩ :=
        Node.assemble_assembles numbered valueRun
      have emission := DraftM.emitWith_grows setRun
      refine ⟨_, assembled.append_op emission ?_⟩
      intro bindings covers emits
      have extension : before.method.localNames <+: bindings.locals :=
        (covers.of_grows (assembled.grows.trans emission.1)).locals
      rw [place, extension.idxOf_eq_of_mem member]
      exact .assign (extension.subset member) emits
  | .branch condition thenBranch elseBranch, before, after, numbered,
      run => by
      rw [Node.assemble_branch] at run
      obtain ⟨_, tested, testRun, run⟩ := bind_eq_ok.mp run
      obtain ⟨other, first, otherTaken, run⟩ := bind_eq_ok.mp run
      obtain ⟨done, second, doneTaken, run⟩ := bind_eq_ok.mp run
      obtain ⟨_, jumping, jumpIfZero, run⟩ := bind_eq_ok.mp run
      obtain ⟨_, taken, thenRun, run⟩ := bind_eq_ok.mp run
      obtain ⟨_, leaving, jump, run⟩ := bind_eq_ok.mp run
      obtain ⟨_, marked, otherMarked, run⟩ := bind_eq_ok.mp run
      obtain ⟨_, missed, elseRun, doneMarked⟩ := bind_eq_ok.mp run
      obtain ⟨test, testAssembled⟩ :=
        Node.assemble_assembles numbered testRun
      have jumpingNumbered : jumping.method.Numbered :=
        (DraftM.emitBranch_grows jumpIfZero).1.numbered <|
          (DraftM.newLabel_grows doneTaken).1.numbered <|
            (DraftM.newLabel_grows otherTaken).1.numbered <|
              testAssembled.numbered numbered
      obtain ⟨positive, thenAssembled⟩ :=
        Node.assemble_assembles jumpingNumbered thenRun
      have markedNumbered : marked.method.Numbered :=
        (DraftM.emitMarker_grows otherMarked).1.numbered <|
          (DraftM.emitBranch_grows jump).1.numbered <|
            thenAssembled.numbered jumpingNumbered
      obtain ⟨negative, elseAssembled⟩ :=
        Node.assembleOptional_assembles markedNumbered elseRun
      exact ⟨_, .branch testAssembled otherTaken doneTaken jumpIfZero
        thenAssembled jump otherMarked elseAssembled doneMarked⟩
  | .call name args, before, after, numbered, run => by
      rw [Node.assemble] at run
      obtain ⟨types, typing, typed, run⟩ := bind_eq_ok.mp run
      obtain ⟨typesKnown, rfl⟩ := liftExcept_eq_ok.mp typed
      obtain ⟨instruction, resolving, resolved, run⟩ :=
        bind_eq_ok.mp run
      obtain ⟨resolution, rfl⟩ := liftExcept_eq_ok.mp resolved
      obtain ⟨_, middle, argsRun, callRun⟩ := bind_eq_ok.mp run
      obtain ⟨opcode, operand, rfl, agreement⟩ :=
        Scope.resolveCall_spec resolution
      obtain ⟨code, assembled⟩ :=
        Node.assembleAll_assembles numbered argsRun
      refine ⟨_, assembled.append_op
        (DraftM.emit_grows (fun _ _ => rfl) callRun) ?_⟩
      intro bindings covers emits
      obtain ⟨callable, callee⟩ :=
        agreement bindings covers.catalog covers.methods
      have called :=
        Emits.call (Node.argumentTypes_spec typesKnown) callable emits
      rw [callee] at called
      exact called
  | .literal value, before, after, numbered, run => by
      rw [Node.assemble] at run
      obtain ⟨index, grows, labels, member, place⟩ :=
        DraftM.pushLiteral_grows run
      refine ⟨_, grows, ?_⟩
      intro bindings covers
      rw [labels, place, covers.constants.idxOf_eq_of_mem member]
      exact .literal _ (covers.constants.subset member)
  | .compare left comparator right, before, after, numbered, run => by
      rw [Node.assemble] at run
      obtain ⟨_, leftDone, leftRun, run⟩ := bind_eq_ok.mp run
      obtain ⟨_, rightDone, rightRun, ending⟩ := bind_eq_ok.mp run
      obtain ⟨leftCode, leftAssembled⟩ :=
        Node.assemble_assembles numbered leftRun
      obtain ⟨rightCode, rightAssembled⟩ :=
        Node.assemble_assembles (leftAssembled.numbered numbered)
          rightRun
      by_cases isEqual : comparator = .equal
      · subst isEqual
        rw [if_pos rfl] at ending
        obtain ⟨emission, labels⟩ := DraftM.emitWith_grows ending
        refine ⟨_, (leftAssembled.grows.trans
          rightAssembled.grows).trans emission, ?_⟩
        intro bindings covers
        have covered := covers.of_grows emission
        rw [labels]
        exact .equal
          (leftAssembled.emits bindings
            (covered.of_grows rightAssembled.grows))
          (rightAssembled.emits bindings covered)
      · rw [if_neg isEqual] at ending
        exact absurd ending throw_ne_ok
  | .var name, before, after, numbered, run => by
      rw [Node.assemble] at run
      obtain ⟨index, looking, found, emitted⟩ := bind_eq_ok.mp run
      obtain ⟨rfl, member, place⟩ :=
        DraftM.variableIndex_spec numbered found
      obtain ⟨grows, labels⟩ := DraftM.emitWith_grows emitted
      refine ⟨_, grows, ?_⟩
      intro bindings covers
      have extension := (covers.of_grows grows).locals
      rw [labels, place, extension.idxOf_eq_of_mem member]
      exact .var _ (extension.subset member)

theorem Node.assembleAll_assembles {scope : Scope} :
    ∀ {nodes : List Node} {before after : Draft},
      before.method.Numbered →
      Node.assembleAll scope nodes before = .ok () after →
        ∃ code, Draft.Assembles scope nodes before after code
  | [], before, after, numbered, run => by
      rw [Node.assembleAll] at run
      obtain ⟨_, rfl⟩ := pure_eq_ok.mp run
      exact ⟨[], .refl_nil⟩
  | node :: nodes, before, after, numbered, run => by
      rw [Node.assembleAll] at run
      obtain ⟨_, middle, headRun, tailRun⟩ := bind_eq_ok.mp run
      obtain ⟨head, headAssembled⟩ :=
        Node.assemble_assembles numbered headRun
      obtain ⟨tail, tailAssembled⟩ :=
        Node.assembleAll_assembles (headAssembled.numbered numbered)
          tailRun
      exact ⟨head ++ tail, headAssembled.cons tailAssembled⟩

theorem Node.assembleOptional_assembles {scope : Scope} :
    ∀ {node : Option Node} {before after : Draft},
      before.method.Numbered →
      Node.assembleOptional scope node before = .ok () after →
        ∃ code, Draft.Assembles scope node.toList before after code
  | none, before, after, numbered, run => by
      rw [Node.assembleOptional] at run
      obtain ⟨_, rfl⟩ := pure_eq_ok.mp run
      exact ⟨[], .refl_nil⟩
  | some node, before, after, numbered, run => by
      rw [Node.assembleOptional] at run
      exact Node.assemble_assembles numbered run

end

end TriggerScript
