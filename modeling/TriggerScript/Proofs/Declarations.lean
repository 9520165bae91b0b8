import TriggerScript.Proofs.BodyCode
import TriggerScript.Proofs.Linking

/-!
# The methods of a script

Every procedure and every trigger of a script gets one method: first the
procedures in order, then the triggers in order.  Here a script is followed
from its declarations to the methods before layout.

* `Piece` is a method together with the symbolic code it was given.
* `Assembly.Holds` is what stays true of all pieces at every moment.
-/

namespace TriggerScript

/-! ## Declarations -/

/-- A procedure or a trigger, with the name of its method. -/
structure Declaration where
  name : String
  params : List Param
  body : Node
  /-- The event and the filter of a trigger, as written. -/
  trigger? : Option (String × String)

namespace Declaration

def procs : List Node → List Declaration
  | [] => []
  | .proc name params body :: rest =>
      ⟨name, params, body, none⟩ :: procs rest
  | _ :: rest => procs rest

/-- The triggers of a script; the first has the given number. -/
def triggers : Nat → List Node → List Declaration
  | _, [] => []
  | ordinal, .trigger event filter body :: rest =>
      ⟨"@" ++ event ++ "@" ++ filter ++ "@" ++ toString ordinal, [],
        body, some (event, filter)⟩ :: triggers (ordinal + 1) rest
  | ordinal, _ :: rest => triggers ordinal rest

/-- The declarations of a script in the order of their methods. -/
def all (nodes : List Node) : List Declaration :=
  procs nodes ++ triggers 0 nodes

variable {nodes : List Node} {declaration : Declaration}

theorem node_of_mem_procs (member : declaration ∈ procs nodes) :
    .proc declaration.name declaration.params declaration.body ∈ nodes := by
  induction nodes with
  | nil =>
      cases member
  | cons node rest inductionHypothesis =>
      cases node with
      | proc name params body =>
          rcases List.mem_cons.mp member with rfl | later
          · exact List.mem_cons_self
          · exact List.mem_cons_of_mem _ (inductionHypothesis later)
      | trigger | block | declare | assign | branch | call | literal
      | compare | var =>
          exact List.mem_cons_of_mem _ (inductionHypothesis member)

theorem eq_of_mem_triggers {ordinal : Nat}
    (member : declaration ∈ triggers ordinal nodes) :
    ∃ event filter body, ∃ number : Nat,
      .trigger event filter body ∈ nodes ∧ declaration =
        ⟨"@" ++ event ++ "@" ++ filter ++ "@" ++ toString number, [], body,
          some (event, filter)⟩ := by
  induction nodes generalizing ordinal with
  | nil =>
      cases member
  | cons node rest inductionHypothesis =>
      cases node with
      | trigger event filter body =>
          rcases List.mem_cons.mp member with here | later
          · exact ⟨event, filter, body, ordinal, List.mem_cons_self, here⟩
          · obtain ⟨event, filter, body, number, found, isTrigger⟩ :=
              inductionHypothesis later
            exact ⟨event, filter, body, number, List.mem_cons_of_mem _ found,
              isTrigger⟩
      | proc | block | declare | assign | branch | call | literal
      | compare | var =>
          obtain ⟨event, filter, body, number, found, isTrigger⟩ :=
            inductionHypothesis member
          exact ⟨event, filter, body, number, List.mem_cons_of_mem _ found,
            isTrigger⟩

theorem node_of_mem_triggers {ordinal : Nat}
    (member : declaration ∈ triggers ordinal nodes) :
    ∃ event filter, .trigger event filter declaration.body ∈ nodes := by
  obtain ⟨event, filter, body, _, found, rfl⟩ := eq_of_mem_triggers member
  exact ⟨event, filter, found⟩

theorem trigger?_of_mem_procs (member : declaration ∈ procs nodes) :
    declaration.trigger? = none := by
  induction nodes with
  | nil =>
      cases member
  | cons node rest inductionHypothesis =>
      cases node with
      | proc name params body =>
          rcases List.mem_cons.mp member with rfl | later
          · rfl
          · exact inductionHypothesis later
      | trigger | block | declare | assign | branch | call | literal
      | compare | var =>
          exact inductionHypothesis member

theorem trigger?_of_mem_triggers {ordinal : Nat}
    (member : declaration ∈ triggers ordinal nodes) :
    declaration.trigger?.isSome = true := by
  obtain ⟨_, _, _, _, _, rfl⟩ := eq_of_mem_triggers member
  rfl

end Declaration

/-! ## Pieces -/

/-- A method under construction with its symbolic code. -/
structure Piece where
  declaration : Declaration
  method : Method
  /-- The label by which the host enters a trigger. -/
  alias? : Option Nat
  /-- The code of the body, once it is assembled. -/
  body? : Option (List Symbol)

namespace Piece

/-- The code of a body together with the way out. -/
def ending (body? : Option (List Symbol)) : List Symbol :=
  match body? with
  | none => []
  | some body => body ++ [.op .ret 0]

def code (piece : Piece) : List Symbol :=
  .marker piece.method.entry ::
    (piece.alias?.toList.map Symbol.marker ++ ending piece.body?)

/-- What is true of a piece while the rest of the program is still
growing. -/
structure Valid (catalog : Catalog) (assembly : Assembly)
    (piece : Piece) : Prop where
  name : piece.method.name = piece.declaration.name
  drafted : piece.method.code = piece.code.map Symbol.draft
  numbered : piece.method.Numbered
  params : piece.method.params =
    List.range piece.declaration.params.length
  emits : ∀ body, piece.body? = some body →
    ∀ bindings : Bindings,
      bindings.Covers ⟨catalog, assembly.methodNames⟩
        ⟨piece.method, assembly.tables⟩ →
      ∃ first last,
        Emits bindings [piece.declaration.body] first body last

theorem Valid.mono {catalog : Catalog} {before after : Assembly}
    {piece : Piece} (valid : piece.Valid catalog before)
    (names : before.methodNames <+: after.methodNames)
    (constants : before.tables.constants.entries <+:
      after.tables.constants.entries) :
    piece.Valid catalog after where
  name := valid.name
  drafted := valid.drafted
  numbered := valid.numbered
  params := valid.params
  emits := by
    intro body assembled bindings covers
    apply valid.emits body assembled bindings
    exact ⟨covers.catalog, names.trans covers.methods,
      constants.trans covers.constants, covers.locals⟩

section Lengthened

variable {left right : List Piece} {piece changed : Piece}
  {added : List Symbol}

/-- The labels of all pieces when the code of one piece is lengthened. -/
theorem labels_perm (code : changed.code = piece.code ++ added) :
    (Symbol.labels ((left ++ changed :: right).flatMap Piece.code)).Perm
      (Symbol.labels ((left ++ piece :: right).flatMap Piece.code) ++
        Symbol.labels added) := by
  simp only [List.flatMap_append, List.flatMap_cons,
    Symbol.labels_append, code, List.append_assoc]
  refine List.Perm.append_left _ (List.Perm.append_left _ ?_)
  exact List.perm_append_comm

/-- The patches for all pieces when the code of one piece is lengthened. -/
theorem patches_perm (code : changed.code = piece.code ++ added) :
    (Symbol.patchesFrom 0 ((left ++ piece :: right).map Piece.code) ++
        Symbol.patches left.length piece.code.length added).Perm
      (Symbol.patchesFrom 0
        ((left ++ changed :: right).map Piece.code)) := by
  simp only [List.map_append, List.map_cons, Symbol.patchesFrom_append,
    Symbol.patchesFrom, code, Symbol.patches_append, List.append_assoc,
    List.length_map, Nat.zero_add]
  refine List.Perm.append_left _ (List.Perm.append_left _ ?_)
  exact List.perm_append_comm

end Lengthened

end Piece

/-- What is true of the pieces of a program at every moment. -/
structure Assembly.Holds (catalog : Catalog) (assembly : Assembly)
    (pieces : List Piece) : Prop where
  methods : assembly.methods = pieces.map Piece.method
  indexed : pieces.map (fun piece => piece.method.index) =
    List.range pieces.length
  valid : ∀ piece ∈ pieces, piece.Valid catalog assembly
  patches : assembly.tables.patches.toList.Perm
    (Symbol.patchesFrom 0 (pieces.map Piece.code))
  distinct : (Symbol.labels (pieces.flatMap Piece.code)).Nodup
  bounded : ∀ label ∈ Symbol.labels (pieces.flatMap Piece.code),
    label < assembly.tables.nextLabel

namespace Assembly.Holds

variable {catalog : Catalog} {before after : Assembly}
  {pieces : List Piece} {piece : Piece}

theorem empty (catalog : Catalog) :
    Assembly.Holds catalog {} [] where
  methods := rfl
  indexed := rfl
  valid := by simp
  patches := List.Perm.nil
  distinct := by simp
  bounded := by simp

theorem length_methods (holds : before.Holds catalog pieces) :
    before.methods.length = pieces.length := by
  rw [holds.methods, List.length_map]

theorem methodNames_eq (holds : before.Holds catalog pieces) :
    before.methodNames =
      pieces.map (fun piece => piece.method.name) := by
  rw [methodNames, holds.methods, List.map_map]
  rfl

/-- Add a method that has nothing but markers. -/
theorem append (holds : before.Holds catalog pieces)
    (methods : after.methods = before.methods ++ [piece.method])
    (patches : after.tables.patches = before.tables.patches)
    (constants : after.tables.constants = before.tables.constants)
    (index : piece.method.index = before.methods.length)
    (valid : piece.Valid catalog after)
    (unpatched : ∀ index, Symbol.patches index 0 piece.code = [])
    (distinct : (Symbol.labels piece.code).Nodup)
    (fresh : ∀ label ∈ Symbol.labels piece.code,
      before.tables.nextLabel ≤ label)
    (bounded : ∀ label ∈ Symbol.labels piece.code,
      label < after.tables.nextLabel)
    (labels : before.tables.nextLabel ≤ after.tables.nextLabel) :
    after.Holds catalog (pieces ++ [piece]) := by
  have codesEq : Symbol.labels ((pieces ++ [piece]).flatMap Piece.code) =
      Symbol.labels (pieces.flatMap Piece.code) ++
        Symbol.labels piece.code := by
    simp
  constructor
  · rw [methods, holds.methods, List.map_append, List.map_singleton]
  · rw [List.map_append, holds.indexed, List.map_singleton, index,
      holds.length_methods, List.length_append, List.length_singleton,
      List.range_succ]
  · intro other member
    rcases List.mem_append.mp member with old | new
    · apply (holds.valid other old).mono
      · rw [methodNames, methodNames, methods, List.map_append]
        exact List.prefix_append _ _
      · simp [constants]
    · rw [List.mem_singleton.mp new]
      exact valid
  · rw [patches, List.map_append, List.map_singleton,
      Symbol.patchesFrom_append, Symbol.patchesFrom, unpatched,
      List.nil_append, Symbol.patchesFrom, List.append_nil]
    exact holds.patches
  · rw [codesEq]
    refine List.Nodup.append holds.distinct distinct ?_
    intro label old new
    have := holds.bounded label old
    have := fresh label new
    omega
  · rw [codesEq]
    intro label member
    rcases List.mem_append.mp member with old | new
    · exact Nat.lt_of_lt_of_le (holds.bounded label old) labels
    · exact bounded label new

theorem methodAt {left right : List Piece}
    (holds : before.Holds catalog (left ++ piece :: right)) :
    before.methods[left.length]? = some piece.method := by
  rw [holds.methods]
  simp

theorem putBack_methodNames {left right : List Piece} {draft : Draft}
    (holds : before.Holds catalog (left ++ piece :: right))
    (nameEq : draft.method.name = piece.method.name) :
    (before.putBack left.length draft).methodNames =
      before.methodNames := by
  simp [methodNames, putBack, holds.methods, nameEq]

/-- Lengthen the code of one method. -/
theorem grow {left right : List Piece} {changed : Piece}
    {draft : Draft} {added : List Symbol}
    (holds : before.Holds catalog (left ++ piece :: right))
    (grows : Draft.Grows ⟨piece.method, before.tables⟩ draft added)
    (method : changed.method = draft.method)
    (code : changed.code = piece.code ++ added)
    (valid : changed.Valid catalog (before.putBack left.length draft))
    (labels : before.tables.nextLabel ≤ draft.tables.nextLabel)
    (distinct : (Symbol.labels added).Nodup)
    (fresh : ∀ label ∈ Symbol.labels added,
      before.tables.nextLabel ≤ label ∧
        label < draft.tables.nextLabel) :
    (before.putBack left.length draft).Holds catalog
      (left ++ changed :: right) := by
  have indexEq : piece.method.index = left.length := by
    have listed := congrArg (fun indices => indices[left.length]?)
      holds.indexed
    simpa using listed
  have sizeEq : piece.method.instructions.size = piece.code.length := by
    have drafted := (holds.valid piece (by simp)).drafted
    rw [Method.code] at drafted
    rw [← Array.length_toList, drafted, List.length_map]
  have methodsEq : (before.putBack left.length draft).methods =
      (left ++ changed :: right).map Piece.method := by
    simp [putBack, holds.methods, method]
  have namesEq : (before.putBack left.length draft).methodNames =
      before.methodNames :=
    holds.putBack_methodNames
      (grows.field_eq Method.name fun _ => rfl)
  constructor
  · exact methodsEq
  · have indexSame : changed.method.index = piece.method.index := by
      rw [method]
      exact grows.field_eq Method.index fun _ => rfl
    have listed := holds.indexed
    simp only [List.map_append, List.map_cons, List.length_append,
      List.length_cons] at listed ⊢
    rw [indexSame, listed]
  · intro other member
    by_cases same : other = changed
    · rw [same]
      exact valid
    · have old : other ∈ left ++ piece :: right := by
        simp only [List.mem_append, List.mem_cons] at member ⊢
        rcases member with inLeft | isChanged | inRight
        · exact Or.inl inLeft
        · exact absurd isChanged same
        · exact Or.inr (Or.inr inRight)
      apply (holds.valid other old).mono
      · simp [namesEq]
      · exact grows.constants
  · -- New patches count from the end of the code that is there already.
    have appended : (before.putBack left.length draft).tables.patches.toList =
        before.tables.patches.toList ++
          Symbol.patches left.length piece.code.length added := by
      rw [← indexEq, ← sizeEq]
      exact grows.patches
    rw [appended]
    exact (holds.patches.append_right _).trans (Piece.patches_perm code)
  · rw [(Piece.labels_perm code).nodup_iff]
    refine List.Nodup.append holds.distinct distinct ?_
    intro label old new
    have := holds.bounded label old
    have := fresh label new
    omega
  · intro label member
    have split := (Piece.labels_perm code).mem_iff.mp member
    rcases List.mem_append.mp split with old | new
    · exact Nat.lt_of_lt_of_le (holds.bounded label old) labels
    · exact (fresh label new).2

end Assembly.Holds

/-! ## Giving procedures their methods -/

def Method.withoutLocals (method : Method) : Method :=
  { method with locals := [], params := [] }

theorem Method.start_numbered (name : String) (index entry : Nat) :
    (start name index entry).Numbered :=
  ⟨rfl, List.nodup_nil⟩

namespace AssembleM

variable {before after : Assembly}

def withMethod (assembly : Assembly) (name : String) : Assembly :=
  { assembly with
    methods := assembly.methods ++
      [.start name assembly.methods.length assembly.tables.nextLabel]
    tables := assembly.tables.newLabel.2.log
      (.methodDefined name assembly.methods.length) }

theorem defineMethod_eq (name : String) (assembly : Assembly) :
    defineMethod name assembly =
      .ok assembly.methods.length (withMethod assembly name) := rfl

theorem withMethod_last (assembly : Assembly) (name : String) :
    (withMethod assembly name).methods[assembly.methods.length]? =
      some (.start name assembly.methods.length
        assembly.tables.nextLabel) :=
  List.getElem?_concat_length

theorem inMethod_spec {index : Nat} {work : DraftM Unit}
    {method : Method} (found : before.methods[index]? = some method)
    (run : inMethod index work before = .ok () after) :
    ∃ draft, work ⟨method, before.tables⟩ = .ok () draft ∧
      after = before.putBack index draft := by
  unfold inMethod at run
  rw [found] at run
  cases outcome : work ⟨method, before.tables⟩ with
  | error error draft =>
      simp [outcome] at run
  | ok value draft =>
      simp only [outcome, EStateM.Result.ok.injEq, true_and] at run
      exact ⟨draft, rfl, run.symm⟩

/-- What declaring parameters does to a method that has no other
variables. -/
theorem declareParams_spec {params : List Param} {start stop : Draft}
    (numbered : start.method.Numbered)
    (allParams : start.method.params =
      List.range start.method.locals.length)
    (run : params.forM DraftM.declareParam start = .ok () stop) :
    stop.tables = start.tables ∧ stop.method.Numbered ∧
      stop.method.params =
        List.range (start.method.locals.length + params.length) ∧
      stop.method.withoutLocals = start.method.withoutLocals := by
  induction params generalizing start with
  | nil =>
      obtain ⟨_, rfl⟩ := pure_eq_ok.mp run
      exact ⟨rfl, numbered, allParams, rfl⟩
  | cons param rest inductionHypothesis =>
      obtain ⟨_, next, paramRun, restRun⟩ := bind_eq_ok.mp run
      obtain ⟨index, declaring, declared, pushed⟩ :=
        bind_eq_ok.mp paramRun
      obtain ⟨fresh, indexEq, type, rfl⟩ := DraftM.declare_spec declared
      cases pushed
      have nextNumbered := numbered.define type fresh
      obtain ⟨tables, finalNumbered, finalParams, frame⟩ :=
        inductionHypothesis ⟨nextNumbered.index, nextNumbered.distinct⟩
          (by simp [Method.define, allParams, indexEq,
            List.range_succ]) restRun
      refine ⟨tables, finalNumbered, ?_, frame⟩
      rw [finalParams, Method.define, List.length_append,
        List.length_singleton, List.length_cons, Nat.add_assoc,
        Nat.add_comm 1]

/-- A procedure gets a new method with its parameters and an entry
marker. -/
theorem hoist_spec {name : String} {params : List Param}
    (run : hoist name params before = .ok () after) :
    name ∉ before.methodNames ∧
      ∃ method : Method,
        after.methods = before.methods ++ [method] ∧
        method.name = name ∧
        method.index = before.methods.length ∧
        method.entry = before.tables.nextLabel ∧
        method.code = [.marker before.tables.nextLabel] ∧
        method.Numbered ∧
        method.params = List.range params.length ∧
        after.triggers = before.triggers ∧
        after.tables.constants = before.tables.constants ∧
        after.tables.patches = before.tables.patches ∧
        after.tables.nextLabel = before.tables.nextLabel + 1 := by
  obtain ⟨place?, _, looked, run⟩ := bind_eq_ok.mp run
  cases looked
  cases found : before.methodNames.idxOf? name with
  | some place =>
      rw [found] at run
      exact absurd run throw_ne_ok
  | none =>
      rw [found] at run
      obtain ⟨index, defining, defined, paramsRun⟩ := bind_eq_ok.mp run
      rw [defineMethod_eq] at defined
      cases defined
      refine ⟨List.idxOf?_eq_none_iff.mp found, ?_⟩
      obtain ⟨draft, declared, rfl⟩ :=
        inMethod_spec (withMethod_last before name) paramsRun
      obtain ⟨tables, numbered, paramsEq, frame⟩ :=
        declareParams_spec (Method.start_numbered _ _ _) rfl declared
      refine ⟨draft.method, ?_, ?_, ?_, ?_, ?_, numbered, ?_, rfl,
        ?_, ?_, ?_⟩
      · simp [Assembly.putBack, withMethod]
      · exact congrArg Method.name frame
      · exact congrArg Method.index frame
      · exact congrArg Method.entry frame
      · exact congrArg Method.code frame
      · rw [paramsEq]
        simp [Method.start]
      · change draft.tables.constants = before.tables.constants
        rw [tables]
        rfl
      · change draft.tables.patches = before.tables.patches
        rw [tables]
        rfl
      · change draft.tables.nextLabel = before.tables.nextLabel + 1
        rw [tables]
        rfl

/-- Hoisting adds one unfinished piece for every procedure. -/
theorem hoistAll_holds {catalog : Catalog} {pieces : List Piece}
    {nodes : List Node} (holds : before.Holds catalog pieces)
    (distinct : before.methodNames.Nodup)
    (run : hoistAll nodes before = .ok () after) :
    ∃ added, after.Holds catalog (pieces ++ added) ∧
      after.methodNames.Nodup ∧
      after.triggers = before.triggers ∧
      added.map Piece.declaration = Declaration.procs nodes ∧
      ∀ piece ∈ added, piece.alias? = none ∧ piece.body? = none := by
  induction nodes generalizing before pieces with
  | nil =>
      obtain ⟨_, rfl⟩ := pure_eq_ok.mp run
      exact ⟨[], by simpa using holds, distinct, rfl, rfl, by simp⟩
  | cons node rest inductionHypothesis =>
      cases node with
      | proc name params body =>
          obtain ⟨_, middle, hoisted, restRun⟩ := bind_eq_ok.mp run
          obtain ⟨fresh, method, methods, nameEq, indexEq, entryEq,
            codeEq, numbered, paramsEq, triggersEq, constantsEq,
            patchesEq, labelEq⟩ := hoist_spec hoisted
          let piece : Piece :=
            ⟨⟨name, params, body, none⟩, method, none, none⟩
          have pieceCode : piece.code =
              [.marker before.tables.nextLabel] := by
            simp [piece, Piece.code, Piece.ending, entryEq]
          have valid : piece.Valid catalog middle := by
            refine ⟨nameEq, ?_, numbered, paramsEq, ?_⟩
            · rw [pieceCode]
              exact codeEq
            · intro body assembled
              cases assembled
          have extended : middle.Holds catalog (pieces ++ [piece]) := by
            apply holds.append methods patchesEq constantsEq indexEq
              valid
            · intro index
              rw [pieceCode]
              rfl
            · simp [pieceCode]
            · simp [pieceCode]
            · simp [pieceCode, labelEq]
            · omega
          have middleDistinct : middle.methodNames.Nodup := by
            rw [Assembly.methodNames, methods, List.map_append,
              List.map_singleton, nameEq]
            refine List.Nodup.append distinct
              (List.nodup_singleton name) ?_
            rw [List.disjoint_singleton]
            exact fresh
          obtain ⟨added, finalHolds, finalDistinct, finalTriggers,
            declarations, unfinished⟩ :=
            inductionHypothesis extended middleDistinct restRun
          refine ⟨piece :: added, ?_, finalDistinct,
            finalTriggers.trans triggersEq, ?_, ?_⟩
          · simpa using finalHolds
          · rw [List.map_cons, declarations]
            rfl
          · intro other member
            rcases List.mem_cons.mp member with rfl | later
            · exact ⟨rfl, rfl⟩
            · exact unfinished other later
      | trigger | block | declare | assign | branch | call | literal
      | compare | var =>
          exact inductionHypothesis holds distinct run

end AssembleM

/-! ## Assembling bodies -/

namespace Assembly

variable {assembly : Assembly} {index : Nat} {method : Method}

theorem putBack_putBack (first second : Draft) :
    (assembly.putBack index first).putBack index second =
      assembly.putBack index second := by
  simp [putBack]

theorem getElem?_putBack (found : assembly.methods[index]? = some method)
    (draft : Draft) :
    (assembly.putBack index draft).methods[index]? = some draft.method := by
  obtain ⟨bound, _⟩ := List.getElem?_eq_some_iff.mp found
  simp [putBack, bound]

end Assembly

namespace AssembleM

variable {before after : Assembly} {catalog : Catalog}

/-- Work on the same method can be done in one go. -/
theorem inMethod_bind (index : Nat) (first second : DraftM Unit) :
    inMethod index (first >>= fun _ => second) =
      (inMethod index first >>= fun _ => inMethod index second) := by
  funext before
  change _ = EStateM.bind (inMethod index first) _ before
  unfold EStateM.bind inMethod
  cases found : before.methods[index]? with
  | none =>
      simp only [found]
  | some method =>
      have sequence : (first >>= fun _ => second) ⟨method, before.tables⟩ =
          EStateM.bind first (fun _ => second) ⟨method, before.tables⟩ :=
        rfl
      dsimp only
      rw [sequence, EStateM.bind]
      cases first ⟨method, before.tables⟩ with
      | error error middle =>
          rfl
      | ok value middle =>
          simp only [Assembly.getElem?_putBack found,
            Assembly.putBack_putBack]
          rfl

theorem assembleBody_eq (catalog : Catalog) (index : Nat) (body : Node) :
    assembleBody catalog index body = (do
      let scope ← scope catalog
      inMethod index do
        body.assemble scope
        DraftM.emitWith .ret 0) := by
  simp only [assembleBody, assembleTree, inMethod_bind, bind_assoc]

/-- Assembling the body of a piece finishes the piece. -/
theorem assembleBody_holds {left right : List Piece} {piece : Piece}
    (holds : before.Holds catalog (left ++ piece :: right))
    (unfinished : piece.body? = none)
    (run : assembleBody catalog left.length piece.declaration.body
      before = .ok () after) :
    ∃ changed : Piece,
      after.Holds catalog (left ++ changed :: right) ∧
        changed.declaration = piece.declaration ∧
        changed.alias? = piece.alias? ∧
        changed.body?.isSome ∧
        after.methodNames = before.methodNames ∧
        after.triggers = before.triggers := by
  rw [assembleBody_eq] at run
  obtain ⟨scope, _, looked, bodyRun⟩ := bind_eq_ok.mp run
  cases looked
  obtain ⟨draft, work, rfl⟩ := inMethod_spec holds.methodAt bodyRun
  obtain ⟨_, middle, assembling, leaving⟩ := bind_eq_ok.mp work
  have valid : piece.Valid catalog before :=
    holds.valid piece (by simp)
  obtain ⟨body, assembled⟩ :=
    Node.assemble_assembles valid.numbered assembling
  obtain ⟨returns, labelEq⟩ := DraftM.emitWith_grows leaving
  have grows := assembled.grows.trans returns
  have entryEq : draft.method.entry = piece.method.entry :=
    grows.field_eq Method.entry fun _ => rfl
  let changed : Piece :=
    { piece with method := draft.method, body? := some body }
  have codeEq : changed.code = piece.code ++ (body ++ [.op .ret 0]) := by
    simp [changed, Piece.code, Piece.ending, unfinished, entryEq]
  have nameEq : draft.method.name = piece.method.name :=
    grows.field_eq Method.name fun _ => rfl
  have namesEq := holds.putBack_methodNames nameEq
  have changedValid :
      changed.Valid catalog (before.putBack left.length draft) := by
    constructor
    · exact nameEq.trans valid.name
    · rw [codeEq, List.map_append, ← valid.drafted]
      exact grows.instructions
    · exact grows.numbered valid.numbered
    · exact (grows.field_eq Method.params fun _ => rfl).trans
        valid.params
    · intro other isBody bindings covers
      cases isBody
      rw [namesEq] at covers
      exact ⟨_, _, assembled.emits bindings (covers.of_grows returns)⟩
  -- The bindings known when the body ends are enough to see its labels.
  have emitted := assembled.emits
    ⟨catalog, before.methodNames, middle.tables.constants.entries,
      middle.method.localNames⟩
    ⟨rfl, List.prefix_rfl, List.prefix_rfl, List.prefix_rfl⟩
  have labelsEq : Symbol.labels (body ++ [.op .ret 0]) =
      Symbol.labels body := by
    simp
  refine ⟨changed, ?_, rfl, rfl, rfl, namesEq, rfl⟩
  apply holds.grow grows rfl codeEq changedValid
  · rw [labelEq]
    exact emitted.first_le_last
  · rw [labelsEq]
    exact emitted.labels_nodup
  · rw [labelsEq, labelEq]
    exact emitted.mem_labels_bounds

/-- A trigger gets a method with two markers and a row in the table. -/
structure OpensTrigger (before : Assembly) (event filter : String)
    (listener : Catalog.Listener) (value : UInt64) (method : Method)
    (after : Assembly) : Prop where
  methods : after.methods = before.methods ++ [method]
  name : method.name = "@" ++ event ++ "@" ++ filter ++ "@" ++
    toString before.triggers.length
  index : method.index = before.methods.length
  entry : method.entry = before.tables.nextLabel
  code : method.code = [.marker before.tables.nextLabel,
    .marker (before.tables.nextLabel + 1)]
  locals : method.locals = []
  params : method.params = []
  rows : after.triggers = before.triggers ++
    [⟨event, listener.id, value, before.tables.nextLabel + 1, 0⟩]
  constants : after.tables.constants = before.tables.constants
  patches : after.tables.patches = before.tables.patches
  nextLabel : after.tables.nextLabel = before.tables.nextLabel + 2

theorem openTrigger_spec {event filter : String} {index : Nat}
    (run : openTrigger catalog event filter before = .ok index after) :
    ∃ listener value method,
      catalog.listener? event = some listener ∧
        TriggerEntry.readFilter filter = .ok value ∧
        index = before.methods.length ∧
        OpensTrigger before event filter listener value method after := by
  unfold openTrigger at run
  cases found : catalog.listener? event with
  | none =>
      rw [found] at run
      exact absurd run throw_ne_ok
  | some listener =>
      rw [found] at run
      obtain ⟨value, _, reading, run⟩ := bind_eq_ok.mp run
      obtain ⟨filterRead, rfl⟩ := liftExcept_eq_ok.mp reading
      obtain ⟨ordinal, _, counted, run⟩ := bind_eq_ok.mp run
      cases counted
      obtain ⟨index, _, defined, run⟩ := bind_eq_ok.mp run
      rw [defineMethod_eq] at defined
      cases defined
      obtain ⟨entry, _, taken, run⟩ := bind_eq_ok.mp run
      cases taken
      obtain ⟨_, marking, marked, run⟩ := bind_eq_ok.mp run
      obtain ⟨draft, emitted, rfl⟩ :=
        inMethod_spec (by exact withMethod_last before _) marked
      cases emitted
      obtain ⟨_, _, registered, run⟩ := bind_eq_ok.mp run
      cases registered
      obtain ⟨_, _, logged, run⟩ := bind_eq_ok.mp run
      cases logged
      obtain ⟨rfl, rfl⟩ := pure_eq_ok.mp run
      refine ⟨listener, value,
        ((Method.start
          ("@" ++ event ++ "@" ++ filter ++ "@" ++
            toString before.triggers.length)
          before.methods.length before.tables.nextLabel).emit
          (.marker (before.tables.nextLabel + 1))).2,
        rfl, filterRead, rfl, ?_⟩
      constructor <;> simp [Assembly.putBack, Assembly.triggerOrdinal,
        Method.emit, Method.start, Method.code, Tables.log, Tables.newLabel,
        withMethod]

end AssembleM

end TriggerScript
