import TriggerScript.Proofs.Declarations

/-!
# Whole scripts

The declarations of a script are worked off in order.  A procedure finishes
the method it was given before; a trigger adds a method of its own.  At the
end the pieces are exactly the declarations of the script, all of them are
finished, and linking turns their symbolic code into the code of the program.
-/

namespace TriggerScript

/-- A row of the trigger table leads to a piece. -/
structure Registered (catalog : Catalog) (piece : Piece)
    (row : TriggerEntry) : Prop where
  entry : piece.alias? = some row.entry
  source : ∃ filter listener,
    piece.declaration.trigger? = some (row.event, filter) ∧
      catalog.listener? row.event = some listener ∧
      row.listenerId = listener.id ∧
      TriggerEntry.readFilter filter = .ok row.filter

/-- How far a script is assembled when the declarations in `rest` are still
to come. -/
structure Progress (catalog : Catalog) (rest : List Node)
    (assembly : Assembly) (finished waiting triggers : List Piece) :
    Prop where
  holds : assembly.Holds catalog (finished ++ (waiting ++ triggers))
  pending : waiting.map Piece.declaration = Declaration.procs rest
  unfinished : ∀ piece ∈ waiting, piece.body? = none
  assembled : ∀ piece ∈ finished ++ triggers, piece.body?.isSome
  plain : ∀ piece ∈ finished ++ waiting, piece.alias? = none
  distinct : ((finished ++ waiting).map fun piece =>
    piece.declaration.name).Nodup
  registered : List.Forall₂ (Registered catalog) triggers
    assembly.triggers

namespace Progress

variable {catalog : Catalog} {rest : List Node}
  {before after : Assembly} {finished waiting triggers : List Piece}

theorem methodNames_eq
    (progress : Progress catalog rest before finished waiting triggers) :
    before.methodNames =
      (finished ++ (waiting ++ triggers)).map fun piece =>
        piece.declaration.name := by
  rw [progress.holds.methodNames_eq]
  apply List.map_congr_left
  intro piece member
  exact (progress.holds.valid piece member).name

/-- The method of the next procedure is found by its name. -/
theorem idxOf?_name {piece : Piece}
    (progress : Progress catalog rest before finished
      (piece :: waiting) triggers) :
    before.methodNames.idxOf? piece.declaration.name =
      some finished.length := by
  have absent : piece.declaration.name ∉
      finished.map fun other => other.declaration.name := by
    intro member
    have distinct := progress.distinct
    rw [List.map_append, List.map_cons] at distinct
    exact (List.nodup_append.mp distinct).2.2 _ member _
      List.mem_cons_self rfl
  have member : piece.declaration.name ∈ before.methodNames := by
    rw [progress.methodNames_eq]
    simp
  rw [idxOf?_eq_some_idxOf member, progress.methodNames_eq,
    List.map_append, List.idxOf_append_of_notMem absent,
    List.length_map, List.cons_append, List.map_cons,
    List.idxOf_cons_self, Nat.add_zero]

theorem proc_step {name : String} {params : List Param} {body : Node}
    (progress : Progress catalog (.proc name params body :: rest)
      before finished waiting triggers)
    (run : AssembleM.assembleDeclaration catalog
      (.proc name params body) before = .ok () after) :
    ∃ piece unfinished,
      Progress catalog rest after (finished ++ [piece]) unfinished
          triggers ∧
        piece.declaration = ⟨name, params, body, none⟩ := by
  cases waiting with
  | nil =>
      cases progress.pending
  | cons piece unfinished =>
      obtain ⟨declarationEq, pending⟩ := List.cons.inj progress.pending
      have nameEq : piece.declaration.name = name := by
        rw [declarationEq]
      have bodyEq : piece.declaration.body = body := by
        rw [declarationEq]
      obtain ⟨index?, _, looked, bodyRun⟩ := bind_eq_ok.mp run
      cases looked
      have found := progress.idxOf?_name
      rw [nameEq] at found
      rw [found] at bodyRun
      rw [← bodyEq] at bodyRun
      have holds := progress.holds
      rw [List.cons_append] at holds
      obtain ⟨changed, finalHolds, changedDeclaration, changedAlias,
        changedBody, _, triggersEq⟩ :=
        AssembleM.assembleBody_holds holds
          (progress.unfinished piece List.mem_cons_self) bodyRun
      refine ⟨changed, unfinished, ?_,
        changedDeclaration.trans declarationEq⟩
      constructor
      · simpa using finalHolds
      · exact pending
      · intro other member
        exact progress.unfinished other
          (List.mem_cons_of_mem piece member)
      · intro other member
        simp only [List.mem_append, List.mem_singleton] at member
        rcases member with (old | rfl) | trigger
        · exact progress.assembled other
            (List.mem_append_left triggers old)
        · exact changedBody
        · exact progress.assembled other
            (List.mem_append_right finished trigger)
      · intro other member
        simp only [List.mem_append, List.mem_singleton] at member
        rcases member with (old | rfl) | later
        · exact progress.plain other (List.mem_append_left _ old)
        · rw [changedAlias]
          exact progress.plain piece (by simp)
        · exact progress.plain other (by simp [later])
      · have distinct := progress.distinct
        simpa [changedDeclaration] using distinct
      · rw [triggersEq]
        exact progress.registered

theorem trigger_step {event filter : String} {body : Node}
    (progress : Progress catalog (.trigger event filter body :: rest)
      before finished waiting triggers)
    (run : AssembleM.assembleDeclaration catalog
      (.trigger event filter body) before = .ok () after) :
    ∃ piece,
      Progress catalog rest after finished waiting
          (triggers ++ [piece]) ∧
        piece.declaration =
          ⟨"@" ++ event ++ "@" ++ filter ++ "@" ++
              toString triggers.length, [], body,
            some (event, filter)⟩ := by
  obtain ⟨_, middle, opened, bodyRun⟩ := bind_eq_ok.mp run
  obtain ⟨listener, value, method, listening, reading, rfl, opens⟩ :=
    AssembleM.openTrigger_spec opened
  have ordinalEq : before.triggers.length = triggers.length :=
    progress.registered.length_eq.symm
  have nameEq := opens.name
  rw [ordinalEq] at nameEq
  let piece : Piece :=
    ⟨⟨"@" ++ event ++ "@" ++ filter ++ "@" ++ toString triggers.length,
        [], body, some (event, filter)⟩,
      method, some (before.tables.nextLabel + 1), none⟩
  have pieceCode : piece.code =
      [.marker before.tables.nextLabel,
        .marker (before.tables.nextLabel + 1)] := by
    simp [piece, Piece.code, Piece.ending, opens.entry]
  have valid : piece.Valid catalog middle := by
    refine ⟨nameEq, ?_, ?_, opens.params, ?_⟩
    · rw [pieceCode]
      exact opens.code
    · constructor
      · simp [piece, opens.locals]
      · simp [piece, Method.localNames, opens.locals]
    · intro body assembled
      cases assembled
  -- The method is added with its two markers before its body is assembled.
  have extended : middle.Holds catalog
      (finished ++ (waiting ++ triggers) ++ [piece]) := by
    apply progress.holds.append opens.methods opens.patches
      opens.constants opens.index valid
    · intro index
      rw [pieceCode]
      rfl
    · simp [pieceCode]
    · simp [pieceCode]
    · simp [pieceCode, opens.nextLabel]
    · rw [opens.nextLabel]
      omega
  rw [progress.holds.length_methods] at bodyRun
  obtain ⟨changed, finalHolds, changedDeclaration, changedAlias,
    changedBody, _, triggersEq⟩ :=
    AssembleM.assembleBody_holds extended rfl bodyRun
  refine ⟨changed, ?_, changedDeclaration⟩
  constructor
  · simpa using finalHolds
  · exact progress.pending
  · exact progress.unfinished
  · intro other member
    simp only [List.mem_append, List.mem_singleton] at member
    rcases member with done | trigger | rfl
    · exact progress.assembled other (List.mem_append_left _ done)
    · exact progress.assembled other (List.mem_append_right _ trigger)
    · exact changedBody
  · exact progress.plain
  · exact progress.distinct
  · rw [triggersEq, opens.rows]
    refine List.rel_append progress.registered (.cons ?_ .nil)
    refine ⟨changedAlias, filter, listener, ?_, listening, rfl, reading⟩
    rw [changedDeclaration]

/-- Working off all declarations that are left. -/
theorem run
    (progress : Progress catalog rest before finished waiting triggers)
    (run : rest.forM (AssembleM.assembleDeclaration catalog) before =
      .ok () after) :
    ∃ procs made,
      Progress catalog [] after procs [] made ∧
        procs.map Piece.declaration =
          finished.map Piece.declaration ++ Declaration.procs rest ∧
        made.map Piece.declaration =
          triggers.map Piece.declaration ++
            Declaration.triggers triggers.length rest := by
  induction rest generalizing before finished waiting triggers with
  | nil =>
      obtain ⟨_, rfl⟩ := pure_eq_ok.mp run
      have empty : waiting = [] := List.map_eq_nil_iff.mp progress.pending
      subst empty
      exact ⟨finished, triggers, progress,
        by simp [Declaration.procs], by simp [Declaration.triggers]⟩
  | cons node rest inductionHypothesis =>
      obtain ⟨_, middle, nodeRun, restRun⟩ := bind_eq_ok.mp run
      cases node with
      | trigger event filter body =>
          obtain ⟨piece, next, pieceEq⟩ := progress.trigger_step nodeRun
          obtain ⟨procs, made, final, procsEq, madeEq⟩ :=
            inductionHypothesis next restRun
          refine ⟨procs, made, final, procsEq, ?_⟩
          rw [madeEq, List.map_append, List.map_singleton, pieceEq,
            List.length_append, List.length_singleton,
            List.append_assoc, List.singleton_append]
          rfl
      | proc name params body =>
          obtain ⟨piece, unfinished, next, pieceEq⟩ :=
            progress.proc_step nodeRun
          obtain ⟨procs, made, final, procsEq, madeEq⟩ :=
            inductionHypothesis next restRun
          refine ⟨procs, made, final, ?_, madeEq⟩
          rw [procsEq, List.map_append, List.map_singleton, pieceEq,
            List.append_assoc, List.singleton_append]
          rfl
      | block | declare | assign | branch | call | literal | compare
      | var =>
          exact absurd nodeRun throw_ne_ok

end Progress

/-- Once every procedure has its method, all declarations are still to
come. -/
theorem AssembleM.hoistAll_progress {catalog : Catalog}
    {nodes : List Node} {middle : Assembly}
    (hoisting : hoistAll nodes {} = .ok () middle) :
    ∃ waiting, Progress catalog nodes middle [] waiting [] := by
  obtain ⟨waiting, holds, distinct, triggersEq, declarations,
    unfinished⟩ :=
    hoistAll_holds (Assembly.Holds.empty catalog) List.nodup_nil hoisting
  refine ⟨waiting, ?_⟩
  constructor
  · simpa using holds
  · exact declarations
  · exact fun piece member => (unfinished piece member).2
  · simp
  · exact fun piece member => (unfinished piece (by simpa using member)).1
  · have names := holds.methodNames_eq
    rw [names] at distinct
    have sameNames :
        waiting.map (fun piece => piece.declaration.name) =
          waiting.map fun piece => piece.method.name := by
      apply List.map_congr_left
      intro piece member
      exact (holds.valid piece (by simpa using member)).name.symm
    rw [List.nil_append, sameNames]
    simpa using distinct
  · rw [triggersEq]
    exact .nil

/-- The pieces of a script that was assembled to its end. -/
theorem AssembleM.assembleScript_spec {catalog : Catalog}
    {nodes : List Node} {assembly : Assembly}
    (run : assembleScript catalog nodes {} = .ok () assembly) :
    ∃ procs triggers : List Piece,
      assembly.Holds catalog (procs ++ triggers) ∧
        procs.map Piece.declaration = Declaration.procs nodes ∧
        triggers.map Piece.declaration =
          Declaration.triggers 0 nodes ∧
        (∀ piece ∈ procs ++ triggers, piece.body?.isSome) ∧
        (∀ piece ∈ procs, piece.alias? = none) ∧
        List.Forall₂ (Registered catalog) triggers
          assembly.triggers := by
  obtain ⟨_, middle, hoisting, assembling⟩ := bind_eq_ok.mp run
  obtain ⟨waiting, progress⟩ : ∃ waiting,
      Progress catalog nodes middle [] waiting [] :=
    hoistAll_progress hoisting
  obtain ⟨procs, triggers, final, procsEq, triggersMade⟩ :=
    progress.run assembling
  refine ⟨procs, triggers, by simpa using final.holds, procsEq, ?_,
    final.assembled, ?_, final.registered⟩
  · simpa using triggersMade
  · simpa using final.plain

/-! ## Linked programs -/

/-- What the names in a method of a finished program stand for. -/
def Program.bindings (catalog : Catalog) (program : Program)
    (method : Method) : Bindings where
  catalog := catalog
  methods := program.methods.map Method.name
  constants := program.constants
  locals := method.localNames

/-- The method that a piece becomes when its code begins at `base` and labels
have the given addresses. -/
structure Piece.Becomes (catalog : Catalog) (program : Program)
    (addressOf : Nat → Nat) (base : Nat) (piece : Piece)
    (method : Method) : Prop where
  frame : method.withoutCode = piece.method.frameAt base
  code : method.code =
    (Instruction.place base
      (piece.code.map (Symbol.resolve addressOf))).1
  marked : Symbol.Marked addressOf base piece.code
  name : method.name = piece.declaration.name
  numbered : method.Numbered
  params : method.params = List.range piece.declaration.params.length
  body : ∃ body first last, piece.body? = some body ∧
    Emits (program.bindings catalog method) [piece.declaration.body]
      first body last

/-- How a program comes from the pieces of a script. -/
structure Linked (catalog : Catalog) (nodes : List Node)
    (program : Program) (procs triggers : List Piece)
    (addressOf : Nat → Nat) : Prop where
  ofProcs : procs.map Piece.declaration = Declaration.procs nodes
  ofTriggers : triggers.map Piece.declaration =
    Declaration.triggers 0 nodes
  length : program.methods.length = (procs ++ triggers).length
  indexed : program.methods.map Method.index =
    List.range program.methods.length
  becomes : ∀ (index : Nat) (piece : Piece) (method : Method),
    (procs ++ triggers)[index]? = some piece →
    program.methods[index]? = some method →
      piece.Becomes catalog program addressOf
        (Symbol.size (((procs ++ triggers).take index).flatMap
          Piece.code)) method
  flat : program.methods.flatMap Method.code =
    (Instruction.place 0
      (((procs ++ triggers).flatMap Piece.code).map
        (Symbol.resolve addressOf))).1
  plain : ∀ piece ∈ procs, piece.alias? = none
  rows : List.Forall₂
    (fun piece row => Registered catalog piece row ∧
      row.address = addressOf row.entry) triggers program.triggers
  counted : (Program.assembleLogged catalog nodes).2.back? =
    some (.addressesAssigned program.methods.length
      (Symbol.size ((procs ++ triggers).flatMap Piece.code)))

namespace Piece.Becomes

variable {catalog : Catalog} {program : Program}
  {addressOf : Nat → Nat} {base : Nat} {piece : Piece}
  {method : Method}

theorem address_eq
    (becomes : piece.Becomes catalog program addressOf base method) :
    method.address = base := by
  change method.withoutCode.address = base
  rw [becomes.frame]
  rfl

/-- The code of a finished piece: its markers, its body and the way out. -/
theorem code_eq
    (becomes : piece.Becomes catalog program addressOf base method) :
    ∃ body first last,
      Emits (program.bindings catalog method) [piece.declaration.body]
          first body last ∧
        piece.code =
          (piece.method.entry :: piece.alias?.toList).map Symbol.marker ++
            (body ++ [.op .ret 0]) ∧
        Symbol.Marked addressOf base body := by
  obtain ⟨body, first, last, isBody, emitted⟩ := becomes.body
  have codeEq : piece.code =
      (piece.method.entry :: piece.alias?.toList).map Symbol.marker ++
        (body ++ [.op .ret 0]) := by
    rw [Piece.code, isBody]
    rfl
  have marked := becomes.marked
  rw [codeEq, Symbol.marked_append, Symbol.marked_append,
    Symbol.size_markers, Nat.add_zero] at marked
  exact ⟨body, first, last, emitted, codeEq, marked.2.1⟩

theorem method_code
    (becomes : piece.Becomes catalog program addressOf base method) :
    ∃ body first last,
      Emits (program.bindings catalog method) [piece.declaration.body]
          first body last ∧
        method.code =
          (method.entry :: piece.alias?.toList).map (fun label =>
              { Instruction.marker label with address := base }) ++
            (Instruction.place base
              (body.map (Symbol.resolve addressOf))).1 ++
            [{ opcode := .ret, address := base + Symbol.size body }] ∧
        Symbol.Marked addressOf base body := by
  obtain ⟨body, first, last, emitted, codeEq, marked⟩ := becomes.code_eq
  refine ⟨body, first, last, emitted, ?_, marked⟩
  have entryEq : method.entry = piece.method.entry :=
    Method.field_eq_of_frame becomes.frame Method.entry fun _ _ => rfl
  rw [becomes.code, codeEq, List.map_append, List.map_append,
    Instruction.place_append, Instruction.place_append,
    Symbol.span_resolve, Symbol.span_resolve, Symbol.size_markers,
    Nat.add_zero, Symbol.place_markers, entryEq, List.append_assoc]
  rfl

/-- In a method exactly the label markers have labels. -/
theorem isLabel_eq
    (becomes : piece.Becomes catalog program addressOf base method) :
    ∀ instruction ∈ piece.code.map (Symbol.resolve addressOf),
      instruction.isLabel = instruction.label?.isSome := by
  obtain ⟨body, first, last, emitted, codeEq, _⟩ := becomes.code_eq
  intro instruction member
  obtain ⟨symbol, inCode, rfl⟩ := List.mem_map.mp member
  rw [Symbol.resolve_label?]
  rw [codeEq, List.mem_append, List.mem_append] at inCode
  rcases inCode with isMarker | inBody | isReturn
  · obtain ⟨label, _, rfl⟩ := List.mem_map.mp isMarker
    rfl
  · exact (emitted.fits symbol inBody).isLabel_resolve
  · rw [List.mem_singleton.mp isReturn]
    rfl

end Piece.Becomes

namespace Linked

variable {catalog : Catalog} {nodes : List Node} {program : Program}
  {procs triggers : List Piece} {addressOf : Nat → Nat}

theorem becomes_of_mem
    (linked : Linked catalog nodes program procs triggers addressOf)
    {method : Method} (member : method ∈ program.methods) :
    ∃ (piece : Piece) (base : Nat),
      piece.Becomes catalog program addressOf base method := by
  obtain ⟨index, bound, rfl⟩ := List.mem_iff_getElem.mp member
  have pieceBound : index < (procs ++ triggers).length := by
    rw [← linked.length]
    exact bound
  exact ⟨_, _, linked.becomes index _ _
    (List.getElem?_eq_getElem pieceBound)
    (List.getElem?_eq_getElem bound)⟩

theorem exists_becomes
    (linked : Linked catalog nodes program procs triggers addressOf)
    {piece : Piece} (member : piece ∈ procs ++ triggers) :
    ∃ method base,
      piece.Becomes catalog program addressOf base method := by
  obtain ⟨index, bound, rfl⟩ := List.mem_iff_getElem.mp member
  have methodBound : index < program.methods.length := by
    rw [linked.length]
    exact bound
  exact ⟨_, _, linked.becomes index _ _
    (List.getElem?_eq_getElem bound)
    (List.getElem?_eq_getElem methodBound)⟩

/-- What is true of every piece and the method it becomes is true of the
declarations and the methods in order. -/
theorem forall₂
    (linked : Linked catalog nodes program procs triggers addressOf)
    {related : Declaration → Method → Prop}
    (each : ∀ (piece : Piece) (method : Method) (base : Nat),
      method ∈ program.methods →
      piece.Becomes catalog program addressOf base method →
        related piece.declaration method) :
    List.Forall₂ related (Declaration.all nodes) program.methods := by
  have declared : Declaration.all nodes =
      (procs ++ triggers).map Piece.declaration := by
    rw [Declaration.all, List.map_append, linked.ofProcs,
      linked.ofTriggers]
  rw [declared, List.forall₂_map_left_iff, List.forall₂_iff_get]
  refine ⟨linked.length.symm, ?_⟩
  intro index pieceBound methodBound
  exact each _ _ _ (List.getElem_mem methodBound)
    (linked.becomes index _ _
      (List.getElem?_eq_getElem pieceBound)
      (List.getElem?_eq_getElem methodBound))

theorem methodNames_eq
    (linked : Linked catalog nodes program procs triggers addressOf) :
    program.methods.map Method.name =
      (Declaration.all nodes).map Declaration.name := by
  have named : List.Forall₂
      (fun declaration method => declaration.name = method.name)
      (Declaration.all nodes) program.methods := by
    apply linked.forall₂
    intro piece method base _ becomes
    exact becomes.name.symm
  have mapped : List.Forall₂ Eq
      ((Declaration.all nodes).map Declaration.name)
      (program.methods.map Method.name) := by
    rw [List.forall₂_map_left_iff, List.forall₂_map_right_iff]
    exact named
  rw [List.forall₂_eq_eq_eq] at mapped
  exact mapped.symm

end Linked

namespace Assembly.Holds

variable {catalog : Catalog} {assembly : Assembly}
  {pieces : List Piece}

theorem drafted (holds : assembly.Holds catalog pieces) :
    Drafted assembly.methods assembly.tables.patches
      (pieces.map Piece.code) where
  code := by
    rw [holds.methods, List.map_map, List.map_map]
    apply List.map_congr_left
    intro piece member
    exact (holds.valid piece member).drafted
  patches := holds.patches

/-- A marked label is linked to the address that its marker gets. -/
theorem linkedAddress_eq (holds : assembly.Holds catalog pieces)
    {label : Nat}
    (member : label ∈ Symbol.labels (pieces.flatMap Piece.code))
    (default : Nat) :
    Program.linkedAddress (pieces.map Piece.code) label default =
      Symbol.addressIn (pieces.map Piece.code) label := by
  rw [List.flatMap_def, ← Symbol.labelAddresses_map_fst 0] at member
  obtain ⟨pair, found, rfl⟩ := List.mem_map.mp member
  have lookup := Symbol.lookup_of_mem
    (by
      rw [Symbol.labelAddresses_map_fst, ← List.flatMap_def]
      exact holds.distinct) found
  rw [Program.linkedAddress, Symbol.addressIn, lookup]
  rfl

/-- Every piece is marked with the addresses of the whole program. -/
theorem marked (holds : assembly.Holds catalog pieces)
    {index : Nat} {piece : Piece}
    (pieceAt : pieces[index]? = some piece) :
    Symbol.Marked (Symbol.addressIn (pieces.map Piece.code))
      (Symbol.size ((pieces.take index).flatMap Piece.code))
      piece.code := by
  have whole : Symbol.Marked
      (Symbol.addressIn (pieces.map Piece.code)) 0
      (pieces.flatMap Piece.code) := by
    rw [List.flatMap_def]
    apply Symbol.marked_addressIn
    rw [← List.flatMap_def]
    exact holds.distinct
  have split : pieces.flatMap Piece.code =
      (pieces.take index).flatMap Piece.code ++
        (piece.code ++ (pieces.drop (index + 1)).flatMap Piece.code) := by
    obtain ⟨bound, rfl⟩ := List.getElem?_eq_some_iff.mp pieceAt
    rw [← List.flatMap_cons, ← List.drop_eq_getElem_cons bound,
      ← List.flatMap_append, List.take_append_drop]
  rw [split, Symbol.marked_append, Symbol.marked_append,
    Nat.zero_add] at whole
  exact whole.2.1

/-- The label of the entry marker lies at the start of the piece. -/
theorem addressIn_entry (holds : assembly.Holds catalog pieces)
    {index : Nat} {piece : Piece}
    (pieceAt : pieces[index]? = some piece) :
    Symbol.addressIn (pieces.map Piece.code) piece.method.entry =
      Symbol.size ((pieces.take index).flatMap Piece.code) := by
  apply holds.marked pieceAt (piece.method.entry, _)
  exact List.mem_cons_self

theorem entry_mem_labels {piece : Piece} (member : piece ∈ pieces) :
    piece.method.entry ∈ Symbol.labels (pieces.flatMap Piece.code) := by
  obtain ⟨left, right, rfl⟩ := List.append_of_mem member
  simp [Piece.code]

theorem alias_mem_labels {piece : Piece} {label : Nat}
    (member : piece ∈ pieces) (aliased : piece.alias? = some label) :
    label ∈ Symbol.labels (pieces.flatMap Piece.code) := by
  obtain ⟨left, right, rfl⟩ := List.append_of_mem member
  simp [Piece.code, aliased]

theorem draftAt (holds : assembly.Holds catalog pieces)
    {index : Nat} {piece : Piece}
    (pieceAt : pieces[index]? = some piece) :
    assembly.methods[index]? = some piece.method := by
  rw [holds.methods, List.getElem?_map, pieceAt]
  rfl

variable {triggers : List TriggerEntry}

theorem link_frame (holds : assembly.Holds catalog pieces)
    {index : Nat} {piece : Piece} {method : Method}
    (pieceAt : pieces[index]? = some piece)
    (methodAt : (Program.link assembly.methods triggers
      assembly.tables).1.methods[index]? = some method) :
    method.withoutCode =
      piece.method.frameAt
        (Symbol.size ((pieces.take index).flatMap Piece.code)) := by
  have frames := congrArg (fun methods => methods[index]?)
    (Program.link_withoutCode triggers holds.drafted)
  simp only [List.getElem?_map, methodAt, holds.draftAt pieceAt,
    Option.map_some, Option.some.injEq] at frames
  have member : piece ∈ pieces := List.mem_of_getElem? pieceAt
  rw [frames, holds.linkedAddress_eq (entry_mem_labels member),
    holds.addressIn_entry pieceAt]

theorem link_code (holds : assembly.Holds catalog pieces)
    {index : Nat} {piece : Piece} {method : Method}
    (pieceAt : pieces[index]? = some piece)
    (methodAt : (Program.link assembly.methods triggers
      assembly.tables).1.methods[index]? = some method) :
    method.code =
      (Instruction.place
        (Symbol.size ((pieces.take index).flatMap Piece.code))
        (piece.code.map (Symbol.resolve
          (Symbol.addressIn (pieces.map Piece.code))))).1 := by
  have codes := congrArg (fun codes => codes[index]?)
    (Program.link_codes triggers holds.drafted)
  simp only [List.getElem?_map, methodAt, pieceAt, Option.map_some,
    Instruction.placeAll_getElem?, Option.some.injEq,
    Nat.zero_add] at codes
  rw [codes, ← List.map_take, ← List.map_flatten, Symbol.span_resolve,
    ← List.map_take, List.flatMap_def]

theorem link_length (holds : assembly.Holds catalog pieces) :
    (Program.link assembly.methods triggers
      assembly.tables).1.methods.length = pieces.length := by
  have lengths := congrArg List.length
    (Program.link_withoutCode triggers holds.drafted)
  simpa [holds.methods] using lengths

/-- A field that linking does not touch. -/
theorem link_map_eq {α : Type} (holds : assembly.Holds catalog pieces)
    (field : Method → α)
    (ignored : ∀ (method : Method) (address : Nat),
      field (method.frameAt address) = field method) :
    (Program.link assembly.methods triggers
        assembly.tables).1.methods.map field =
      pieces.map fun piece => field piece.method := by
  have fields := congrArg (List.map field)
    (Program.link_withoutCode triggers holds.drafted)
  have before (method : Method) :
      field method.withoutCode = field method :=
    ignored method method.address
  simpa [Function.comp_def, before, ignored, holds.methods] using fields

theorem becomes (holds : assembly.Holds catalog pieces)
    (assembled : ∀ piece ∈ pieces, piece.body?.isSome)
    {index : Nat} {piece : Piece} {method : Method}
    (pieceAt : pieces[index]? = some piece)
    (methodAt : (Program.link assembly.methods triggers
      assembly.tables).1.methods[index]? = some method) :
    piece.Becomes catalog
      (Program.link assembly.methods triggers assembly.tables).1
      (Symbol.addressIn (pieces.map Piece.code))
      (Symbol.size ((pieces.take index).flatMap Piece.code))
      method := by
  have member : piece ∈ pieces := List.mem_of_getElem? pieceAt
  have valid := holds.valid piece member
  have frame := holds.link_frame pieceAt methodAt
  have localsEq : method.locals = piece.method.locals :=
    Method.field_eq_of_frame frame Method.locals fun _ _ => rfl
  have namesEq : method.localNames = piece.method.localNames := by
    rw [Method.localNames, localsEq, Method.localNames]
  have methodsEq : (Program.link assembly.methods triggers
      assembly.tables).1.methods.map Method.name =
        assembly.methodNames := by
    rw [holds.methodNames_eq]
    exact holds.link_map_eq Method.name fun _ _ => rfl
  refine ⟨frame, holds.link_code pieceAt methodAt,
    holds.marked pieceAt, ?_, ?_, ?_, ?_⟩
  · exact (Method.field_eq_of_frame frame Method.name
      fun _ _ => rfl).trans valid.name
  · constructor
    · rw [localsEq]
      exact valid.numbered.index
    · rw [namesEq]
      exact valid.numbered.distinct
  · exact (Method.field_eq_of_frame frame Method.params
      fun _ _ => rfl).trans valid.params
  · obtain ⟨body, isBody⟩ :=
      Option.isSome_iff_exists.mp (assembled piece member)
    obtain ⟨first, last, emitted⟩ := valid.emits body isBody
      ((Program.link assembly.methods triggers
        assembly.tables).1.bindings catalog method)
      ⟨rfl, by simp [Program.bindings, methodsEq], List.prefix_rfl,
        by simp [Program.bindings, namesEq]⟩
    exact ⟨body, first, last, isBody, emitted⟩

end Assembly.Holds

namespace Program

theorem assemble_eq_ok {catalog : Catalog} {nodes : List Node}
    {program : Program}
    (assembled : assemble catalog nodes = .ok program) :
    ∃ assembly : Assembly,
      AssembleM.assembleScript catalog nodes {} = .ok () assembly ∧
        program = (link assembly.methods assembly.triggers
          assembly.tables).1 ∧
        (assembleLogged catalog nodes).2 =
          (link assembly.methods assembly.triggers
            assembly.tables).2 := by
  unfold assemble assembleLogged at assembled
  unfold assembleLogged
  cases run : AssembleM.assembleScript catalog nodes {} with
  | error error assembly =>
      rw [run] at assembled
      cases assembled
  | ok value assembly =>
      rw [run] at assembled
      cases assembled
      exact ⟨assembly, rfl, rfl, rfl⟩

/-- Every assembled program is linked from the pieces of its script. -/
theorem assemble_linked {catalog : Catalog} {nodes : List Node}
    {program : Program}
    (assembled : assemble catalog nodes = .ok program) :
    ∃ procs triggers addressOf,
      Linked catalog nodes program procs triggers addressOf := by
  obtain ⟨assembly, run, rfl, log⟩ := assemble_eq_ok assembled
  obtain ⟨procs, triggers, holds, ofProcs, ofTriggers, finished, plain,
    registered⟩ := AssembleM.assembleScript_spec run
  refine ⟨procs, triggers,
    Symbol.addressIn ((procs ++ triggers).map Piece.code),
    ofProcs, ofTriggers, holds.link_length, ?_, ?_, ?_, plain, ?_, ?_⟩
  · rw [holds.link_map_eq Method.index fun _ _ => rfl,
      holds.link_length]
    exact holds.indexed
  · intro index piece method pieceAt methodAt
    exact holds.becomes finished pieceAt methodAt
  · rw [List.flatMap_def, link_codes _ holds.drafted,
      Instruction.placeAll_flatten, List.flatMap_def, List.map_flatten]
  · rw [link_triggers _ holds.drafted, List.forall₂_map_right_iff]
    have members : List.Forall₂
        (fun piece row => piece ∈ triggers ∧
          Registered catalog piece row) triggers assembly.triggers :=
      (List.forall₂_and_left _ _).mpr
        ⟨fun _ member => member, registered⟩
    refine members.imp ?_
    rintro piece row ⟨member, known⟩
    refine ⟨⟨known.entry, known.source⟩, ?_⟩
    apply holds.linkedAddress_eq
    exact Assembly.Holds.alias_mem_labels
      (List.mem_append_right procs member) known.entry
  · rw [log, link_log _ holds.drafted, holds.length_methods,
      holds.link_length, List.flatMap_def]

end Program

/-! ## An example -/

def doorCatalog : Catalog where
  functions := [⟨.void, "open", [⟨.int, "door"⟩], 7⟩]
  listeners := [⟨"knock", [], 3⟩]

/-- A conditional inside a conditional, a host function, a call to a procedure
further down, and constants that are used twice. -/
def doorScript : List Node :=
  [.trigger "knock" "2" (.block
      [.call "open" [.literal (.int 1)],
        .call "greet" [.literal (.string "dog")]]),
    .proc "greet" [⟨"guest", "string"⟩] (.block
      [.branch
        (.compare (.var "guest") .equal (.literal (.string "cat")))
        (.call "open" [.literal (.int 1)])
        (some (.block
          [.declare "bool" "late" (some (.literal (.bool true))),
            .branch (.var "late")
              (.assign "late" (.literal (.bool false))) none]))])]

def doorProgram : Program where
  methods :=
    [{ name := "greet"
       index := 0
       instructions :=
        #[⟨.label, 0, 0, 0, 0, some 0⟩,
          ⟨.getVariable, 0, 0, 0, 0, none⟩,
          ⟨.pushConst, 2, 0, 0, 1, none⟩,
          ⟨.equal, 0, 0, 0, 2, none⟩,
          ⟨.jumpIfZero, 7, 0, 0, 3, none⟩,
          ⟨.pushConst, 0, 0, 0, 4, none⟩,
          ⟨.callNative, 7, 0, 0, 5, none⟩,
          ⟨.jump, 14, 0, 0, 6, none⟩,
          ⟨.label, 0, 0, 0, 7, some 3⟩,
          ⟨.pushConst, 0, 0, 0, 7, none⟩,
          ⟨.setVariable, 1, 0, 0, 8, none⟩,
          ⟨.getVariable, 1, 0, 0, 9, none⟩,
          ⟨.jumpIfZero, 14, 0, 0, 10, none⟩,
          ⟨.pushConst, 3, 0, 0, 11, none⟩,
          ⟨.setVariable, 1, 0, 0, 12, none⟩,
          ⟨.jump, 14, 0, 0, 13, none⟩,
          ⟨.label, 0, 0, 0, 14, some 5⟩,
          ⟨.label, 0, 0, 0, 14, some 6⟩,
          ⟨.label, 0, 0, 0, 14, some 4⟩,
          ⟨.ret, 0, 0, 0, 14, none⟩]
       locals := [⟨"guest", 0, .string⟩, ⟨"late", 1, .bool⟩]
       params := [0]
       entry := 0
       address := 0 },
     { name := "@knock@2@0"
       index := 1
       instructions :=
        #[⟨.label, 0, 0, 0, 15, some 1⟩,
          ⟨.label, 0, 0, 0, 15, some 2⟩,
          ⟨.pushConst, 0, 0, 0, 15, none⟩,
          ⟨.callNative, 7, 0, 0, 16, none⟩,
          ⟨.pushConst, 1, 0, 0, 17, none⟩,
          ⟨.call, 0, 0, 0, 18, none⟩,
          ⟨.ret, 0, 0, 0, 19, none⟩]
       entry := 1
       address := 15 }]
  constants := [.int 1, .string "dog", .string "cat", .int 0]
  triggers := [⟨"knock", 3, 2, 2, 15⟩]

theorem assemble_door :
    Program.assemble doorCatalog doorScript = .ok doorProgram := by
  have evaluated :
      (Program.assemble doorCatalog doorScript).toOption =
        some doorProgram := by
    decide +kernel
  cases result : Program.assemble doorCatalog doorScript with
  | error error =>
      rw [result] at evaluated
      cases evaluated
  | ok program =>
      rw [result] at evaluated
      rw [Option.some.inj evaluated]

end TriggerScript
