import TriggerScript.Proofs.LabelNumbers

/-!
# Patched branches

When methods have been numbered, one pass over all markers puts addresses into
the branches.  Each branch has one patch, and the label that the patch waits
for is marked further down in the same method.  So the pass applies every patch
once, with the address of a marker behind the branch, and none is left over.

* `Symbol.Forward` says that branches lead to markers behind them.
* `Linking.reachAll_eq` writes the pass as one patch after another.
* `Drafted.countP_isAt` counts the patches for a place.
-/

namespace TriggerScript

/-! ## Branches lead forward -/

namespace Symbol

def target? : Symbol → Option Nat
  | branch _ target => some target
  | _ => none

/-- Every branch goes to a label that is marked behind it. -/
def Forward : List Symbol → Prop
  | [] => True
  | symbol :: rest =>
      (∀ target, symbol.target? = some target → target ∈ labels rest) ∧
        Forward rest

theorem forward_append {left right : List Symbol} (inLeft : Forward left)
    (inRight : Forward right) : Forward (left ++ right) := by
  induction left with
  | nil =>
      exact inRight
  | cons symbol rest inductionHypothesis =>
      rw [List.cons_append]
      refine ⟨?_, inductionHypothesis inLeft.2⟩
      intro target branches
      rw [labels_append]
      exact List.mem_append_left _ (inLeft.1 target branches)

/-- Code without branches leads nowhere. -/
theorem forward_of_target? {code : List Symbol}
    (plain : ∀ symbol ∈ code, symbol.target? = none) : Forward code := by
  induction code with
  | nil =>
      trivial
  | cons symbol rest inductionHypothesis =>
      obtain ⟨first, others⟩ := List.forall_mem_cons.mp plain
      refine ⟨?_, inductionHypothesis others⟩
      intro target branches
      rw [first] at branches
      cases branches

theorem forward_conditional {test positive negative : List Symbol}
    {other done : Nat} (inTest : Forward test)
    (inPositive : Forward positive) (inNegative : Forward negative) :
    Forward (conditional test positive negative other done) := by
  have ending : Forward (negative ++ [marker done]) :=
    forward_append inNegative (forward_of_target? (by simp [target?]))
  have leaving : Forward
      (branch .jump done :: marker other :: (negative ++ [marker done])) := by
    refine ⟨?_, ?_, ending⟩
    · simp [target?]
    · simp [target?]
  have taking : Forward (branch .jumpIfZero other :: (positive ++
      branch .jump done :: marker other :: (negative ++ [marker done]))) := by
    refine ⟨?_, forward_append inPositive leaving⟩
    simp [target?]
  have whole := forward_append inTest taking
  simpa [conditional] using whole

theorem Forward.exists_marker {code : List Symbol} (forward : Forward code)
    {position target : Nat} {symbol : Symbol}
    (symbolAt : code[position]? = some symbol)
    (branches : symbol.target? = some target) :
    ∃ place, position < place ∧ code[place]? = some (marker target) := by
  induction code generalizing position with
  | nil =>
      cases symbolAt
  | cons first rest inductionHypothesis =>
      cases position with
      | zero =>
          cases symbolAt
          obtain ⟨found, member, marks⟩ :=
            List.mem_filterMap.mp (forward.1 target branches)
          obtain ⟨place, foundAt⟩ := List.mem_iff_getElem?.mp member
          have isMarker : found = marker target := by
            cases found with
            | marker label =>
                cases marks
                rfl
            | op | branch =>
                cases marks
          exact ⟨place + 1, Nat.succ_pos place,
            by simpa [isMarker] using foundAt⟩
      | succ position =>
          obtain ⟨place, behind, placed⟩ :=
            inductionHypothesis forward.2 (by simpa using symbolAt)
          exact ⟨place + 1, Nat.succ_lt_succ behind, by simpa using placed⟩

end Symbol

theorem Emits.forward {bindings : Bindings} {nodes : List Node}
    {first last : Nat} {code : List Symbol}
    (emitted : Emits bindings nodes first code last) :
    Symbol.Forward code := by
  have plain (opcode : Opcode) (operand : Nat) :
      Symbol.Forward [.op opcode operand] :=
    Symbol.forward_of_target? (by simp [Symbol.target?])
  induction emitted with
  | nil | declare =>
      trivial
  | literal | var =>
      exact plain _ _
  | block _ statements =>
      exact statements
  | cons _ _ head tail =>
      exact Symbol.forward_append head tail
  | define _ _ _ value =>
      exact Symbol.forward_append value (plain _ _)
  | assign _ _ value =>
      exact Symbol.forward_append value (plain _ _)
  | call _ _ _ arguments =>
      exact Symbol.forward_append arguments (plain _ _)
  | equal _ _ left right =>
      exact Symbol.forward_append (Symbol.forward_append left right)
        (plain _ _)
  | branch _ _ _ test positive negative =>
      exact Symbol.forward_conditional test positive negative

theorem Symbol.Fits.isBranch_resolve {bindings : Bindings}
    {symbol : Symbol} {addressOf : Nat → Nat}
    (fits : symbol.Fits bindings) :
    (symbol.resolve addressOf).opcode.isBranch =
      symbol.target?.isSome := by
  cases symbol with
  | op opcode operand =>
      cases opcode with
      | pushConst | equal | call | callNative | getVariable
      | setVariable =>
          rfl
      | jump | getLocal | setLocal | ret | jumpIfZero | label =>
          exact fits.elim
  | branch opcode target =>
      exact fits
  | marker label =>
      rfl

/-! ## The pass over all labels -/

def Patch.AllWaitFor (labels : List (Nat × Nat)) (pending : List Patch) :
    Prop :=
  ∀ patch ∈ pending, patch.label ∈ labels.map Prod.fst

theorem Patch.AllWaitFor.eq_nil {pending : List Patch}
    (waiting : AllWaitFor [] pending) : pending = [] := by
  apply List.eq_nil_iff_forall_not_mem.mpr
  intro patch member
  cases waiting patch member

theorem Patch.AllWaitFor.tail {label address : Nat}
    {rest : List (Nat × Nat)} {pending : List Patch}
    (waiting : AllWaitFor ((label, address) :: rest) pending) :
    AllWaitFor rest
      (pending.filter fun patch => patch.label != label) := by
  intro patch member
  obtain ⟨inPending, others⟩ := List.mem_filter.mp member
  rcases List.mem_cons.mp (waiting patch inPending) with here | behind
  · exact absurd here (by simpa using others)
  · exact behind

namespace Linking

def applyAll (linking : Linking) (due : List (Patch × Nat)) : Linking :=
  due.foldl (fun current pair => current.apply pair.1.label pair.2 pair.1)
    linking

theorem applyAll_append (linking : Linking)
    (left right : List (Patch × Nat)) :
    linking.applyAll (left ++ right) =
      (linking.applyAll left).applyAll right :=
  List.foldl_append

/-- Applying patches leaves alone what is pending. -/
theorem applyAll_withPending (linking : Linking)
    (due : List (Patch × Nat)) (pending : Array Patch) :
    { linking with pending }.applyAll due =
      { linking.applyAll due with pending } := by
  induction due generalizing linking with
  | nil =>
      rfl
  | cons pair rest inductionHypothesis =>
      exact inductionHypothesis (linking.apply pair.1.label pair.2 pair.1)

theorem reach_eq (linking : Linking) (label address : Nat) :
    linking.reach label address =
      { linking with
        pending := linking.pending.filter
          fun patch => patch.label != label }.applyAll
        ((linking.pending.toList.filter
          fun patch : Patch => patch.label == label).map
            fun patch => (patch, address)) := by
  rw [reach, ← Array.foldl_toList, Array.toList_filter, applyAll,
    List.foldl_map]
  apply List.foldl_ext
  intro current patch member
  have waits : patch.label = label := by
    simpa using (List.mem_filter.mp member).2
  rw [waits]

/-- Where all patches wait for labels that are reached, the pass applies them
one after another and leaves none over. -/
theorem reachAll_eq {linking : Linking} {labels : List (Nat × Nat)}
    (waiting : Patch.AllWaitFor labels linking.pending.toList) :
    linking.reachAll labels =
      { linking with pending := #[] }.applyAll
        (Patch.applied linking.pending.toList labels) := by
  induction labels generalizing linking with
  | nil =>
      have empty : linking.pending = #[] :=
        Array.toList_eq_nil_iff.mp waiting.eq_nil
      cases linking
      cases empty
      rfl
  | cons pair rest inductionHypothesis =>
      obtain ⟨label, address⟩ := pair
      have later : Patch.AllWaitFor rest
          (linking.reach label address).pending.toList := by
        rw [reach_pending]
        exact waiting.tail
      change (linking.reach label address).reachAll rest = _
      -- What is still pending plays no part in applying a patch, so it can be
      -- emptied before the first one.
      rw [inductionHypothesis later, reach_pending, Patch.applied,
        applyAll_append, reach_eq, ← applyAll_withPending]

end Linking

namespace Patch

/-- The place that a patch is for: a method and a position in it. -/
def place (patch : Patch) : Nat × Nat :=
  (patch.method, patch.position)

/-- Where all patches wait for labels that are reached, each is applied
once. -/
theorem applied_perm {pending : List Patch} {labels : List (Nat × Nat)}
    (waiting : AllWaitFor labels pending) :
    ((applied pending labels).map Prod.fst).Perm pending := by
  induction labels generalizing pending with
  | nil =>
      rw [waiting.eq_nil]
      exact .nil
  | cons pair rest inductionHypothesis =>
      obtain ⟨label, address⟩ := pair
      have here : (pending.filter fun patch => patch.label == label).map
          (Prod.fst ∘ fun patch => (patch, address)) =
            pending.filter fun patch => patch.label == label :=
        List.map_id' _
      rw [applied, List.map_append, List.map_map, here]
      exact ((inductionHypothesis waiting.tail).append_left _).trans
        (List.filter_append_perm _ _)

end Patch

/-! ## One patch for every branch -/

namespace Symbol

theorem nodup_places (method position : Nat) (code : List Symbol) :
    ((patches method position code).map Patch.place).Nodup := by
  induction code generalizing position with
  | nil =>
      exact List.nodup_nil
  | cons symbol rest inductionHypothesis =>
      cases symbol with
      | op opcode operand =>
          exact inductionHypothesis (position + 1)
      | marker label =>
          exact inductionHypothesis (position + 1)
      | branch opcode target =>
          rw [patches, List.map_cons, List.nodup_cons]
          refine ⟨?_, inductionHypothesis (position + 1)⟩
          intro member
          obtain ⟨patch, inPatches, same⟩ := List.mem_map.mp member
          obtain ⟨offset, _, _, equality⟩ := mem_patches_iff.mp inPatches
          rw [equality] at same
          have positions : position + 1 + offset = position :=
            (Prod.mk.inj same).2
          omega

theorem nodup_placesFrom (first : Nat) (codes : List (List Symbol)) :
    ((patchesFrom first codes).map Patch.place).Nodup := by
  induction codes generalizing first with
  | nil =>
      exact List.nodup_nil
  | cons code rest inductionHypothesis =>
      rw [patchesFrom, List.map_append]
      refine (nodup_places first 0 code).append
        (inductionHypothesis (first + 1)) ?_
      intro place inCode inRest
      obtain ⟨patch, inPatches, rfl⟩ := List.mem_map.mp inCode
      obtain ⟨other, inOthers, same⟩ := List.mem_map.mp inRest
      obtain ⟨_, _, _, equality⟩ := mem_patches_iff.mp inPatches
      obtain ⟨index, _, _, inOther⟩ := mem_patchesFrom_iff.mp inOthers
      obtain ⟨_, _, _, otherEquality⟩ := mem_patches_iff.mp inOther
      rw [equality, otherEquality] at same
      have methods : first + 1 + index = first := (Prod.mk.inj same).1
      omega

end Symbol

namespace Drafted

variable {methods : List Method} {patches : Array Patch}
  {codes : List (List Symbol)}

/-- A branch has one patch, and no other symbol has any. -/
theorem countP_isAt (drafted : Drafted methods patches codes)
    {index position : Nat} {code : List Symbol} {symbol : Symbol}
    (codeAt : codes[index]? = some code)
    (symbolAt : code[position]? = some symbol) :
    patches.toList.countP (fun patch => patch.isAt index position) =
      if symbol.target?.isSome then 1 else 0 := by
  -- No two patches are for the same place, so only whether there is one
  -- matters.
  have counted : patches.toList.countP
      (fun patch => patch.isAt index position) =
        (patches.toList.map Patch.place).count (index, position) := by
    rw [List.count, List.countP_map]
    rfl
  have distinct : (patches.toList.map Patch.place).Nodup :=
    (drafted.patches.map Patch.place).nodup_iff.mpr
      (Symbol.nodup_placesFrom 0 codes)
  have member : (index, position) ∈ patches.toList.map Patch.place ↔
      symbol.target?.isSome = true := by
    constructor
    · intro placed
      obtain ⟨patch, inPatches, same⟩ := List.mem_map.mp placed
      obtain ⟨methodEq, positionEq⟩ := Prod.mk.inj same
      obtain ⟨_, opcode, branches⟩ := drafted.patch_at codeAt symbolAt
        (Array.mem_toList_iff.mp inPatches)
        (by simp [Patch.isAt, methodEq, positionEq])
      rw [branches]
      rfl
    · intro branches
      cases symbol with
      | branch opcode target =>
          exact List.mem_map.mpr ⟨_, Array.mem_toList_iff.mpr
            (drafted.patch_mem codeAt symbolAt), rfl⟩
      | op | marker =>
          cases branches
  rw [counted, distinct.count]
  simp only [member]

/-- In forward code every patch waits for a label that is marked. -/
theorem allWaitFor (drafted : Drafted methods patches codes)
    (forward : ∀ code ∈ codes, Symbol.Forward code) :
    Patch.AllWaitFor (Symbol.labelAddresses 0 codes.flatten)
      patches.toList := by
  intro patch member
  obtain ⟨index, code, codeAt, inPatches⟩ :=
    drafted.mem_patches_iff.mp (Array.mem_toList_iff.mp member)
  obtain ⟨offset, opcode, symbolAt, _⟩ :=
    Symbol.mem_patches_iff.mp inPatches
  have inCodes := List.mem_of_getElem? codeAt
  obtain ⟨place, _, markerAt⟩ :=
    (forward code inCodes).exists_marker symbolAt rfl
  rw [Symbol.labelAddresses_map_fst]
  exact List.mem_filterMap.mpr ⟨_, List.mem_flatten.mpr
    ⟨code, inCodes, List.mem_of_getElem? markerAt⟩, rfl⟩

end Drafted

/-! ## The code of pieces -/

namespace Piece.Becomes

variable {catalog : Catalog} {program : Program} {addressOf : Nat → Nat}
  {base : Nat} {piece : Piece} {method : Method}

theorem forward
    (becomes : piece.Becomes catalog program addressOf base method) :
    Symbol.Forward piece.code := by
  obtain ⟨body, first, last, emitted, codeEq, _⟩ := becomes.code_eq
  rw [codeEq]
  apply Symbol.forward_append
  · apply Symbol.forward_of_target?
    intro symbol member
    obtain ⟨label, _, rfl⟩ := List.mem_map.mp member
    rfl
  · apply Symbol.forward_append emitted.forward
    exact Symbol.forward_of_target? (by simp [Symbol.target?])

theorem isBranch_eq
    (becomes : piece.Becomes catalog program addressOf base method)
    {symbol : Symbol} (member : symbol ∈ piece.code) :
    (symbol.resolve addressOf).opcode.isBranch =
      symbol.target?.isSome := by
  obtain ⟨body, first, last, emitted, codeEq, _⟩ := becomes.code_eq
  rw [codeEq, List.mem_append, List.mem_append] at member
  rcases member with isMarker | inBody | isReturn
  · obtain ⟨label, _, rfl⟩ := List.mem_map.mp isMarker
    rfl
  · exact (emitted.fits symbol inBody).isBranch_resolve
  · rw [List.mem_singleton.mp isReturn]
    rfl

theorem code_getElem?
    (becomes : piece.Becomes catalog program addressOf base method)
    (position : Nat) :
    method.code[position]? = piece.code[position]?.map fun symbol =>
      { symbol.resolve addressOf with
        address := base + Symbol.size (piece.code.take position) } := by
  rw [becomes.code, Instruction.place_getElem?, ← List.map_take,
    Symbol.span_resolve, List.getElem?_map, Option.map_map]
  rfl

/-- Markers have the addresses of their labels. -/
theorem addressOf_marker
    (becomes : piece.Becomes catalog program addressOf base method)
    {position label : Nat}
    (markerAt : piece.code[position]? = some (.marker label)) :
    addressOf label =
      base + Symbol.size (piece.code.take position) := by
  obtain ⟨bound, markerEq⟩ := List.getElem?_eq_some_iff.mp markerAt
  have split : piece.code = piece.code.take position ++
      .marker label :: piece.code.drop (position + 1) := by
    rw [← markerEq, ← List.drop_eq_getElem_cons bound,
      List.take_append_drop]
  have member : (label, base + Symbol.size (piece.code.take position)) ∈
      Symbol.labelAddresses base (piece.code.take position ++
        .marker label :: piece.code.drop (position + 1)) := by
    rw [Symbol.labelAddresses_append]
    exact List.mem_append_right _ List.mem_cons_self
  rw [← split] at member
  exact becomes.marked _ member

end Piece.Becomes

/-! ## Programs -/

/-- A patch was for a branch, and the address that the branch now has is that
of the marker of the label, which stands behind it in the same method. -/
def Program.LeadsToMarker (program : Program) (patch : Patch)
    (address : Nat) : Prop :=
  ∃ (method : Method) (branch marker : Instruction) (place : Nat),
    program.methods[patch.method]? = some method ∧
      method.code[patch.position]? = some branch ∧
      branch.opcode.isBranch = true ∧ branch.i = address ∧
      patch.position < place ∧
      method.code[place]? = some marker ∧
      marker.label? = some patch.label ∧ marker.address = address

namespace Assembly

def linking (assembly : Assembly) : Linking :=
  ⟨(Method.place 0 assembly.methods).1, assembly.tables.patches,
    assembly.tables.events⟩

/-- The methods of an assembly once the pass over all labels has ended. -/
def linked (assembly : Assembly) : Linking :=
  assembly.linking.reachAll
    (Method.labelAddresses assembly.linking.methods)

/-- The patches that link the methods of an assembly to those of a program,
each with the address it is applied with. -/
structure LinksBy (assembly : Assembly) (due : List (Patch × Nat))
    (program : Program) : Prop where
  /-- The pass applies these patches, in this order, and leaves none over. -/
  pass : assembly.linked =
    { assembly.linking with pending := #[] }.applyAll due
  finished : assembly.linked.pending = #[]
  /-- Each patch that was recorded is among them once. -/
  recorded : (due.map Prod.fst).Perm assembly.tables.patches.toList
  code : program.methods.map Method.code =
    assembly.linked.methods.map Method.code
  /-- Every branch gets one patch, and no other instruction gets any. -/
  once : ∀ (index position : Nat) (method : Method)
      (instruction : Instruction),
    program.methods[index]? = some method →
    method.code[position]? = some instruction →
      due.countP (fun pair => pair.1.isAt index position) =
        if instruction.opcode.isBranch then 1 else 0
  forward : ∀ patch address, (patch, address) ∈ due →
    program.LeadsToMarker patch address

theorem linked_code (assembly : Assembly) (triggers : List TriggerEntry) :
    (Program.link assembly.methods triggers
      assembly.tables).1.methods.map Method.code =
      assembly.linked.methods.map Method.code := by
  change (assembly.linked.methods.map _).map Method.code = _
  rw [List.map_map]
  rfl

namespace Holds

variable {catalog : Catalog} {assembly : Assembly} {pieces : List Piece}
  {triggers : List TriggerEntry}

/-- The piece and the symbol behind an instruction of a program. -/
theorem symbolAt (holds : assembly.Holds catalog pieces)
    (assembled : ∀ piece ∈ pieces, piece.body?.isSome)
    {index position : Nat} {method : Method} {instruction : Instruction}
    (methodAt : (Program.link assembly.methods triggers
      assembly.tables).1.methods[index]? = some method)
    (instructionAt : method.code[position]? = some instruction) :
    ∃ piece symbol, pieces[index]? = some piece ∧
      piece.code[position]? = some symbol ∧
      instruction.opcode.isBranch = symbol.target?.isSome := by
  have bound : index < pieces.length := by
    rw [← holds.link_length]
    exact (List.getElem?_eq_some_iff.mp methodAt).1
  have pieceAt := List.getElem?_eq_getElem bound
  have becomes := holds.becomes assembled pieceAt methodAt
  rw [becomes.code_getElem?] at instructionAt
  obtain ⟨symbol, symbolAt, rfl⟩ := Option.map_eq_some_iff.mp instructionAt
  exact ⟨_, symbol, pieceAt, symbolAt,
    becomes.isBranch_eq (List.mem_of_getElem? symbolAt)⟩

theorem becomesAt (holds : assembly.Holds catalog pieces)
    (assembled : ∀ piece ∈ pieces, piece.body?.isSome)
    (triggers : List TriggerEntry) {index : Nat} {piece : Piece}
    (pieceAt : pieces[index]? = some piece) :
    ∃ method, (Program.link assembly.methods triggers
        assembly.tables).1.methods[index]? = some method ∧
      piece.Becomes catalog
        (Program.link assembly.methods triggers assembly.tables).1
        (Symbol.addressIn (pieces.map Piece.code))
        (Symbol.size ((pieces.take index).flatMap Piece.code))
        method := by
  have bound : index < (Program.link assembly.methods triggers
      assembly.tables).1.methods.length := by
    rw [holds.link_length]
    exact (List.getElem?_eq_some_iff.mp pieceAt).1
  have methodAt := List.getElem?_eq_getElem bound
  exact ⟨_, methodAt, holds.becomes assembled pieceAt methodAt⟩

theorem allForward (holds : assembly.Holds catalog pieces)
    (assembled : ∀ piece ∈ pieces, piece.body?.isSome) :
    ∀ code ∈ pieces.map Piece.code, Symbol.Forward code := by
  intro code member
  obtain ⟨piece, inPieces, rfl⟩ := List.mem_map.mp member
  obtain ⟨index, pieceAt⟩ := List.mem_iff_getElem?.mp inPieces
  obtain ⟨method, _, becomes⟩ := holds.becomesAt assembled [] pieceAt
  exact becomes.forward

/-- A patch is for a branch and carries the address of a marker behind it. -/
theorem exists_marker (holds : assembly.Holds catalog pieces)
    (assembled : ∀ piece ∈ pieces, piece.body?.isSome)
    (triggers : List TriggerEntry) {patch : Patch} {address : Nat}
    (member : patch ∈ assembly.tables.patches)
    (found : (Symbol.labelAddresses 0
      (pieces.map Piece.code).flatten).lookup patch.label = some address) :
    Program.LeadsToMarker
      (Program.link assembly.methods triggers assembly.tables).1
      patch address := by
  obtain ⟨index, code, codeAt, isPatch⟩ :=
    holds.drafted.mem_patches_iff.mp member
  obtain ⟨offset, opcode, symbolAt, equality⟩ :=
    Symbol.mem_patches_iff.mp isPatch
  rw [List.getElem?_map] at codeAt
  obtain ⟨piece, pieceAt, rfl⟩ := Option.map_eq_some_iff.mp codeAt
  obtain ⟨method, methodAt, becomes⟩ :=
    holds.becomesAt assembled triggers pieceAt
  obtain ⟨place, behind, markerAt⟩ :=
    becomes.forward.exists_marker symbolAt rfl
  -- Branch and marker are two symbols of one piece, and resolving moves
  -- neither.
  have branchAt := becomes.code_getElem? offset
  rw [symbolAt] at branchAt
  have placedAt := becomes.code_getElem? place
  rw [markerAt] at placedAt
  have addressEq : Symbol.addressIn (pieces.map Piece.code) patch.label =
      address := by
    rw [Symbol.addressIn, found]
    rfl
  have methodEq : patch.method = index := by
    rw [equality]
  have positionEq : patch.position = offset := by
    rw [equality, Nat.zero_add]
  have isBranch := becomes.isBranch_eq (List.mem_of_getElem? symbolAt)
  have markerAddress := becomes.addressOf_marker markerAt
  rw [addressEq] at markerAddress
  rw [← methodEq] at methodAt
  rw [← positionEq] at branchAt behind
  exact ⟨method, _, _, place, methodAt, branchAt, isBranch, addressEq,
    behind, placedAt, rfl, markerAddress.symm⟩

theorem linksBy (holds : assembly.Holds catalog pieces)
    (assembled : ∀ piece ∈ pieces, piece.body?.isSome) :
    assembly.LinksBy
      (Patch.applied assembly.tables.patches.toList
        (Symbol.labelAddresses 0 (pieces.map Piece.code).flatten))
      (Program.link assembly.methods triggers assembly.tables).1 := by
  have waiting := holds.drafted.allWaitFor (holds.allForward assembled)
  have pass : assembly.linked =
      { assembly.linking with pending := #[] }.applyAll
        (Patch.applied assembly.tables.patches.toList
          (Symbol.labelAddresses 0 (pieces.map Piece.code).flatten)) := by
    have labels := holds.drafted.labelAddresses_eq
    change Method.labelAddresses assembly.linking.methods = _ at labels
    rw [linked, labels]
    exact Linking.reachAll_eq waiting
  refine ⟨pass, ?_, Patch.applied_perm waiting,
    assembly.linked_code triggers, ?_, ?_⟩
  · rw [pass, Linking.applyAll_withPending]
  · intro index position method instruction methodAt instructionAt
    obtain ⟨piece, symbol, pieceAt, symbolAt, branches⟩ :=
      holds.symbolAt assembled methodAt instructionAt
    have codeAt : (pieces.map Piece.code)[index]? = some piece.code := by
      rw [List.getElem?_map, pieceAt]
      rfl
    rw [branches, ← holds.drafted.countP_isAt codeAt symbolAt,
      ← (Patch.applied_perm waiting).countP_eq, List.countP_map]
    rfl
  · intro patch address member
    obtain ⟨inPatches, found⟩ := Patch.mem_applied_iff.mp member
    exact holds.exists_marker assembled triggers
      (Array.mem_toList_iff.mp inPatches) found

end Holds

end Assembly

/-- The labels of a script are marked once each in its program.  The pass over
them puts an address into every branch once and into nothing else, always that
of a marker behind the branch in the same method, and leaves no patch over. -/
theorem Program.assemble_links_once {catalog : Catalog}
    {nodes : List Node} {program : Program}
    (assembled : assemble catalog nodes = .ok program) :
    ((program.methods.flatMap Method.code).filterMap
        Instruction.label?).Perm (List.range (Script.labelCount nodes)) ∧
      ∃ assembly due,
        AssembleM.assembleScript catalog nodes {} = .ok () assembly ∧
          program = (link assembly.methods assembly.triggers
            assembly.tables).1 ∧
          assembly.LinksBy due program := by
  refine ⟨assemble_labels_perm assembled, ?_⟩
  obtain ⟨assembly, run, rfl, _⟩ := assemble_eq_ok assembled
  obtain ⟨procs, triggers, holds, _, _, finished, _⟩ :=
    AssembleM.assembleScript_spec run
  exact ⟨assembly, _, run, rfl, holds.linksBy finished⟩

theorem assemble_links_once_door :
    Program.assemble doorCatalog doorScript = .ok doorProgram ∧
      Script.labelCount doorScript = 7 ∧
      ((doorProgram.methods.flatMap Method.code).filterMap
        Instruction.label?).Perm
          (List.range (Script.labelCount doorScript)) ∧
      ∃ assembly due,
        AssembleM.assembleScript doorCatalog doorScript {} =
            .ok () assembly ∧
          doorProgram = (Program.link assembly.methods assembly.triggers
            assembly.tables).1 ∧
          assembly.LinksBy due doorProgram :=
  ⟨assemble_door, by decide +kernel,
    Program.assemble_links_once assemble_door⟩

end TriggerScript
