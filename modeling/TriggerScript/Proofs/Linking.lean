import TriggerScript.Proofs.Placement
import TriggerScript.Proofs.Symbols

/-!
# Linked code

Labels are reached in the order of the code, and each patch is applied when
its label is reached.  Taken together:

* a patch is applied with the address of its label, if the label is marked
  anywhere;
* the instruction at a place is changed by the patches for that place alone;
* so methods drafted from symbolic code end up as that code with all targets
  resolved, numbered in one piece.
-/

namespace TriggerScript

/-! ## Which patches are applied -/

/-- The patches applied while labels are reached, each with its address. -/
def Patch.applied (pending : List Patch) :
    List (Nat × Nat) → List (Patch × Nat)
  | [] => []
  | (label, address) :: rest =>
      (pending.filter fun patch => patch.label == label).map
          (fun patch => (patch, address)) ++
        applied (pending.filter fun patch => patch.label != label) rest

def Patch.applyAll (due : List (Patch × Nat)) (methods : List Method) :
    List Method :=
  due.foldl (fun current pair => pair.1.apply pair.2 current) methods

/-- Each pending patch is applied with the first address of its label. -/
theorem Patch.mem_applied_iff {pending : List Patch}
    {labels : List (Nat × Nat)} {patch : Patch} {address : Nat} :
    (patch, address) ∈ applied pending labels ↔
      patch ∈ pending ∧ labels.lookup patch.label = some address := by
  induction labels generalizing pending with
  | nil =>
      simp [applied]
  | cons pair rest inductionHypothesis =>
      obtain ⟨label, reached⟩ := pair
      rw [applied, List.mem_append, inductionHypothesis]
      by_cases same : patch.label = label
      · subst same
        rw [List.lookup_cons_self]
        simp
      · have missed : (patch.label == label) = false := by
          simpa using same
        simp [same, List.lookup_cons, missed]

namespace Linking

theorem foldl_apply_methods (label address : Nat)
    (due : List Patch) (linking : Linking) :
    (due.foldl (fun current patch => current.apply label address patch)
        linking).methods =
      Patch.applyAll (due.map fun patch => (patch, address))
        linking.methods := by
  induction due generalizing linking with
  | nil =>
      rfl
  | cons patch rest inductionHypothesis =>
      rw [List.foldl_cons, inductionHypothesis]
      rfl

theorem foldl_apply_pending (label address : Nat)
    (due : List Patch) (linking : Linking) :
    (due.foldl (fun current patch => current.apply label address patch)
        linking).pending = linking.pending := by
  induction due generalizing linking with
  | nil =>
      rfl
  | cons patch rest inductionHypothesis =>
      rw [List.foldl_cons, inductionHypothesis]
      rfl

theorem reach_methods (linking : Linking) (label address : Nat) :
    (linking.reach label address).methods =
      Patch.applyAll
        ((linking.pending.toList.filter
          fun patch => patch.label == label).map
            fun patch => (patch, address))
        linking.methods := by
  rw [reach, ← Array.foldl_toList, foldl_apply_methods,
    Array.toList_filter]

theorem reach_pending (linking : Linking) (label address : Nat) :
    (linking.reach label address).pending.toList =
      linking.pending.toList.filter
        fun patch => patch.label != label := by
  rw [reach, ← Array.foldl_toList, foldl_apply_pending,
    Array.toList_filter]

theorem reachAll_methods (linking : Linking)
    (labels : List (Nat × Nat)) :
    (linking.reachAll labels).methods =
      Patch.applyAll (Patch.applied linking.pending.toList labels)
        linking.methods := by
  induction labels generalizing linking with
  | nil =>
      rfl
  | cons pair rest inductionHypothesis =>
      obtain ⟨label, address⟩ := pair
      change ((linking.reach label address).reachAll rest).methods = _
      rw [inductionHypothesis, reach_methods, reach_pending,
        Patch.applied, Patch.applyAll, Patch.applyAll, Patch.applyAll,
        List.foldl_append]

end Linking

/-! ## What a patch changes -/

def Method.instructionAt? (methods : List Method)
    (index position : Nat) : Option Instruction :=
  methods[index]?.bind fun method => method.instructions[position]?

namespace Method

theorem instructionAt?_eq_of_codes {methods : List Method}
    {codes : List (List Instruction)}
    (equality : methods.map code = codes) (index position : Nat) :
    instructionAt? methods index position =
      codes[index]?.bind fun code => code[position]? := by
  subst equality
  rw [instructionAt?, List.getElem?_map, Option.bind_map]
  cases methods[index]? with
  | none =>
      rfl
  | some method =>
      exact Array.getElem?_toList.symm

/-- The code of methods is known from its instructions. -/
theorem codes_eq_of_instructionAt? {methods : List Method}
    {codes : List (List Instruction)}
    (sameLength : methods.length = codes.length)
    (same : ∀ index position,
      instructionAt? methods index position =
        codes[index]?.bind fun code => code[position]?) :
    methods.map code = codes := by
  apply List.ext_getElem
  · rw [List.length_map, sameLength]
  · intro index inMethods inCodes
    apply List.ext_getElem?
    intro position
    have at_place := same index position
    rw [instructionAt?_eq_of_codes rfl,
      List.getElem?_eq_getElem inMethods,
      List.getElem?_eq_getElem inCodes] at at_place
    exact at_place

end Method

def Patch.isAt (patch : Patch) (index position : Nat) : Bool :=
  patch.method == index && patch.position == position

namespace Patch

theorem apply_withoutCode (patch : Patch) (address : Nat)
    (methods : List Method) :
    (patch.apply address methods).map Method.withoutCode =
      methods.map Method.withoutCode := by
  apply List.ext_getElem?
  intro index
  simp only [apply, List.getElem?_map, List.getElem?_modify]
  cases methods[index]? with
  | none =>
      rfl
  | some method =>
      by_cases same : patch.method = index <;>
        simp [same, Method.withoutCode]

theorem applyAll_withoutCode (due : List (Patch × Nat))
    (methods : List Method) :
    (applyAll due methods).map Method.withoutCode =
      methods.map Method.withoutCode := by
  induction due generalizing methods with
  | nil =>
      rfl
  | cons pair rest inductionHypothesis =>
      rw [applyAll, List.foldl_cons, ← applyAll, inductionHypothesis,
        apply_withoutCode]

theorem applyAll_length (due : List (Patch × Nat))
    (methods : List Method) :
    (applyAll due methods).length = methods.length := by
  have lengths :=
    congrArg List.length (applyAll_withoutCode due methods)
  simpa only [List.length_map] using lengths

theorem apply_instructionAt? (patch : Patch) (address : Nat)
    (methods : List Method) (index position : Nat) :
    Method.instructionAt? (patch.apply address methods) index position =
      (Method.instructionAt? methods index position).map
        fun instruction =>
          if patch.isAt index position then
            instruction.setOperand patch.slot address
          else
            instruction := by
  simp only [Method.instructionAt?, apply, List.getElem?_modify]
  cases methods[index]? with
  | none =>
      rfl
  | some method =>
      by_cases sameMethod : patch.method = index
      · by_cases samePosition : patch.position = position
        · simp [isAt, sameMethod, samePosition, Array.getElem?_modify]
        · simp [isAt, sameMethod, samePosition, Array.getElem?_modify]
      · simp [isAt, sameMethod]

/-- Only patches for a place change the instruction there. -/
theorem applyAll_instructionAt? (due : List (Patch × Nat))
    (methods : List Method) (index position : Nat) :
    Method.instructionAt? (applyAll due methods) index position =
      (Method.instructionAt? methods index position).map
        fun instruction =>
          (due.filter fun pair => pair.1.isAt index position).foldl
            (fun current pair =>
              current.setOperand pair.1.slot pair.2) instruction := by
  induction due generalizing methods with
  | nil =>
      simp [applyAll]
  | cons pair rest inductionHypothesis =>
      rw [applyAll, List.foldl_cons, ← applyAll, inductionHypothesis,
        apply_instructionAt?, Option.map_map]
      congr 1
      funext instruction
      cases place : pair.1.isAt index position <;>
        simp [place]

/-- Patches that all carry one address leave that address. -/
theorem foldl_setOperand {due : List (Patch × Nat)} {address : Nat}
    (uniform : ∀ pair ∈ due, pair.1.slot = .i ∧ pair.2 = address)
    (instruction : Instruction) :
    due.foldl
        (fun current pair => current.setOperand pair.1.slot pair.2)
        instruction =
      if due = [] then instruction
      else { instruction with i := address } := by
  induction due generalizing instruction with
  | nil =>
      rfl
  | cons pair rest inductionHypothesis =>
      obtain ⟨slotEq, addressEq⟩ := uniform pair List.mem_cons_self
      rw [List.foldl_cons, inductionHypothesis, slotEq, addressEq]
      · by_cases empty : rest = [] <;>
          simp [empty, Instruction.setOperand]
      · intro other member
        exact uniform other (List.mem_cons_of_mem pair member)

end Patch

/-! ## Where labels lie -/

namespace Symbol

def labelAddresses : Nat → List Symbol → List (Nat × Nat)
  | _, [] => []
  | base, marker label :: rest =>
      (label, base) :: labelAddresses base rest
  | base, _ :: rest => labelAddresses (base + 1) rest

def addressIn (codes : List (List Symbol)) (label : Nat) : Nat :=
  ((labelAddresses 0 codes.flatten).lookup label).getD 0

/-- An assignment of addresses is right for every label marked in some
code. -/
def Marked (addressOf : Nat → Nat) (base : Nat) (code : List Symbol) :
    Prop :=
  ∀ pair ∈ labelAddresses base code, addressOf pair.1 = pair.2

theorem labelAddresses_append (base : Nat) (left right : List Symbol) :
    labelAddresses base (left ++ right) =
      labelAddresses base left ++
        labelAddresses (base + size left) right := by
  induction left generalizing base with
  | nil =>
      rfl
  | cons symbol rest inductionHypothesis =>
      cases symbol <;>
        simp [labelAddresses, inductionHypothesis, Nat.add_assoc,
          Nat.add_comm 1]

theorem labelAddresses_map_fst (base : Nat) (code : List Symbol) :
    (labelAddresses base code).map Prod.fst = labels code := by
  induction code generalizing base with
  | nil =>
      rfl
  | cons symbol rest inductionHypothesis =>
      cases symbol <;>
        simp [labelAddresses, inductionHypothesis]

theorem marked_append {addressOf : Nat → Nat} {base : Nat}
    {left right : List Symbol} :
    Marked addressOf base (left ++ right) ↔
      Marked addressOf base left ∧
        Marked addressOf (base + size left) right := by
  unfold Marked
  rw [labelAddresses_append]
  exact List.forall_mem_append

/-- The label addresses read off drafted and numbered code. -/
theorem filterMap_place_draft (base : Nat) (code : List Symbol) :
    (Instruction.place base (code.map draft)).1.filterMap
        (fun instruction => instruction.label?.map
          fun label => (label, instruction.address)) =
      labelAddresses base code := by
  induction code generalizing base with
  | nil =>
      rfl
  | cons symbol rest inductionHypothesis =>
      rw [List.map_cons, Instruction.place_cons]
      cases symbol <;>
        simp [labelAddresses, inductionHypothesis, draft,
          Instruction.marker, Instruction.span]

theorem lookup_of_mem {pairs : List (Nat × Nat)} {label address : Nat}
    (distinct : (pairs.map Prod.fst).Nodup)
    (member : (label, address) ∈ pairs) :
    pairs.lookup label = some address := by
  induction pairs with
  | nil =>
      cases member
  | cons pair rest inductionHypothesis =>
      obtain ⟨absent, restDistinct⟩ := List.nodup_cons.mp distinct
      rcases List.mem_cons.mp member with rfl | later
      · exact List.lookup_cons_self
      · have different : (label == pair.1) = false := by
          apply beq_eq_false_iff_ne.mpr
          rintro rfl
          exact absent (List.mem_map.mpr ⟨_, later, rfl⟩)
        rw [List.lookup_cons, different]
        exact inductionHypothesis restDistinct later

/-- When no label is marked twice, every marker has the address that its
label is given. -/
theorem marked_addressIn {codes : List (List Symbol)}
    (distinct : (labels codes.flatten).Nodup) :
    Marked (addressIn codes) 0 codes.flatten := by
  intro pair member
  have found : (labelAddresses 0 codes.flatten).lookup pair.1 =
      some pair.2 := by
    apply lookup_of_mem _ member
    rw [labelAddresses_map_fst]
    exact distinct
  rw [addressIn, found]
  rfl

theorem place_markers (addressOf : Nat → Nat) (base : Nat)
    (labels : List Nat) :
    (Instruction.place base
        ((labels.map marker).map (resolve addressOf))).1 =
      labels.map fun label =>
        { Instruction.marker label with address := base } := by
  induction labels with
  | nil =>
      rfl
  | cons label labels inductionHypothesis =>
      rw [List.map_cons, List.map_cons, Instruction.place_cons,
        List.map_cons]
      exact congrArg _ inductionHypothesis

@[simp]
theorem span_draft (code : List Symbol) :
    Instruction.span (code.map draft) = size code := by
  rw [Instruction.span, size, List.countP_map]
  congr 1
  funext symbol
  simp

@[simp]
theorem span_resolve (addressOf : Nat → Nat) (code : List Symbol) :
    Instruction.span (code.map (resolve addressOf)) = size code := by
  rw [Instruction.span, size, List.countP_map]
  congr 1
  funext symbol
  simp

end Symbol

/-! ## The code of linked methods -/

/-- The patches for a place, with the addresses they are applied with. -/
def Patch.due (patches : Array Patch) (codes : List (List Symbol))
    (index position : Nat) : List (Patch × Nat) :=
  (applied patches.toList (Symbol.labelAddresses 0 codes.flatten)).filter
    fun pair => pair.1.isAt index position

/-- Methods hold the drafts of symbolic code, and there is a patch for every
branch in it. -/
structure Drafted (methods : List Method) (patches : Array Patch)
    (codes : List (List Symbol)) : Prop where
  code : methods.map Method.code = codes.map (List.map Symbol.draft)
  patches : patches.toList.Perm (Symbol.patchesFrom 0 codes)

namespace Drafted

variable {methods : List Method} {patches : Array Patch}
  {codes : List (List Symbol)}

theorem labelAddresses_eq (drafted : Drafted methods patches codes) :
    Method.labelAddresses (Method.place 0 methods).1 =
      Symbol.labelAddresses 0 codes.flatten := by
  rw [← Symbol.filterMap_place_draft, Method.labelAddresses]
  congr 1
  change (Method.place 0 methods).1.flatMap Method.code = _
  rw [List.flatMap_def, Method.place_codes,
    Instruction.placeAll_flatten, drafted.code, List.map_flatten]

theorem mem_patches_iff (drafted : Drafted methods patches codes)
    {patch : Patch} :
    patch ∈ patches ↔
      ∃ index code, codes[index]? = some code ∧
        patch ∈ Symbol.patches index 0 code := by
  rw [← Array.mem_toList_iff, drafted.patches.mem_iff,
    Symbol.mem_patchesFrom_iff]
  simp only [Nat.zero_add]

/-- The patches for a place belong to the branch that stands there. -/
theorem patch_at (drafted : Drafted methods patches codes)
    {index position : Nat} {code : List Symbol} {symbol : Symbol}
    (codeAt : codes[index]? = some code)
    (symbolAt : code[position]? = some symbol)
    {patch : Patch} (member : patch ∈ patches)
    (place : patch.isAt index position) :
    patch.slot = .i ∧ ∃ opcode, symbol = .branch opcode patch.label := by
  obtain ⟨otherIndex, otherCode, otherAt, inPatches⟩ :=
    drafted.mem_patches_iff.mp member
  obtain ⟨offset, opcode, found, equality⟩ :=
    Symbol.mem_patches_iff.mp inPatches
  simp only [Patch.isAt, Bool.and_eq_true, beq_iff_eq] at place
  have indexEq : otherIndex = index := by
    rw [← place.1, equality]
  have positionEq : offset = position := by
    rw [← place.2, equality, Nat.zero_add]
  subst indexEq positionEq
  rw [otherAt] at codeAt
  cases codeAt
  rw [found] at symbolAt
  cases symbolAt
  refine ⟨?_, opcode, rfl⟩
  rw [equality]

/-- There is a patch for every branch. -/
theorem patch_mem (drafted : Drafted methods patches codes)
    {index position target : Nat} {code : List Symbol} {opcode : Opcode}
    (codeAt : codes[index]? = some code)
    (symbolAt : code[position]? = some (.branch opcode target)) :
    ⟨target, index, position, .i⟩ ∈ patches :=
  drafted.mem_patches_iff.mpr ⟨index, code, codeAt,
    Symbol.mem_patches_iff.mpr ⟨position, opcode, symbolAt, by simp⟩⟩

theorem mem_due (drafted : Drafted methods patches codes)
    {index position : Nat} {code : List Symbol} {symbol : Symbol}
    (codeAt : codes[index]? = some code)
    (symbolAt : code[position]? = some symbol) {pair : Patch × Nat}
    (member : pair ∈ Patch.due patches codes index position) :
    pair.1.slot = .i ∧
      (∃ opcode, symbol = .branch opcode pair.1.label) ∧
      (Symbol.labelAddresses 0 codes.flatten).lookup pair.1.label =
        some pair.2 := by
  obtain ⟨isApplied, place⟩ := List.mem_filter.mp member
  obtain ⟨pending, found⟩ := Patch.mem_applied_iff.mp isApplied
  obtain ⟨slotEq, branches⟩ :=
    drafted.patch_at codeAt symbolAt (by simpa using pending) place
  exact ⟨slotEq, branches, found⟩

/-- A branch that no patch is applied to goes to an unmarked label. -/
theorem lookup_eq_none (drafted : Drafted methods patches codes)
    {index position target : Nat} {code : List Symbol}
    {opcode : Opcode} (codeAt : codes[index]? = some code)
    (symbolAt : code[position]? = some (.branch opcode target))
    (empty : Patch.due patches codes index position = []) :
    (Symbol.labelAddresses 0 codes.flatten).lookup target = none := by
  by_contra marked
  obtain ⟨reached, found⟩ := Option.ne_none_iff_exists'.mp marked
  let patch : Patch := ⟨target, index, position, .i⟩
  have pending : patch ∈ patches := drafted.patch_mem codeAt symbolAt
  have isDue :
      (patch, reached) ∈ Patch.due patches codes index position := by
    rw [Patch.due, List.mem_filter]
    exact ⟨Patch.mem_applied_iff.mpr ⟨by simpa using pending, found⟩,
      by simp [Patch.isAt, patch]⟩
  rw [empty] at isDue
  cases isDue

/-- Applying all patches resolves the symbol at each place. -/
theorem foldl_due_eq_resolve (drafted : Drafted methods patches codes)
    {index position : Nat} {code : List Symbol} {symbol : Symbol}
    (codeAt : codes[index]? = some code)
    (symbolAt : code[position]? = some symbol) (address : Nat) :
    (Patch.due patches codes index position).foldl
        (fun current pair => current.setOperand pair.1.slot pair.2)
        { symbol.draft with address } =
      { symbol.resolve (Symbol.addressIn codes) with address } := by
  have noneDue (unbranched : ∀ opcode target,
      symbol ≠ .branch opcode target) :
      Patch.due patches codes index position = [] := by
    apply List.eq_nil_iff_forall_not_mem.mpr
    intro pair member
    obtain ⟨_, ⟨opcode, equality⟩, _⟩ :=
      drafted.mem_due codeAt symbolAt member
    exact unbranched _ _ equality
  cases symbol with
  | op opcode operand =>
      rw [noneDue (fun _ _ => Symbol.noConfusion)]
      rfl
  | marker label =>
      rw [noneDue (fun _ _ => Symbol.noConfusion)]
      rfl
  | branch opcode target =>
      have uniform :
          ∀ pair ∈ Patch.due patches codes index position,
            pair.1.slot = .i ∧
              pair.2 = Symbol.addressIn codes target := by
        intro pair member
        obtain ⟨slotEq, ⟨_, equality⟩, found⟩ :=
          drafted.mem_due codeAt symbolAt member
        cases equality
        refine ⟨slotEq, ?_⟩
        rw [Symbol.addressIn, found]
        rfl
      rw [Patch.foldl_setOperand uniform]
      -- A branch to an unmarked label keeps the operand it was emitted with.
      by_cases empty : Patch.due patches codes index position = []
      · have unmarked := drafted.lookup_eq_none codeAt symbolAt empty
        rw [if_pos empty]
        simp [Symbol.draft, Symbol.resolve, Symbol.addressIn, unmarked]
      · rw [if_neg empty]
        rfl

end Drafted

namespace Program

variable {methods : List Method} {tables : Tables}
  {codes : List (List Symbol)} (triggers : List TriggerEntry)

/-- The address that linking gives to a label, if the label is marked. -/
def linkedAddress (codes : List (List Symbol)) (label default : Nat) :
    Nat :=
  ((Symbol.labelAddresses 0 codes.flatten).lookup label).getD default

theorem link_methods
    (drafted : Drafted methods tables.patches codes) :
    (link methods triggers tables).1.methods =
      (Patch.applyAll
          (Patch.applied tables.patches.toList
            (Symbol.labelAddresses 0 codes.flatten))
          (Method.place 0 methods).1).map
        fun method =>
          { method with
            address := linkedAddress codes method.entry
              method.address } := by
  change
    (Linking.reachAll
        ⟨(Method.place 0 methods).1, tables.patches, tables.events⟩
        (Method.labelAddresses (Method.place 0 methods).1)).methods.map
      _ = _
  rw [Linking.reachAll_methods, drafted.labelAddresses_eq]
  rfl

/-- Linked methods hold their symbolic code, resolved and numbered. -/
theorem link_codes (drafted : Drafted methods tables.patches codes) :
    (link methods triggers tables).1.methods.map Method.code =
      Instruction.placeAll 0
        (codes.map (List.map (Symbol.resolve (Symbol.addressIn codes)))) := by
  have placedCodes :
      (Method.place 0 methods).1.map Method.code =
        Instruction.placeAll 0 (codes.map (List.map Symbol.draft)) := by
    rw [Method.place_codes, drafted.code]
  rw [link_methods triggers drafted, List.map_map]
  change (Patch.applyAll _ _).map Method.code = _
  -- Compare place by place: a patch changes the instruction it is for only.
  apply Method.codes_eq_of_instructionAt?
  · rw [Patch.applyAll_length, ← List.length_map Method.code,
      placedCodes]
    simp only [Instruction.placeAll_length, List.length_map]
  · intro index position
    rw [Patch.applyAll_instructionAt?, ← Patch.due,
      Method.instructionAt?_eq_of_codes placedCodes,
      Instruction.placeAll_getElem?, Instruction.placeAll_getElem?,
      List.getElem?_map, List.getElem?_map]
    cases codeAt : codes[index]? with
    | none =>
        rfl
    | some code =>
        simp only [Option.map_some, Option.bind_some,
          Instruction.place_getElem?, List.getElem?_map]
        cases symbolAt : code[position]? with
        | none =>
            rfl
        | some symbol =>
            simp only [Option.map_some,
              drafted.foldl_due_eq_resolve codeAt symbolAt]
            simp only [← List.map_take, ← List.map_flatten,
              Symbol.span_draft, Symbol.span_resolve]

/-- Linking changes nothing of a method but its code and its address. -/
theorem link_withoutCode
    (drafted : Drafted methods tables.patches codes) :
    (link methods triggers tables).1.methods.map Method.withoutCode =
      methods.map fun method =>
        method.frameAt
          (linkedAddress codes method.entry method.address) := by
  have unchanged :
      (Patch.applyAll
          (Patch.applied tables.patches.toList
            (Symbol.labelAddresses 0 codes.flatten))
          (Method.place 0 methods).1).map Method.withoutCode =
        methods.map Method.withoutCode := by
    rw [Patch.applyAll_withoutCode, Method.place_withoutCode]
  have readdressed := congrArg
    (List.map fun method : Method =>
      { method with
        address := linkedAddress codes method.entry method.address })
    unchanged
  rw [List.map_map, List.map_map] at readdressed
  rw [link_methods triggers drafted, List.map_map]
  exact readdressed

theorem link_triggers
    (drafted : Drafted methods tables.patches codes) :
    (link methods triggers tables).1.triggers =
      triggers.map fun trigger =>
        { trigger with
          address := linkedAddress codes trigger.entry
            trigger.address } := by
  change triggers.map _ = _
  rw [drafted.labelAddresses_eq]
  rfl

/-- The last line of the log tells how many methods and addresses there
are. -/
theorem link_log
    (drafted : Drafted methods tables.patches codes) :
    (link methods triggers tables).2.back? =
      some (.addressesAssigned methods.length
        (Symbol.size codes.flatten)) := by
  have stop : (Method.place 0 methods).2 = Symbol.size codes.flatten := by
    rw [Method.place_stop, Nat.zero_add, List.flatMap_def, drafted.code,
      ← List.map_flatten, Symbol.span_draft]
  rw [← stop]
  exact Array.back?_push

end Program

end TriggerScript
