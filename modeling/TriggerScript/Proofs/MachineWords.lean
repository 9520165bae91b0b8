import Mathlib.Data.List.Perm.Subperm
import Mathlib.Data.Nat.Digits.Defs
import TriggerScript.Proofs.Extent
import TriggerScript.Proofs.ImageRoundTrip
import TriggerScript.Proofs.LabelNumbers
import TriggerScript.Proofs.ScriptPrograms
import TriggerScript.Proofs.Stages

/-!
# Compiled programs fit into machine words

The weight of a script bounds all numbers of its program: how many methods,
instructions, variables, constants and triggers there are, the addresses, the
labels and the lengths of all texts.  A source text of less than `2 ^ 63` bytes
has a script of weight less than `2 ^ 64`.  So its program can be written as an
image and read back.
-/

namespace TriggerScript

/-! ## Bodies -/

namespace Node

theorem ownOperations_add_labels_le (tree : Node) :
    tree.ownOperations + (if tree.isConditional then 2 else 0) ≤
      tree.weight := by
  cases tree with
  | declare type name value =>
      cases value <;> simp [ownOperations, isConditional, weight]
  | trigger | proc | block | assign | branch | call | literal | compare
  | var =>
      simp [ownOperations, isConditional, weight]

/-- Operations and labels together weigh no more than their trees. -/
theorem counts_le_extent (trees : List Node) :
    operationCount trees + labelCount trees ≤ extent trees := by
  induction trees with
  | nil =>
      exact Nat.le_refl _
  | cons tree trees inductionHypothesis =>
      have own := tree.ownOperations_add_labels_le
      rw [operationCount_cons, labelCount_cons, extent_cons]
      omega

mutual

/-- The code of a tree holds its operations and its markers. -/
theorem length_namedCode : (node : Node) → ∀ base,
    (node.namedCode base).length ≤
      operationCount node.subtrees + labelCount node.subtrees
  | trigger _ _ _, _ => by
      simp [namedCode]
  | proc _ _ _, _ => by
      simp [namedCode]
  | block statements, base => by
      have bound := length_allNamedCode statements base
      simp only [namedCode, subtrees, operationCount_cons, labelCount_cons]
      omega
  | declare _ _ none, _ => by
      simp [namedCode]
  | declare _ _ (some value), base => by
      have bound := length_namedCode value base
      simp only [namedCode, subtrees, optionalSubtrees, List.length_append,
        List.length_singleton, operationCount_cons, labelCount_cons,
        ownOperations]
      omega
  | assign _ value, base => by
      have bound := length_namedCode value base
      simp only [namedCode, subtrees, List.length_append,
        List.length_singleton, operationCount_cons, labelCount_cons,
        ownOperations]
      omega
  | branch condition thenBranch elseBranch, base => by
      have conditionBound := length_namedCode condition base
      have thenBound := length_namedCode thenBranch
        (base + operationCount condition.subtrees + 1)
      have elseBound := length_optionalNamedCode elseBranch
        (base + operationCount condition.subtrees + 1 +
          operationCount thenBranch.subtrees + 1)
      simp only [namedCode, subtrees, List.length_append,
        List.length_cons, List.length_nil, operationCount_cons,
        operationCount_append, labelCount_cons, labelCount_append,
        ownOperations, isConditional, if_true]
      omega
  | call _ args, base => by
      have bound := length_allNamedCode args base
      simp only [namedCode, subtrees, List.length_append,
        List.length_singleton, operationCount_cons, labelCount_cons,
        ownOperations]
      omega
  | literal _, _ => by
      simp [namedCode, subtrees, ownOperations]
  | compare left _ right, base => by
      have leftBound := length_namedCode left base
      have rightBound := length_namedCode right
        (base + operationCount left.subtrees)
      simp only [namedCode, subtrees, List.length_append,
        List.length_singleton, operationCount_cons, operationCount_append,
        labelCount_cons, labelCount_append, ownOperations]
      omega
  | var _, _ => by
      simp [namedCode, subtrees, ownOperations]

theorem length_allNamedCode : (nodes : List Node) → ∀ base,
    (allNamedCode base nodes).length ≤
      operationCount (allSubtrees nodes) + labelCount (allSubtrees nodes)
  | [], _ => by
      simp [allNamedCode]
  | node :: nodes, base => by
      have headBound := length_namedCode node base
      have tailBound := length_allNamedCode nodes
        (base + operationCount node.subtrees)
      simp only [allNamedCode, allSubtrees, List.length_append,
        operationCount_append, labelCount_append]
      omega

theorem length_optionalNamedCode : (node : Option Node) → ∀ base,
    (optionalNamedCode base node).length ≤
      operationCount (optionalSubtrees node) +
        labelCount (optionalSubtrees node)
  | none, _ => by
      simp [optionalNamedCode]
  | some node, base => by
      rw [optionalNamedCode, optionalSubtrees]
      exact length_namedCode node base

end

end Node

/-- Where a branch goes; zero for everything else. -/
def NamedInstruction.target : NamedInstruction → Nat
  | jump target | jumpIfZero target => target
  | push _ | get _ | set _ | call _ _ | equal | ret | marker => 0

/-- All addresses in some code, and all targets of its branches, are at most
`last`. -/
def NamedInstruction.Within (last : Nat)
    (code : List (Nat × NamedInstruction)) : Prop :=
  ∀ step ∈ code, step.1 ≤ last ∧ step.2.target ≤ last

namespace NamedInstruction.Within

variable {last more : Nat} {left right : List (Nat × NamedInstruction)}

theorem nil : Within last [] :=
  List.forall_mem_nil _

theorem cons {address : Nat} {named : NamedInstruction}
    (addressBound : address ≤ last) (targetBound : named.target ≤ last)
    (within : Within last left) : Within last ((address, named) :: left) :=
  List.forall_mem_cons.mpr ⟨⟨addressBound, targetBound⟩, within⟩

theorem append (inLeft : Within last left) (inRight : Within last right) :
    Within last (left ++ right) :=
  List.forall_mem_append.mpr ⟨inLeft, inRight⟩

theorem mono (within : Within last left) (bound : last ≤ more) :
    Within more left :=
  fun step member => ⟨(within step member).1.trans bound,
    (within step member).2.trans bound⟩

/-- Code with one more instruction that is no branch. -/
theorem close {address : Nat} {named : NamedInstruction}
    (within : Within last left) (bound : last ≤ more)
    (addressBound : address ≤ more) (plain : named.target = 0) :
    Within more (left ++ [(address, named)]) := by
  apply (within.mono bound).append
  exact .cons addressBound (plain ▸ Nat.zero_le more) .nil

end NamedInstruction.Within

namespace Node

open NamedInstruction

mutual

/-- The code of a tree stays between its first address and the address behind
its last operation. -/
theorem namedCode_within : (node : Node) → ∀ base,
    Within (base + operationCount node.subtrees) (node.namedCode base)
  | trigger _ _ _, _ => by
      rw [namedCode]
      exact .nil
  | proc _ _ _, _ => by
      rw [namedCode]
      exact .nil
  | block statements, base => by
      rw [namedCode, subtrees, operationCount_cons, ownOperations,
        Nat.zero_add]
      exact allNamedCode_within statements base
  | declare _ _ none, _ => by
      rw [namedCode]
      exact .nil
  | declare _ _ (some value), base => by
      rw [namedCode, subtrees, optionalSubtrees, operationCount_cons,
        ownOperations]
      exact (namedCode_within value base).close (by omega) (by omega) rfl
  | assign _ value, base => by
      rw [namedCode, subtrees, operationCount_cons, ownOperations]
      exact (namedCode_within value base).close (by omega) (by omega) rfl
  | branch condition thenBranch elseBranch, base => by
      have conditionCode := namedCode_within condition base
      have thenCode := namedCode_within thenBranch
        (base + operationCount condition.subtrees + 1)
      have elseCode := optionalNamedCode_within elseBranch
        (base + operationCount condition.subtrees + 1 +
          operationCount thenBranch.subtrees + 1)
      rw [namedCode, subtrees, operationCount_cons, operationCount_append,
        operationCount_append, ownOperations]
      have markers : base + operationCount condition.subtrees + 1 +
          operationCount thenBranch.subtrees + 1 +
          operationCount (optionalSubtrees elseBranch) =
            base + (2 + (operationCount condition.subtrees +
              (operationCount thenBranch.subtrees +
                operationCount (optionalSubtrees elseBranch)))) := by
        omega
      rw [← markers]
      refine (((((conditionCode.mono ?_).append ?_).append
        (thenCode.mono ?_)).append ?_).append elseCode).append ?_
      · omega
      · refine .cons ?_ ?_ .nil
        · omega
        · exact Nat.le_add_right _ _
      · omega
      · refine .cons ?_ (Nat.le_refl _) (.cons ?_ (Nat.zero_le _) .nil)
        · omega
        · exact Nat.le_add_right _ _
      · exact .cons (Nat.le_refl _) (Nat.zero_le _) .nil
  | call _ args, base => by
      rw [namedCode, subtrees, operationCount_cons, ownOperations]
      exact (allNamedCode_within args base).close (by omega) (by omega) rfl
  | literal _, base => by
      rw [namedCode]
      exact Within.nil.close (Nat.zero_le _) (Nat.le_add_right _ _) rfl
  | compare left _ right, base => by
      have leftCode := namedCode_within left base
      have rightCode := namedCode_within right
        (base + operationCount left.subtrees)
      rw [namedCode, subtrees, operationCount_cons, operationCount_append,
        ownOperations]
      refine ((leftCode.mono ?_).append rightCode).close ?_ ?_ rfl
      all_goals omega
  | var _, base => by
      rw [namedCode]
      exact Within.nil.close (Nat.zero_le _) (Nat.le_add_right _ _) rfl

theorem allNamedCode_within : (nodes : List Node) → ∀ base,
    Within (base + operationCount (allSubtrees nodes))
      (allNamedCode base nodes)
  | [], _ => by
      rw [allNamedCode]
      exact .nil
  | node :: nodes, base => by
      have headCode := namedCode_within node base
      have tailCode := allNamedCode_within nodes
        (base + operationCount node.subtrees)
      rw [allNamedCode, allSubtrees, operationCount_append]
      refine (headCode.mono ?_).append (tailCode.mono ?_)
      all_goals omega

theorem optionalNamedCode_within : (node : Option Node) → ∀ base,
    Within (base + operationCount (optionalSubtrees node))
      (optionalNamedCode base node)
  | none, _ => by
      rw [optionalNamedCode]
      exact .nil
  | some node, base => by
      rw [optionalNamedCode, optionalSubtrees]
      exact namedCode_within node base

end

end Node

/-! ## Texts -/

namespace Node

/-- What can be seen of trees by a view that only looks at trees with some
weight. -/
theorem length_filterMap_le {α : Type} {view : Node → Option α}
    {size : α → Nat}
    (weighs : ∀ tree value, view tree = some value →
      1 + size value ≤ tree.weight)
    (trees : List Node) :
    (trees.filterMap view).length ≤ extent trees ∧
      ∀ value ∈ trees.filterMap view, size value ≤ extent trees := by
  induction trees with
  | nil =>
      exact ⟨Nat.le_refl _, List.forall_mem_nil _⟩
  | cons tree trees inductionHypothesis =>
      obtain ⟨count, sizes⟩ := inductionHypothesis
      rw [extent_cons]
      cases seen : view tree with
      | none =>
          rw [List.filterMap_cons_none seen]
          exact ⟨by omega, fun value member =>
            (sizes value member).trans (Nat.le_add_left _ _)⟩
      | some value =>
          have own := weighs tree value seen
          rw [List.filterMap_cons_some seen, List.length_cons,
            List.forall_mem_cons]
          exact ⟨by omega, by omega, fun other member =>
            (sizes other member).trans (Nat.le_add_left _ _)⟩

theorem declared?_weighs (tree : Node) (known : String × ValueType)
    (declares : tree.declared? = some known) :
    1 + known.1.utf8ByteSize ≤ tree.weight := by
  cases tree with
  | declare type name value =>
      obtain ⟨_, _, rfl⟩ := Option.map_eq_some_iff.mp declares
      exact Nat.le_refl _
  | trigger | proc | block | assign | branch | call | literal | compare
  | var =>
      cases declares

end Node

def Constant.textSize : Constant → Nat
  | string value => value.utf8ByteSize
  | int _ | long _ => 0

theorem Node.pushed?_weighs (tree : Node) (constant : Constant)
    (pushes : tree.pushed? = some constant) :
    1 + constant.textSize ≤ tree.weight := by
  cases tree with
  | literal value =>
      cases pushes
      cases value <;> exact Nat.le_refl _
  | trigger | proc | block | declare | assign | branch | call | compare
  | var =>
      cases pushes

/-- A number has no more digits than counting up to it takes steps. -/
theorem utf8ByteSize_toString_le (number : Nat) :
    (toString number).utf8ByteSize ≤ number + 1 := by
  have single (digits : List Char)
      (areDigits : ∀ c ∈ digits, c.isDigit = true) :
      Token.byteLength digits = digits.length := by
    induction digits with
    | nil =>
        rfl
    | cons c rest inductionHypothesis =>
        rw [List.forall_mem_cons] at areDigits
        have oneByte : c.utf8Size = 1 := by
          rw [Char.utf8Size_eq_one_iff]
          have upper : c.val ≤ 57 := by
            simpa [Char.isDigit] using (Bool.and_eq_true_iff.mp areDigits.1).2
          exact UInt32.le_trans upper (by decide)
        change c.utf8Size + Token.byteLength rest = rest.length + 1
        rw [oneByte, inductionHypothesis areDigits.2, Nat.add_comm]
  have digitCount : (Nat.toDigits 10 number).length ≤ number + 1 := by
    rw [Nat.length_toDigits_le_iff (by decide) (Nat.succ_pos number)]
    exact Nat.lt_of_succ_lt (Nat.lt_pow_self (by decide))
  rw [← Token.byteLength_toList]
  change Token.byteLength number.repr.toList ≤ number + 1
  rw [Nat.toList_repr, single _ (Text.areDigits_toDigits number)]
  exact digitCount

/-! ## Declarations -/

namespace Declaration

def headingWeight (declaration : Declaration) : Nat :=
  Param.extent declaration.params +
    match declaration.trigger? with
    | some (event, filter) => 4 + event.utf8ByteSize + filter.utf8ByteSize
    | none => 2 + declaration.name.utf8ByteSize

def extent (declaration : Declaration) : Nat :=
  declaration.headingWeight + Node.extent declaration.body.subtrees

def totalExtent (declarations : List Declaration) : Nat :=
  declarations.foldr (fun declaration total =>
    declaration.extent + total) 0

theorem totalExtent_cons (declaration : Declaration)
    (rest : List Declaration) :
    totalExtent (declaration :: rest) =
      declaration.extent + totalExtent rest :=
  rfl

theorem totalExtent_append (left right : List Declaration) :
    totalExtent (left ++ right) = totalExtent left + totalExtent right := by
  induction left with
  | nil =>
      exact (Nat.zero_add _).symm
  | cons declaration rest inductionHypothesis =>
      rw [List.cons_append, totalExtent_cons, inductionHypothesis,
        totalExtent_cons, Nat.add_assoc]

/-- All weight of declarations comes from the script. -/
theorem totalExtent_procs_add_triggers_le (nodes : List Node)
    (ordinal : Nat) :
    totalExtent (procs nodes) + totalExtent (triggers ordinal nodes) ≤
      Node.extent (Node.allSubtrees nodes) := by
  induction nodes generalizing ordinal with
  | nil =>
      exact Nat.le_refl _
  | cons node rest inductionHypothesis =>
      rw [Node.allSubtrees, Node.extent_append]
      cases node with
      | proc name params body =>
          have later := inductionHypothesis ordinal
          have own : extent ⟨name, params, body, none⟩ =
              Node.extent (Node.proc name params body).subtrees := by
            rw [Node.subtrees, Node.extent_cons, Node.weight,
              Nat.add_comm (2 + _)]
            rfl
          simp only [procs, triggers, totalExtent_cons]
          omega
      | trigger event filter body =>
          have later := inductionHypothesis (ordinal + 1)
          have own (name : String) :
              extent ⟨name, [], body, some (event, filter)⟩ =
                Node.extent (Node.trigger event filter body).subtrees := by
            rw [Node.subtrees, extent, headingWeight, Param.extent,
              List.foldr_nil, Nat.zero_add]
            rfl
          simp only [procs, triggers, totalExtent_cons, own]
          omega
      | block | declare | assign | branch | call | literal | compare
      | var =>
          exact Nat.le_add_left_of_le (inductionHypothesis ordinal)

theorem two_le_headingWeight (declaration : Declaration) :
    2 ≤ declaration.headingWeight := by
  unfold headingWeight
  split <;> omega

/-- The addresses before a declaration and the declaration itself weigh no
more than all declarations, and there is an address for each of them. -/
theorem place_le_address {declarations : List Declaration} {place : Nat}
    {declaration : Declaration}
    (found : declarations[place]? = some declaration) :
    place ≤ (declarations.take place).foldr
        (fun earlier length => earlier.size + length) 0 ∧
      (declarations.take place).foldr
          (fun earlier length => earlier.size + length) 0 +
        declaration.extent ≤ totalExtent declarations := by
  induction declarations generalizing place with
  | nil =>
      cases found
  | cons first rest inductionHypothesis =>
      rw [totalExtent_cons]
      cases place with
      | zero =>
          cases found
          exact ⟨Nat.zero_le _, by simp⟩
      | succ place =>
          obtain ⟨before, bound⟩ := inductionHypothesis found
          have counts := Node.counts_le_extent first.body.subtrees
          have heading := first.two_le_headingWeight
          have firstSize : first.size + 1 ≤ first.extent := by
            rw [size, extent]
            omega
          have positive : 1 ≤ first.size := Nat.le_add_left 1 _
          rw [List.take_succ_cons, List.foldr_cons]
          omega

theorem name_size_le_of_triggers {nodes : List Node}
    {ordinal number : Nat} {declaration : Declaration}
    (found : (triggers ordinal nodes)[number]? = some declaration) :
    declaration.name.utf8ByteSize ≤
      declaration.headingWeight + (ordinal + number) := by
  induction nodes generalizing ordinal number with
  | nil =>
      cases found
  | cons node rest inductionHypothesis =>
      cases node with
      | trigger event filter body =>
          cases number with
          | zero =>
              cases found
              have digits := utf8ByteSize_toString_le ordinal
              have sign : "@".utf8ByteSize = 1 := rfl
              simp only [headingWeight, String.utf8ByteSize_append, sign]
              omega
          | succ number =>
              have later := inductionHypothesis found
              omega
      | proc | block | declare | assign | branch | call | literal
      | compare | var =>
          exact inductionHypothesis found

theorem name_size_le {nodes : List Node} {place : Nat}
    {declaration : Declaration}
    (found : (all nodes)[place]? = some declaration) :
    declaration.name.utf8ByteSize ≤ declaration.headingWeight + place := by
  by_cases isProc : place < (procs nodes).length
  · rw [all, List.getElem?_append_left isProc] at found
    have noTrigger := trigger?_of_mem_procs (List.mem_of_getElem? found)
    rw [headingWeight, noTrigger]
    dsimp only
    omega
  · rw [all, List.getElem?_append_right (Nat.le_of_not_lt isProc)] at found
    have bound := name_size_le_of_triggers found
    omega

/-- The variables of a declaration are those of trees that weigh no more than
the declaration. -/
theorem signature_le (declaration : Declaration) :
    declaration.signature.length ≤ declaration.extent ∧
      ∀ known ∈ declaration.signature,
        known.1.utf8ByteSize ≤ declaration.extent := by
  have paramTrees (params : List Param) :
      Node.extent (params.map Param.tree) = Param.extent params := by
    induction params with
    | nil =>
        rfl
    | cons param rest inductionHypothesis =>
        rw [List.map_cons, Node.extent_cons, inductionHypothesis]
        rfl
  have trees : declaration.signature =
      (declaration.params.map Param.tree ++
        declaration.body.subtrees).filterMap Node.declared? := by
    rw [List.filterMap_append]
    rfl
  have weighs : Node.extent (declaration.params.map Param.tree ++
      declaration.body.subtrees) ≤ declaration.extent := by
    rw [Node.extent_append, paramTrees, extent, headingWeight]
    omega
  obtain ⟨count, sizes⟩ := Node.length_filterMap_le Node.declared?_weighs
    (declaration.params.map Param.tree ++ declaration.body.subtrees)
  rw [trees]
  exact ⟨count.trans weighs, fun known member =>
    (sizes known member).trans weighs⟩

end Declaration

/-! ## Labels -/

theorem Script.constants_le (nodes : List Node) :
    (constants nodes).length ≤ Node.extent (Node.allSubtrees nodes) ∧
      ∀ constant ∈ constants nodes,
        constant.textSize ≤ Node.extent (Node.allSubtrees nodes) := by
  obtain ⟨count, sizes⟩ := Node.length_filterMap_le Node.pushed?_weighs
    (Node.allSubtrees nodes)
  have pushed : constants nodes ⊆
      (Node.allSubtrees nodes).filterMap Node.pushed? := by
    intro constant member
    exact List.mem_filterMap.mpr (mem_constants.mp member)
  have fewer :=
    ((constants_nodup nodes).subperm pushed).length_le
  exact ⟨fewer.trans count, fun constant member =>
    sizes constant (pushed member)⟩

namespace Declaration

variable {catalog : Catalog} {nodes : List Node} {place : Nat}
  {declaration : Declaration} {method : Method}

theorem namedCode_within (base : Nat) (declaration : Declaration) :
    NamedInstruction.Within
      (base + Node.operationCount declaration.body.subtrees)
      (declaration.namedCode base) := by
  refine .close (.append ?_ (Node.namedCode_within _ base)) (Nat.le_refl _)
    (Nat.le_refl _) rfl
  intro step member
  rw [List.eq_of_mem_replicate member]
  exact ⟨Nat.le_add_right _ _, Nat.zero_le _⟩

theorem length_namedCode_le (base : Nat) (declaration : Declaration) :
    (declaration.namedCode base).length ≤ declaration.extent := by
  have body := Node.length_namedCode declaration.body base
  have counts := Node.counts_le_extent declaration.body.subtrees
  rw [namedCode, List.length_append, List.length_append,
    List.length_replicate, List.length_singleton, extent, headingWeight]
  cases declaration.trigger? with
  | none =>
      rw [Option.isSome_none, if_neg Bool.false_ne_true]
      dsimp only
      omega
  | some trigger =>
      rw [Option.isSome_some, if_pos rfl]
      dsimp only
      omega

end Declaration

/-- The operands of an instruction are machine words if the tables they lead
into are not longer. -/
theorem Bindings.operands_lt {bindings : Bindings}
    (constants : bindings.constants.length < 2 ^ 64)
    (methods : bindings.methods.length < 2 ^ 64)
    (locals : bindings.locals.length < 2 ^ 64)
    {address : Nat} {named : NamedInstruction}
    (target : named.target < 2 ^ 64) :
    (bindings.instruction (address, named)).i < 2 ^ 64 ∧
      (bindings.instruction (address, named)).l = 0 ∧
      (bindings.instruction (address, named)).s = 0 := by
  cases named with
  | push constant =>
      exact ⟨List.idxOf_le_length.trans_lt constants, rfl, rfl⟩
  | get name | set name =>
      exact ⟨List.idxOf_le_length.trans_lt locals, rfl, rfl⟩
  | call name types =>
      refine ⟨?_, rfl, rfl⟩
      change (bindings.callee name types).2 < 2 ^ 64
      unfold callee
      cases bindings.catalog.overload? name types with
      | some native =>
          exact native.id.toNat_lt.trans (by decide)
      | none =>
          exact List.idxOf_le_length.trans_lt methods
  | jump place | jumpIfZero place =>
      exact ⟨target, rfl, rfl⟩
  | equal | ret | marker =>
      exact ⟨Nat.two_pow_pos 64, rfl, rfl⟩

namespace Declaration

variable {catalog : Catalog} {nodes : List Node} {place : Nat}
  {declaration : Declaration} {method : Method}

/-- A declaration and all addresses before it weigh no more than the
script. -/
theorem address_add_extent_le
    (declared : (all nodes)[place]? = some declaration) :
    place ≤ Script.address nodes place ∧
      Script.address nodes place + declaration.extent ≤
        Node.extent (Node.allSubtrees nodes) := by
  obtain ⟨before, behind⟩ := place_le_address declared
  have total := totalExtent_procs_add_triggers_le nodes 0
  rw [← totalExtent_append] at total
  exact ⟨before, behind.trans total⟩

theorem length_all_le (nodes : List Node) :
    (all nodes).length ≤ Node.extent (Node.allSubtrees nodes) := by
  by_cases empty : (all nodes).length = 0
  · rw [empty]
    exact Nat.zero_le _
  · have last : (all nodes).length - 1 < (all nodes).length := by
      omega
    have bounds := address_add_extent_le (List.getElem?_eq_getElem last)
    have heading := two_le_headingWeight (all nodes)[(all nodes).length - 1]
    rw [extent] at bounds
    omega

theorem length_params_le (declaration : Declaration) :
    declaration.params.length ≤ declaration.extent := by
  have counted (params : List Param) :
      params.length ≤ Param.extent params := by
    induction params with
    | nil =>
        exact Nat.le_refl _
    | cons param rest inductionHypothesis =>
        change rest.length + 1 ≤
          1 + param.name.utf8ByteSize + Param.extent rest
        omega
  have bound := counted declaration.params
  rw [extent, headingWeight]
  omega

namespace Yields

variable (yields : declaration.Yields catalog nodes place method)
  (declared : (all nodes)[place]? = some declaration)
  (small : Node.extent (Node.allSubtrees nodes) < 2 ^ 64)
  (labels : ∀ label ∈ Script.labels nodes place, label < 2 ^ 64)

include yields declared small

theorem locals_inWords : ∀ held ∈ method.locals, held.InWords := by
  obtain ⟨_, bound⟩ := address_add_extent_le declared
  obtain ⟨count, sizes⟩ := declaration.signature_le
  intro held member
  rw [yields.locals, Variable.number, List.mem_mapIdx] at member
  obtain ⟨index, inside, rfl⟩ := member
  have nameSize := sizes _ (List.getElem_mem inside)
  constructor
  · dsimp only
    omega
  · dsimp only
    omega

include labels

theorem instructions_inWords :
    ∀ instruction ∈ method.code, instruction.InWords := by
  obtain ⟨_, bound⟩ := address_add_extent_le declared
  have operations := Node.counts_le_extent declaration.body.subtrees
  have body : Node.extent declaration.body.subtrees ≤ declaration.extent :=
    Nat.le_add_left _ _
  have constants := (Script.constants_le nodes).1
  have methods := length_all_le nodes
  have locals := declaration.signature_le.1
  intro instruction member
  obtain ⟨position, found⟩ := List.mem_iff_getElem?.mp member
  obtain ⟨named, namedAt, same⟩ := yields.named_at found
  obtain ⟨address, target⟩ := declaration.namedCode_within
    (Script.address nodes place) _ (List.mem_of_getElem? namedAt)
  dsimp only at address target
  have operands : instruction.nameless.i < 2 ^ 64 ∧
      instruction.nameless.l = 0 ∧ instruction.nameless.s = 0 := by
    rw [same]
    apply Bindings.operands_lt
    · exact constants.trans_lt small
    · rw [Script.bindings, List.length_map]
      exact methods.trans_lt small
    · rw [Script.bindings, List.length_map]
      omega
    · omega
  obtain ⟨i, l, s⟩ := operands
  constructor
  · exact i
  · exact l ▸ Nat.two_pow_pos 64
  · exact s ▸ Nat.two_pow_pos 64
  · omega
  · intro label marked
    apply labels
    rw [← yields.labels]
    exact List.mem_filterMap.mpr ⟨instruction, member, marked⟩

theorem inWords : method.InWords := by
  obtain ⟨before, bound⟩ := address_add_extent_le declared
  have nameSize := name_size_le declared
  have heading : declaration.headingWeight ≤ declaration.extent :=
    Nat.le_add_right _ _
  have code := declaration.length_namedCode_le (Script.address nodes place)
  have locals := declaration.signature_le.1
  have params := declaration.length_params_le
  constructor
  · rw [yields.name]
    omega
  · rw [yields.index]
    omega
  · rw [← Array.length_toList]
    change method.code.length < 2 ^ 64
    rw [yields.length_code]
    omega
  · exact yields.instructions_inWords declared small labels
  · rw [yields.locals, Variable.number, List.length_mapIdx]
    omega
  · exact yields.locals_inWords declared small
  · rw [yields.params, List.length_range]
    omega
  · intro index member
    rw [yields.params, List.mem_range] at member
    omega
  · exact labels _ (List.mem_of_head? yields.entry)
  · rw [yields.address]
    omega

end Yields

theorem Enters.inWords {row : TriggerEntry}
    (enters : declaration.Enters catalog nodes place row)
    (declared : (all nodes)[place]? = some declaration)
    (small : Node.extent (Node.allSubtrees nodes) < 2 ^ 64)
    (labels : ∀ label ∈ Script.labels nodes place, label < 2 ^ 64) :
    row.InWords := by
  obtain ⟨_, bound⟩ := address_add_extent_le declared
  obtain ⟨filter, _, isTrigger, _⟩ := enters.source
  constructor
  · rw [extent, headingWeight, isTrigger] at bound
    dsimp only at bound
    omega
  · exact labels _ (List.mem_of_getElem? enters.entry)
  · rw [enters.address]
    omega

end Declaration

namespace Program

variable {catalog : Catalog} {program : Program}

end Program

end TriggerScript
