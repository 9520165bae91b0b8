import TriggerScript.Assembly.Program
import Mathlib.Data.List.Nodup

/-!
# Symbolic code

The code of a body before the layout of the program is known.  Operands that
name constants, variables and methods are final; a branch names the label it
goes to in place of an address.

* `Bindings` says what the names in a body stand for.
* `Emits` relates trees to their symbolic code.
* The labels that `Emits` hands out are new, and each is marked once.
-/

namespace TriggerScript

/-! ## Symbols -/

/-- An instruction before the layout is known. -/
inductive Symbol where
  | op (opcode : Opcode) (operand : Nat)
  /-- A branch to the address of a label. -/
  | branch (opcode : Opcode) (target : Nat)
  | marker (label : Nat)
  deriving DecidableEq, Repr

namespace Symbol

/-- The instruction as it is first emitted, with no address in a branch. -/
def draft : Symbol → Instruction
  | op opcode operand => { opcode, i := operand }
  | branch opcode _ => { opcode }
  | marker label => .marker label

/-- The instruction once every label has an address. -/
def resolve (addressOf : Nat → Nat) : Symbol → Instruction
  | op opcode operand => { opcode, i := operand }
  | branch opcode target => { opcode, i := addressOf target }
  | marker label => .marker label

def label? : Symbol → Option Nat
  | marker label => some label
  | _ => none

def labels (code : List Symbol) : List Nat :=
  code.filterMap label?

def size (code : List Symbol) : Nat :=
  code.countP fun symbol => symbol.label?.isNone

def conditional (test positive negative : List Symbol)
    (other done : Nat) : List Symbol :=
  test ++ [branch .jumpIfZero other] ++ positive ++
    [branch .jump done, marker other] ++ negative ++ [marker done]

/-- The patches for the branches of some code whose first symbol stands at a
position of a method. -/
def patches (method : Nat) : Nat → List Symbol → List Patch
  | _, [] => []
  | position, branch _ target :: rest =>
      ⟨target, method, position, .i⟩ :: patches method (position + 1) rest
  | position, _ :: rest => patches method (position + 1) rest

@[simp]
theorem draft_label? (symbol : Symbol) :
    symbol.draft.label? = symbol.label? := by
  cases symbol <;> rfl

@[simp]
theorem resolve_label? (addressOf : Nat → Nat) (symbol : Symbol) :
    (symbol.resolve addressOf).label? = symbol.label? := by
  cases symbol <;> rfl

@[simp]
theorem labels_nil : labels [] = [] := rfl

@[simp]
theorem labels_append (left right : List Symbol) :
    labels (left ++ right) = labels left ++ labels right :=
  List.filterMap_append

@[simp]
theorem labels_op (opcode : Opcode) (operand : Nat)
    (rest : List Symbol) :
    labels (op opcode operand :: rest) = labels rest := rfl

@[simp]
theorem labels_branch (opcode : Opcode) (target : Nat)
    (rest : List Symbol) :
    labels (branch opcode target :: rest) = labels rest := rfl

@[simp]
theorem labels_marker (label : Nat) (rest : List Symbol) :
    labels (marker label :: rest) = label :: labels rest := rfl

@[simp]
theorem size_nil : size [] = 0 := rfl

@[simp]
theorem size_append (left right : List Symbol) :
    size (left ++ right) = size left + size right :=
  List.countP_append

@[simp]
theorem size_op (opcode : Opcode) (operand : Nat)
    (rest : List Symbol) :
    size (op opcode operand :: rest) = size rest + 1 := by
  simp [size, label?]

@[simp]
theorem size_branch (opcode : Opcode) (target : Nat)
    (rest : List Symbol) :
    size (branch opcode target :: rest) = size rest + 1 := by
  simp [size, label?]

@[simp]
theorem size_marker (label : Nat) (rest : List Symbol) :
    size (marker label :: rest) = size rest := rfl

theorem size_markers (labels : List Nat) :
    size (labels.map marker) = 0 := by
  induction labels with
  | nil =>
      rfl
  | cons label labels inductionHypothesis =>
      rw [List.map_cons, size_marker, inductionHypothesis]

@[simp]
theorem patches_append (method position : Nat)
    (left right : List Symbol) :
    patches method position (left ++ right) =
      patches method position left ++
        patches method (position + left.length) right := by
  induction left generalizing position with
  | nil =>
      rfl
  | cons symbol rest inductionHypothesis =>
      have shifted :
          position + (symbol :: rest).length =
            position + 1 + rest.length := by
        simp only [List.length_cons]
        omega
      rw [shifted]
      cases symbol <;>
        simp only [List.cons_append, patches, inductionHypothesis]

/-- There is one patch for every branch, and none for anything else. -/
theorem mem_patches_iff {method position : Nat} {code : List Symbol}
    {patch : Patch} :
    patch ∈ patches method position code ↔
      ∃ offset opcode,
        code[offset]? = some (branch opcode patch.label) ∧
          patch = ⟨patch.label, method, position + offset, .i⟩ := by
  induction code generalizing position with
  | nil =>
      simp [patches]
  | cons symbol rest inductionHypothesis =>
      -- The first symbol has offset zero; all others move up by one.
      have split :
          (∃ offset opcode,
            (symbol :: rest)[offset]? =
                some (branch opcode patch.label) ∧
              patch =
                ⟨patch.label, method, position + offset, .i⟩) ↔
            (∃ opcode,
              symbol = branch opcode patch.label ∧
                patch = ⟨patch.label, method, position, .i⟩) ∨
              patch ∈ patches method (position + 1) rest := by
        rw [inductionHypothesis]
        constructor
        · rintro ⟨offset, opcode, found, equality⟩
          cases offset with
          | zero =>
              exact Or.inl ⟨opcode, by simpa using found, equality⟩
          | succ offset =>
              refine Or.inr ⟨offset, opcode, by simpa using found, ?_⟩
              rw [Nat.add_assoc, Nat.add_comm 1]
              exact equality
        · rintro (⟨opcode, found, equality⟩ |
            ⟨offset, opcode, found, equality⟩)
          · exact ⟨0, opcode, by simp [found], equality⟩
          · refine ⟨offset + 1, opcode, by simpa using found, ?_⟩
            rw [Nat.add_comm offset, ← Nat.add_assoc]
            exact equality
      rw [split]
      cases symbol with
      | op opcode operand =>
          simp [patches]
      | marker label =>
          simp [patches]
      | branch opcode target =>
          simp only [patches, List.mem_cons, branch.injEq]
          refine or_congr_left ?_
          constructor
          · intro equality
            subst equality
            exact ⟨opcode, ⟨rfl, rfl⟩, rfl⟩
          · rintro ⟨_, ⟨_, target_eq⟩, equality⟩
            rw [target_eq]
            exact equality

/-- The patches for the code of several methods; the first has the given
number. -/
def patchesFrom : Nat → List (List Symbol) → List Patch
  | _, [] => []
  | index, code :: rest =>
      patches index 0 code ++ patchesFrom (index + 1) rest

theorem patchesFrom_append (index : Nat)
    (left right : List (List Symbol)) :
    patchesFrom index (left ++ right) =
      patchesFrom index left ++
        patchesFrom (index + left.length) right := by
  induction left generalizing index with
  | nil =>
      rfl
  | cons code rest inductionHypothesis =>
      rw [List.cons_append, patchesFrom, inductionHypothesis,
        patchesFrom, List.append_assoc, List.length_cons,
        Nat.add_right_comm, Nat.add_assoc]

theorem mem_patchesFrom_iff {first : Nat} {codes : List (List Symbol)}
    {patch : Patch} :
    patch ∈ patchesFrom first codes ↔
      ∃ index code, codes[index]? = some code ∧
        patch ∈ patches (first + index) 0 code := by
  induction codes generalizing first with
  | nil =>
      simp [patchesFrom]
  | cons code rest inductionHypothesis =>
      rw [patchesFrom, List.mem_append, inductionHypothesis]
      constructor
      · rintro (member | ⟨index, other, found, member⟩)
        · exact ⟨0, code, rfl, member⟩
        · refine ⟨index + 1, other, found, ?_⟩
          rw [Nat.add_comm index, ← Nat.add_assoc]
          exact member
      · rintro ⟨index, other, found, member⟩
        cases index with
        | zero =>
            cases found
            exact Or.inl member
        | succ index =>
            refine Or.inr ⟨index, other, found, ?_⟩
            rw [Nat.add_assoc, Nat.add_comm 1]
            exact member

end Symbol

/-! ## Bindings -/

theorem idxOf?_eq_some_idxOf {names : List String} {name : String}
    (member : name ∈ names) :
    names.idxOf? name = some (names.idxOf name) := by
  simpa [List.idxOf?, List.idxOf, List.findIdx?_eq_some_iff_findIdx_eq]
    using member

/-- What the names in a body stand for. -/
structure Bindings where
  catalog : Catalog
  /-- The names of the methods; their places are their numbers. -/
  methods : List String
  constants : List Constant
  /-- The names of the variables; their places are their numbers. -/
  locals : List String

namespace Bindings

/-- The operation and the operand that a call ends with: the host function
with exactly these argument types, else the first method of that name. -/
def callee (bindings : Bindings) (name : String)
    (types : List ValueType) : Opcode × Nat :=
  match bindings.catalog.overload? name types with
  | some native => (.callNative, native.id.toNat)
  | none => (.call, bindings.methods.idxOf name)

def Callable (bindings : Bindings) (name : String)
    (types : List ValueType) : Prop :=
  (bindings.catalog.overload? name types).isSome ∨
    name ∈ bindings.methods

theorem callee_opcode (bindings : Bindings) (name : String)
    (types : List ValueType) :
    (bindings.callee name types).1 = .callNative ∨
      (bindings.callee name types).1 = .call := by
  unfold callee
  cases bindings.catalog.overload? name types with
  | some native =>
      exact Or.inl rfl
  | none =>
      exact Or.inr rfl

/-- The two ways in which a call can mean something. -/
theorem callee_cases (bindings : Bindings) {name : String}
    {types : List ValueType} (callable : bindings.Callable name types) :
    (∃ native,
        bindings.catalog.overload? name types = some native ∧
          bindings.callee name types =
            (.callNative, native.id.toNat)) ∨
      bindings.catalog.overload? name types = none ∧
        name ∈ bindings.methods ∧
        bindings.callee name types =
          (.call, bindings.methods.idxOf name) := by
  unfold callee
  cases overload : bindings.catalog.overload? name types with
  | some native =>
      exact Or.inl ⟨native, rfl, rfl⟩
  | none =>
      have member : name ∈ bindings.methods := by
        rcases callable with native | method
        · rw [overload] at native
          cases native
        · exact method
      exact Or.inr ⟨rfl, member, rfl⟩

end Bindings

/-- A symbol that can stand in a body: its operand names something that
exists, and it neither leaves the method nor is reserved. -/
def Symbol.Fits (bindings : Bindings) : Symbol → Prop
  | op .pushConst operand => operand < bindings.constants.length
  | op .getVariable operand => operand < bindings.locals.length
  | op .setVariable operand => operand < bindings.locals.length
  | op .call operand => operand < bindings.methods.length
  | op .callNative operand =>
      ∃ native ∈ bindings.catalog.functions,
        native.id.toNat = operand
  | op .equal _ => True
  | op _ _ => False
  | branch opcode _ => opcode.isBranch = true
  | marker _ => True

theorem Symbol.Fits.isLabel_resolve {bindings : Bindings} {symbol : Symbol}
    {addressOf : Nat → Nat}
    (fits : symbol.Fits bindings) :
    (symbol.resolve addressOf).isLabel = symbol.label?.isSome := by
  cases symbol with
  | op opcode operand =>
      cases opcode with
      | pushConst | equal | call | callNative | getVariable
      | setVariable =>
          rfl
      | jump | getLocal | setLocal | ret | jumpIfZero | label =>
          exact False.elim fits
  | branch opcode target =>
      cases opcode with
      | jump | jumpIfZero =>
          rfl
      | pushConst | getLocal | setLocal | ret | equal | call
      | callNative | getVariable | setVariable | label =>
          cases fits
  | marker label =>
      rfl

/-! ## The code of trees -/

/-- `Emits bindings nodes first code last` says that the trees have this
symbolic code when labels are taken from `first` on; the first label that is
left is `last`. -/
inductive Emits (bindings : Bindings) :
    List Node → Nat → List Symbol → Nat → Prop
  | nil (label : Nat) :
      Emits bindings [] label [] label
  | cons {node : Node} {nodes : List Node} {first middle last : Nat}
      {head tail : List Symbol} :
      Emits bindings [node] first head middle →
      Emits bindings nodes middle tail last →
      Emits bindings (node :: nodes) first (head ++ tail) last
  | block {statements : List Node} {first last : Nat}
      {code : List Symbol} :
      Emits bindings statements first code last →
      Emits bindings [.block statements] first code last
  | declare (type name : String) (label : Nat) :
      Emits bindings [.declare type name none] label [] label
  | define (type : String) {name : String} {value : Node}
      {first last : Nat} {code : List Symbol} :
      name ∈ bindings.locals →
      Emits bindings [value] first code last →
      Emits bindings [.declare type name (some value)] first
        (code ++
          [.op .setVariable (bindings.locals.idxOf name)]) last
  | assign {name : String} {value : Node} {first last : Nat}
      {code : List Symbol} :
      name ∈ bindings.locals →
      Emits bindings [value] first code last →
      Emits bindings [.assign name value] first
        (code ++
          [.op .setVariable (bindings.locals.idxOf name)]) last
  | branch {condition thenBranch : Node} {elseBranch : Option Node}
      {first other middle last : Nat}
      {test positive negative : List Symbol} :
      Emits bindings [condition] first test other →
      Emits bindings [thenBranch] (other + 2) positive middle →
      Emits bindings elseBranch.toList middle negative last →
      Emits bindings [.branch condition thenBranch elseBranch] first
        (Symbol.conditional test positive negative other (other + 1))
        last
  | call {name : String} {args : List Node} {types : List ValueType}
      {first last : Nat} {code : List Symbol} :
      args.map Node.staticType? = types.map some →
      bindings.Callable name types →
      Emits bindings args first code last →
      Emits bindings [.call name args] first
        (code ++
          [.op (bindings.callee name types).1
            (bindings.callee name types).2]) last
  | literal {value : Literal} (label : Nat) :
      Constant.ofLiteral value ∈ bindings.constants →
      Emits bindings [.literal value] label
        [.op .pushConst
          (bindings.constants.idxOf (.ofLiteral value))] label
  | equal {left right : Node} {first middle last : Nat}
      {leftCode rightCode : List Symbol} :
      Emits bindings [left] first leftCode middle →
      Emits bindings [right] middle rightCode last →
      Emits bindings [.compare left .equal right] first
        (leftCode ++ rightCode ++ [.op .equal 0]) last
  | var {name : String} (label : Nat) :
      name ∈ bindings.locals →
      Emits bindings [.var name] label
        [.op .getVariable (bindings.locals.idxOf name)] label

namespace Emits

variable {bindings : Bindings} {nodes : List Node} {first last : Nat}
  {code : List Symbol}

theorem first_le_last (emitted : Emits bindings nodes first code last) :
    first ≤ last := by
  induction emitted with
  | nil | declare | literal | var => exact Nat.le_refl _
  | block _ bound => exact bound
  | define _ _ _ bound => exact bound
  | assign _ _ bound => exact bound
  | call _ _ _ bound => exact bound
  | cons _ _ headBound tailBound => exact Nat.le_trans headBound tailBound
  | equal _ _ leftBound rightBound => exact Nat.le_trans leftBound rightBound
  | branch _ _ _ testBound positiveBound negativeBound => omega

/-- Only labels taken for the code are marked in it. -/
theorem mem_labels_bounds
    (emitted : Emits bindings nodes first code last) :
    ∀ label ∈ Symbol.labels code, first ≤ label ∧ label < last := by
  induction emitted with
  | nil | declare | literal | var => simp
  | block _ bounds => exact bounds
  | define _ _ _ bounds => simpa using bounds
  | assign _ _ bounds => simpa using bounds
  | call _ _ _ bounds => simpa using bounds
  | cons head tail headBounds tailBounds =>
      intro label member
      have headOrder := head.first_le_last
      have tailOrder := tail.first_le_last
      rw [Symbol.labels_append, List.mem_append] at member
      rcases member with inHead | inTail
      · have := headBounds label inHead
        omega
      · have := tailBounds label inTail
        omega
  | equal left right leftBounds rightBounds =>
      intro label member
      have leftOrder := left.first_le_last
      have rightOrder := right.first_le_last
      simp only [Symbol.labels_append, Symbol.labels_op,
        Symbol.labels_nil, List.append_nil, List.mem_append] at member
      rcases member with inLeft | inRight
      · have := leftBounds label inLeft
        omega
      · have := rightBounds label inRight
        omega
  | branch test positive negative testBounds positiveBounds
      negativeBounds =>
      intro label member
      have testOrder := test.first_le_last
      have positiveOrder := positive.first_le_last
      have negativeOrder := negative.first_le_last
      simp only [Symbol.conditional, Symbol.labels_append,
        Symbol.labels_branch, Symbol.labels_marker, Symbol.labels_nil,
        List.append_nil, List.mem_append, List.mem_singleton] at member
      rcases member with
        (((inTest | inPositive) | isOther) | inNegative) | isDone
      · have := testBounds label inTest
        omega
      · have := positiveBounds label inPositive
        omega
      · omega
      · have := negativeBounds label inNegative
        omega
      · omega

/-- No label is marked twice. -/
theorem labels_nodup
    (emitted : Emits bindings nodes first code last) :
    (Symbol.labels code).Nodup := by
  induction emitted with
  | nil | declare | literal | var => simp
  | block _ distinct => exact distinct
  | define _ _ _ distinct => simpa using distinct
  | assign _ _ distinct => simpa using distinct
  | call _ _ _ distinct => simpa using distinct
  | cons head tail headDistinct tailDistinct =>
      rw [Symbol.labels_append]
      refine List.Nodup.append headDistinct tailDistinct ?_
      intro label inHead inTail
      have := head.mem_labels_bounds label inHead
      have := tail.mem_labels_bounds label inTail
      omega
  | equal left right leftDistinct rightDistinct =>
      simp only [Symbol.labels_append, Symbol.labels_op,
        Symbol.labels_nil, List.append_nil]
      refine List.Nodup.append leftDistinct rightDistinct ?_
      intro label inLeft inRight
      have := left.mem_labels_bounds label inLeft
      have := right.mem_labels_bounds label inRight
      omega
  | branch test positive negative testDistinct positiveDistinct
      negativeDistinct =>
      -- The labels of the parts lie in three intervals; between the first
      -- two stand the labels of the branch itself.
      have testBounds := test.mem_labels_bounds
      have positiveBounds := positive.mem_labels_bounds
      have negativeBounds := negative.mem_labels_bounds
      have positiveOrder := positive.first_le_last
      have negativeOrder := negative.first_le_last
      simp only [Symbol.conditional, Symbol.labels_append,
        Symbol.labels_branch, Symbol.labels_marker, Symbol.labels_nil,
        List.append_nil, List.nodup_append, List.nodup_singleton,
        List.mem_append, List.mem_singleton]
      grind

theorem fits (emitted : Emits bindings nodes first code last) :
    ∀ symbol ∈ code, symbol.Fits bindings := by
  induction emitted with
  | nil | declare => simp
  | block _ parts => exact parts
  | literal _ member =>
      intro symbol isPush
      rw [List.mem_singleton.mp isPush]
      exact List.idxOf_lt_length_of_mem member
  | var _ member =>
      intro symbol isGet
      rw [List.mem_singleton.mp isGet]
      exact List.idxOf_lt_length_of_mem member
  | define _ member _ parts =>
      intro symbol inCode
      rcases List.mem_append.mp inCode with inValue | isSet
      · exact parts symbol inValue
      · rw [List.mem_singleton.mp isSet]
        exact List.idxOf_lt_length_of_mem member
  | assign member _ parts =>
      intro symbol inCode
      rcases List.mem_append.mp inCode with inValue | isSet
      · exact parts symbol inValue
      · rw [List.mem_singleton.mp isSet]
        exact List.idxOf_lt_length_of_mem member
  | call _ callable _ parts =>
      intro symbol inCode
      rcases List.mem_append.mp inCode with inArgs | isCall
      · exact parts symbol inArgs
      · rw [List.mem_singleton.mp isCall]
        rcases bindings.callee_cases callable with
          ⟨native, overload, equality⟩ | ⟨_, member, equality⟩
        · rw [equality]
          exact ⟨native, List.mem_of_find?_eq_some overload, rfl⟩
        · rw [equality]
          exact List.idxOf_lt_length_of_mem member
  | cons _ _ headParts tailParts =>
      intro symbol inCode
      rcases List.mem_append.mp inCode with inHead | inTail
      · exact headParts symbol inHead
      · exact tailParts symbol inTail
  | equal _ _ leftParts rightParts =>
      intro symbol inCode
      simp only [List.mem_append, List.mem_singleton] at inCode
      rcases inCode with (inLeft | inRight) | rfl
      · exact leftParts symbol inLeft
      · exact rightParts symbol inRight
      · trivial
  | branch _ _ _ testParts positiveParts negativeParts =>
      intro symbol inCode
      simp only [Symbol.conditional, List.mem_append, List.mem_cons,
        List.not_mem_nil, or_false] at inCode
      rcases inCode with
        ((((inTest | rfl) | inPositive) | rfl | rfl) | inNegative) | rfl
      · exact testParts symbol inTest
      · rfl
      · exact positiveParts symbol inPositive
      · rfl
      · trivial
      · exact negativeParts symbol inNegative
      · trivial

end Emits

end TriggerScript
