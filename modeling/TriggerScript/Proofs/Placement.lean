import TriggerScript.Assembly.Link
import Mathlib.Data.List.Basic

/-!
# Placed code

Numbering gives every instruction the number of addresses taken before it.
Numbering several methods in turn is the same as numbering their code in one
piece, so facts about the address space are facts about one list.
-/

namespace TriggerScript

namespace Instruction

def isOperation (instruction : Instruction) : Bool :=
  !instruction.isLabel

def span (code : List Instruction) : Nat :=
  code.countP fun instruction => instruction.label?.isNone

@[simp]
theorem span_nil : span [] = 0 := rfl

@[simp]
theorem span_append (left right : List Instruction) :
    span (left ++ right) = span left + span right :=
  List.countP_append

theorem span_cons (instruction : Instruction)
    (rest : List Instruction) :
    span (instruction :: rest) =
      (if instruction.label?.isSome then 0 else 1) + span rest := by
  cases labelled : instruction.label? <;>
    simp [span, labelled, Nat.add_comm]

/-- Only the labels matter for the number of addresses. -/
theorem span_eq_of_labels_eq {left right : List Instruction}
    (equality : left.map label? = right.map label?) :
    span left = span right := by
  have counted (code : List Instruction) :
      span code = (code.map label?).countP Option.isNone := by
    rw [List.countP_map]
    rfl
  rw [counted left, counted right, equality]

theorem place_cons (base : Nat) (instruction : Instruction)
    (rest : List Instruction) :
    (place base (instruction :: rest)).1 =
      { instruction with address := base } ::
        (place (base + span [instruction]) rest).1 := by
  cases labelled : instruction.label? <;>
    simp [place, labelled, span]

/-- The address behind some code. -/
theorem place_stop (base : Nat) (code : List Instruction) :
    (place base code).2 = base + span code := by
  induction code generalizing base with
  | nil =>
      rfl
  | cons instruction rest inductionHypothesis =>
      rw [span_cons]
      cases labelled : instruction.label? <;>
        simp [place, labelled, inductionHypothesis, Nat.add_assoc]

theorem place_append (base : Nat) (left right : List Instruction) :
    (place base (left ++ right)).1 =
      (place base left).1 ++ (place (base + span left) right).1 := by
  induction left generalizing base with
  | nil =>
      rfl
  | cons instruction rest inductionHypothesis =>
      rw [List.cons_append, place_cons, place_cons,
        inductionHypothesis, List.cons_append, Nat.add_assoc,
        ← span_append, List.singleton_append]

/-- Each instruction gets the number of addresses before it. -/
theorem place_getElem? (base : Nat) (code : List Instruction)
    (position : Nat) :
    (place base code).1[position]? =
      code[position]?.map fun instruction =>
        { instruction with
          address := base + span (code.take position) } := by
  induction code generalizing base position with
  | nil =>
      rfl
  | cons instruction rest inductionHypothesis =>
      rw [place_cons]
      cases position with
      | zero =>
          rfl
      | succ position =>
          simp only [List.getElem?_cons_succ, inductionHypothesis,
            List.take_succ_cons]
          rw [Nat.add_assoc, ← span_append, List.singleton_append]

/-- Numbering changes addresses only. -/
theorem mem_place {base : Nat} {code : List Instruction}
    {instruction : Instruction}
    (member : instruction ∈ (place base code).1) :
    ∃ original ∈ code,
      instruction =
        { original with address := instruction.address } := by
  obtain ⟨position, found⟩ := List.mem_iff_getElem?.mp member
  rw [place_getElem?] at found
  obtain ⟨original, originalAt, rfl⟩ := Option.map_eq_some_iff.mp found
  exact ⟨original, List.mem_of_getElem? originalAt, rfl⟩

theorem exists_mem_place (base : Nat) {code : List Instruction}
    {original : Instruction} (member : original ∈ code) :
    ∃ address, { original with address } ∈ (place base code).1 := by
  obtain ⟨position, found⟩ := List.mem_iff_getElem?.mp member
  have placed := place_getElem? base code position
  rw [found] at placed
  exact ⟨_, List.mem_of_getElem? placed⟩

theorem place_map_labels (base : Nat) (code : List Instruction) :
    (place base code).1.map label? = code.map label? := by
  induction code generalizing base with
  | nil =>
      rfl
  | cons instruction rest inductionHypothesis =>
      rw [place_cons, List.map_cons, List.map_cons,
        inductionHypothesis]

@[simp]
theorem span_place (base : Nat) (code : List Instruction) :
    span (place base code).1 = span code :=
  span_eq_of_labels_eq (place_map_labels base code)

/-- Where exactly the label markers have labels, both ways of counting
addresses agree. -/
theorem span_eq_countP {code : List Instruction}
    (agree : ∀ instruction ∈ code,
      instruction.isLabel = instruction.label?.isSome) :
    span code = code.countP isOperation := by
  apply List.countP_congr
  intro instruction member
  rw [isOperation, agree instruction member, Option.not_isSome]

/-- The address of an instruction, by what stands before it in the placed
code. -/
theorem address_of_place_eq {base : Nat}
    {code before after : List Instruction} {instruction : Instruction}
    (split : (place base code).1 = before ++ instruction :: after) :
    instruction.address = base + span before := by
  have found : (place base code).1[before.length]? = some instruction := by
    rw [split, List.getElem?_append_right (Nat.le_refl _), Nat.sub_self]
    rfl
  rw [place_getElem?] at found
  obtain ⟨original, _, rfl⟩ := Option.map_eq_some_iff.mp found
  have labels := congrArg (List.take before.length)
    (place_map_labels base code)
  rw [← List.map_take, ← List.map_take, split, List.take_left] at labels
  rw [span_eq_of_labels_eq labels]

/-- Where exactly the label markers have labels, the other instructions are
numbered without gaps. -/
theorem place_addresses (base : Nat) {code : List Instruction}
    (agree : ∀ instruction ∈ code,
      instruction.isLabel = instruction.label?.isSome) :
    ((place base code).1.filter isOperation).map address =
      List.range' base (span code) := by
  induction code generalizing base with
  | nil =>
      rfl
  | cons instruction rest inductionHypothesis =>
      have restAgree : ∀ other ∈ rest,
          other.isLabel = other.label?.isSome :=
        fun other member => agree other (List.mem_cons_of_mem _ member)
      have kept : ({ instruction with address := base } :
          Instruction).isLabel = instruction.label?.isSome :=
        agree instruction List.mem_cons_self
      have spanEq : span (instruction :: rest) =
          span [instruction] + span rest :=
        span_append [instruction] rest
      rw [place_cons, spanEq]
      by_cases marks : instruction.label?.isSome = true
      · have noSpan : span [instruction] = 0 := by
          rw [span_cons, if_pos marks, span_nil]
        have skipped : ¬({ instruction with address := base } :
            Instruction).isOperation = true := by
          simp [isOperation, kept, marks]
        rw [List.filter_cons_of_neg skipped, noSpan, Nat.add_zero,
          inductionHypothesis base restAgree, Nat.zero_add]
      · have oneSpan : span [instruction] = 1 := by
          rw [span_cons, if_neg marks, span_nil]
        have taken : ({ instruction with address := base } :
            Instruction).isOperation = true := by
          simp [isOperation, kept, marks]
        rw [List.filter_cons_of_pos taken, oneSpan, List.map_cons,
          inductionHypothesis (base + 1) restAgree, Nat.add_comm 1,
          List.range'_succ]

def placeAll : Nat → List (List Instruction) → List (List Instruction)
  | _, [] => []
  | base, code :: rest =>
      (place base code).1 :: placeAll (base + span code) rest

/-- Methods share one address space. -/
theorem placeAll_flatten (base : Nat)
    (codes : List (List Instruction)) :
    (placeAll base codes).flatten = (place base codes.flatten).1 := by
  induction codes generalizing base with
  | nil =>
      rfl
  | cons code rest inductionHypothesis =>
      rw [placeAll, List.flatten_cons, List.flatten_cons,
        inductionHypothesis, place_append]

theorem placeAll_length (base : Nat)
    (codes : List (List Instruction)) :
    (placeAll base codes).length = codes.length := by
  induction codes generalizing base with
  | nil =>
      rfl
  | cons code rest inductionHypothesis =>
      rw [placeAll, List.length_cons, inductionHypothesis,
        List.length_cons]

/-- A method begins behind the methods before it. -/
theorem placeAll_getElem? (base : Nat)
    (codes : List (List Instruction)) (index : Nat) :
    (placeAll base codes)[index]? =
      codes[index]?.map fun code =>
        (place (base + span (codes.take index).flatten) code).1 := by
  induction codes generalizing base index with
  | nil =>
      rfl
  | cons code rest inductionHypothesis =>
      cases index with
      | zero =>
          rfl
      | succ index =>
          simp only [placeAll, List.getElem?_cons_succ,
            inductionHypothesis, List.take_succ_cons,
            List.flatten_cons, span_append]
          rw [Nat.add_assoc]

end Instruction

namespace Method

def code (method : Method) : List Instruction :=
  method.instructions.toList

def withoutCode (method : Method) : Method :=
  { method with instructions := #[] }

/-- A method without its instructions, moved to an address. -/
def frameAt (method : Method) (address : Nat) : Method :=
  { method with instructions := #[], address }

/-- Whatever does not depend on code and address is the same in two methods
with the same frame. -/
theorem field_eq_of_frame {α : Type} {left right : Method}
    {address : Nat} (frame : left.withoutCode = right.frameAt address)
    (field : Method → α)
    (ignored : ∀ (method : Method) (address : Nat),
      field (method.frameAt address) = field method) :
    field left = field right := by
  have fields : field left.withoutCode = field right := by
    rw [frame, ignored]
  rw [← fields]
  exact (ignored left left.address).symm

theorem place_codes (base : Nat) (methods : List Method) :
    (place base methods).1.map code =
      Instruction.placeAll base (methods.map code) := by
  induction methods generalizing base with
  | nil =>
      rfl
  | cons method rest inductionHypothesis =>
      rw [place, List.map_cons, List.map_cons, Instruction.placeAll,
        inductionHypothesis, Instruction.place_stop]
      rfl

theorem place_withoutCode (base : Nat) (methods : List Method) :
    (place base methods).1.map withoutCode =
      methods.map withoutCode := by
  induction methods generalizing base with
  | nil =>
      rfl
  | cons method rest inductionHypothesis =>
      rw [place, List.map_cons, List.map_cons, inductionHypothesis]
      rfl

/-- The address behind all methods. -/
theorem place_stop (base : Nat) (methods : List Method) :
    (place base methods).2 =
      base + Instruction.span (methods.flatMap code) := by
  induction methods generalizing base with
  | nil =>
      rfl
  | cons method rest inductionHypothesis =>
      rw [place, inductionHypothesis, Instruction.place_stop,
        List.flatMap_cons, Instruction.span_append, Nat.add_assoc]
      rfl

end Method

end TriggerScript
