import Mathlib.Tactic.MkIffOfInductiveProp
import Mathlib.Tactic.Ring
import TriggerScript.Image.Program

/-!
# Reading an image back

A codec *returns* a value when reading what it wrote gives the value again and
leaves whatever stands behind it untouched:

* `decodeNat_encodeNat` for numbers, whose groups must fit into the places the
  reader allows;
* one lemma for each way of putting codecs together;
* `Program.ofImage_toImage_append` for whole programs.

Numbers in a program stand for machine words of 64 bits.  `Program.InWords`
says that all of them, and the lengths of all lists and texts, are such
words.
-/

namespace TriggerScript

namespace Image

/-! ## Numbers -/

theorem toNat_toUInt8_of_lt (number : Nat) (small : number < 256) :
    number.toUInt8.toNat = number := by
  simpa using Nat.mod_eq_of_lt small

/-- A number that fits into `more` full groups and a last one of at most
`top` is read back. -/
theorem decodeNat_encodeNat {top more number : Nat} (topSmall : top < 128)
    (bound : number < 128 ^ more * (top + 1)) (rest : List UInt8) :
    decodeNat top more (encodeNat number ++ rest) = .ok (number, rest) := by
  induction more generalizing number with
  | zero =>
      have atMostTop : number ≤ top := by
        omega
      have oneGroup : number < 128 := by
        omega
      have byteEq := toNat_toUInt8_of_lt number (by omega)
      rw [encodeNat, if_pos oneGroup, List.singleton_append, decodeNat,
        byteEq, if_pos atMostTop]
  | succ more inductionHypothesis =>
      rw [encodeNat]
      by_cases oneGroup : number < 128
      · have byteEq := toNat_toUInt8_of_lt number (by omega)
        rw [if_pos oneGroup, List.singleton_append, decodeNat, byteEq,
          if_pos oneGroup]
      · have byteEq := toNat_toUInt8_of_lt (number % 128 + 128)
          (by omega)
        have highBound : number / 128 < 128 ^ more * (top + 1) := by
          rw [Nat.div_lt_iff_lt_mul (by decide)]
          calc
            number < 128 ^ (more + 1) * (top + 1) := bound
            _ = 128 ^ more * (top + 1) * 128 := by ring
        have joined :
            number % 128 + 128 - 128 + 128 * (number / 128) = number := by
          omega
        rw [if_neg oneGroup, List.cons_append, decodeNat, byteEq,
          if_neg (by omega), inductionHypothesis highBound]
        change Except.ok
          (number % 128 + 128 - 128 + 128 * (number / 128), rest) = _
        rw [joined]

theorem unzigzag_zigzag (number : Int) :
    unzigzag (zigzag number) = number := by
  unfold unzigzag zigzag
  by_cases nonnegative : 0 ≤ number
  · rw [if_pos nonnegative, if_pos (by omega)]
    omega
  · rw [if_neg nonnegative, if_neg (by omega)]
    omega

theorem zigzag_lt {number : Int} {half : Nat} (lower : -half ≤ number)
    (upper : number < half) : zigzag number < 2 * half := by
  unfold zigzag
  by_cases nonnegative : 0 ≤ number
  · rw [if_pos nonnegative]
    omega
  · rw [if_neg nonnegative]
    omega

namespace Codec

variable {α β : Type}

/-- What the codec writes for the value is read back, whatever follows. -/
def Returns (codec : Codec α) (value : α) : Prop :=
  ∀ rest, codec.decode (codec.encode value ++ rest) = .ok (value, rest)

/-! ## Codecs made of others -/

theorem Returns.map {codec : Codec α} {ofInner : α → β}
    {toInner : β → α} {value : β}
    (inverse : ofInner (toInner value) = value)
    (returns : codec.Returns (toInner value)) :
    (codec.map ofInner toInner).Returns value := by
  intro rest
  change (codec.decode (codec.encode (toInner value) ++ rest) >>= _) = _
  rw [returns rest]
  change Except.ok (ofInner (toInner value), rest) = _
  rw [inverse]

theorem Returns.pair {first : Codec α} {second : Codec β}
    {value : α × β} (left : first.Returns value.1)
    (right : second.Returns value.2) :
    (first.pair second).Returns value := by
  intro rest
  change (first.decode
    (first.encode value.1 ++ second.encode value.2 ++ rest) >>= _) = _
  rw [List.append_assoc, left]
  change (second.decode (second.encode value.2 ++ rest) >>= _) = _
  rw [right rest]
  rfl

theorem nat32_returns {number : Nat} (bound : number < 2 ^ 32) :
    nat32.Returns number :=
  fun rest => decodeNat_encodeNat (by decide) (by omega) rest

theorem nat64_returns {number : Nat} (bound : number < 2 ^ 64) :
    nat64.Returns number :=
  fun rest => decodeNat_encodeNat (by decide) (by omega) rest

theorem uint32_returns (value : UInt32) : uint32.Returns value :=
  .map UInt32.ofNat_toNat (nat32_returns value.toNat_lt)

theorem uint64_returns (value : UInt64) : uint64.Returns value :=
  .map UInt64.ofNat_toNat (nat64_returns value.toNat_lt)

theorem int32_returns (value : Int32) : int32.Returns value := by
  have bound : zigzag value.toInt < 2 * 2 ^ 31 :=
    zigzag_lt value.le_toInt value.toInt_lt
  refine .map ?_ (nat32_returns bound)
  rw [unzigzag_zigzag, Int32.ofInt_toInt]

theorem int64_returns (value : Int64) : int64.Returns value := by
  have bound : zigzag value.toInt < 2 * 2 ^ 63 :=
    zigzag_lt value.le_toInt value.toInt_lt
  refine .map ?_ (nat64_returns bound)
  rw [unzigzag_zigzag, Int64.ofInt_toInt]

theorem text_returns {value : String}
    (bound : value.utf8ByteSize < 2 ^ 64) : text.Returns value := by
  intro rest
  have byteCount : value.toUTF8.data.toList.length < 2 ^ 64 := bound
  have valid : value.toUTF8.IsValidUTF8 := value.isValidUTF8
  have readBack : String.fromUTF8? ⟨value.toUTF8.data⟩ = some value :=
    dif_pos valid
  have enough : ¬ (value.toUTF8.data.toList ++ rest).length <
      value.toUTF8.data.toList.length := by
    rw [List.length_append]
    omega
  change (nat64.decode (nat64.encode value.toUTF8.data.toList.length ++
    value.toUTF8.data.toList ++ rest) >>= _) = _
  rw [List.append_assoc, nat64_returns byteCount]
  simp only [bind, Except.bind, if_neg enough, List.take_left,
    List.drop_left, Array.toArray_toList, readBack]
  rfl

theorem decodeMany_returns {codec : Codec α} {values : List α}
    (returns : ∀ value ∈ values, codec.Returns value)
    (rest : List UInt8) :
    decodeMany codec values.length
      (values.flatMap codec.encode ++ rest) = .ok (values, rest) := by
  induction values with
  | nil =>
      rfl
  | cons value others inductionHypothesis =>
      have valueReturns := returns value List.mem_cons_self
      have othersReturn := inductionHypothesis fun other member =>
        returns other (List.mem_cons_of_mem value member)
      rw [List.flatMap_cons, List.append_assoc, List.length_cons,
        decodeMany, valueReturns]
      change (decodeMany codec others.length _ >>= _) = _
      rw [othersReturn]
      rfl

theorem Returns.list {codec : Codec α} {values : List α}
    (bound : values.length < 2 ^ 64)
    (returns : ∀ value ∈ values, codec.Returns value) :
    codec.list.Returns values := by
  intro rest
  change (nat64.decode (nat64.encode values.length ++
    values.flatMap codec.encode ++ rest) >>= _) = _
  rw [List.append_assoc, nat64_returns bound]
  exact decodeMany_returns returns rest

theorem Returns.array {codec : Codec α} {values : Array α}
    (bound : values.size < 2 ^ 64)
    (returns : ∀ value ∈ values.toList, codec.Returns value) :
    codec.array.Returns values :=
  .map Array.toArray_toList (.list bound returns)

theorem Returns.option {codec : Codec α} {value? : Option α}
    (returns : ∀ value ∈ value?, codec.Returns value) :
    codec.option.Returns value? := by
  intro rest
  cases value? with
  | none =>
      rfl
  | some value =>
      change (codec.decode (codec.encode value ++ rest) >>= _) = _
      rw [returns value rfl]
      rfl

/-- A case is returned when it stands in the list, which must not be longer
than the numbers reach. -/
theorem cases_returns [DecidableEq α] {all : List α} {value : α}
    (bound : all.length ≤ 2 ^ 32) (member : value ∈ all) :
    (cases all).Returns value := by
  intro rest
  have place : all.idxOf value < all.length :=
    List.idxOf_lt_length_iff.mpr member
  have found : all[all.idxOf value]? = some value := by
    rw [List.getElem?_eq_getElem place, List.getElem_idxOf place]
  change (nat32.decode (nat32.encode (all.idxOf value) ++ rest) >>= _) = _
  rw [nat32_returns (Nat.lt_of_lt_of_le place bound)]
  simp only [bind, Except.bind, found]
  rfl

end Codec

end Image

/-! ## Programs -/

/-- All numbers of an instruction are machine words. -/
@[mk_iff]
structure Instruction.InWords (instruction : Instruction) : Prop where
  i : instruction.i < 2 ^ 64
  l : instruction.l < 2 ^ 64
  s : instruction.s < 2 ^ 64
  address : instruction.address < 2 ^ 64
  label? : ∀ label ∈ instruction.label?, label < 2 ^ 64

instance (instruction : Instruction) : Decidable instruction.InWords :=
  decidable_of_iff _ (Instruction.inWords_iff instruction).symm

@[mk_iff]
structure Variable.InWords (held : Variable) : Prop where
  name : held.name.utf8ByteSize < 2 ^ 64
  index : held.index < 2 ^ 64

instance (held : Variable) : Decidable held.InWords :=
  decidable_of_iff _ (Variable.inWords_iff held).symm

/-- All numbers and lengths of a method are machine words. -/
@[mk_iff]
structure Method.InWords (method : Method) : Prop where
  name : method.name.utf8ByteSize < 2 ^ 64
  index : method.index < 2 ^ 64
  instructionCount : method.instructions.size < 2 ^ 64
  instructions : ∀ instruction ∈ method.instructions.toList,
    instruction.InWords
  localCount : method.locals.length < 2 ^ 64
  locals : ∀ held ∈ method.locals, held.InWords
  paramCount : method.params.length < 2 ^ 64
  params : ∀ index ∈ method.params, index < 2 ^ 64
  entry : method.entry < 2 ^ 64
  address : method.address < 2 ^ 64

instance (method : Method) : Decidable method.InWords :=
  decidable_of_iff _ (Method.inWords_iff method).symm

/-- The values of `int` and `long` are machine words already. -/
def Constant.InWords : Constant → Prop
  | int _ => True
  | long _ => True
  | string value => value.utf8ByteSize < 2 ^ 64

instance : (constant : Constant) → Decidable constant.InWords
  | .int _ => isTrue trivial
  | .long _ => isTrue trivial
  | .string value =>
      inferInstanceAs (Decidable (value.utf8ByteSize < 2 ^ 64))

@[mk_iff]
structure TriggerEntry.InWords (row : TriggerEntry) : Prop where
  event : row.event.utf8ByteSize < 2 ^ 64
  entry : row.entry < 2 ^ 64
  address : row.address < 2 ^ 64

instance (row : TriggerEntry) : Decidable row.InWords :=
  decidable_of_iff _ (TriggerEntry.inWords_iff row).symm

/-- All numbers of a program, and the lengths of its lists and texts, are
machine words. -/
@[mk_iff]
structure Program.InWords (program : Program) : Prop where
  methodCount : program.methods.length < 2 ^ 64
  methods : ∀ method ∈ program.methods, method.InWords
  constantCount : program.constants.length < 2 ^ 64
  constants : ∀ constant ∈ program.constants, constant.InWords
  triggerCount : program.triggers.length < 2 ^ 64
  triggers : ∀ row ∈ program.triggers, row.InWords

instance (program : Program) : Decidable program.InWords :=
  decidable_of_iff _ (Program.inWords_iff program).symm

namespace Image.Codec

theorem opcode_returns (value : Opcode) : opcode.Returns value :=
  cases_returns (by decide) (by cases value <;> decide)

theorem valueType_returns (value : ValueType) : valueType.Returns value :=
  cases_returns (by decide) (by cases value <;> decide)

theorem instruction_returns {value : Instruction}
    (inWords : value.InWords) : instruction.Returns value := by
  refine .map rfl ?_
  refine .pair (opcode_returns _) ?_
  refine .pair (nat64_returns inWords.i) ?_
  refine .pair (nat64_returns inWords.l) ?_
  refine .pair (nat64_returns inWords.s) ?_
  refine .pair (nat64_returns inWords.address) ?_
  exact .option fun label isLabel =>
    nat64_returns (inWords.label? label isLabel)

theorem methodVariable_returns {value : Variable}
    (inWords : value.InWords) : methodVariable.Returns value := by
  refine .map rfl ?_
  refine .pair (text_returns inWords.name) ?_
  exact .pair (nat64_returns inWords.index) (valueType_returns _)

theorem method_returns {value : Method} (inWords : value.InWords) :
    method.Returns value := by
  refine .map rfl ?_
  refine .pair (text_returns inWords.name) ?_
  refine .pair (nat64_returns inWords.index) ?_
  refine .pair (.array inWords.instructionCount fun held member =>
    instruction_returns (inWords.instructions held member)) ?_
  refine .pair (.list inWords.localCount fun held member =>
    methodVariable_returns (inWords.locals held member)) ?_
  refine .pair (.list inWords.paramCount fun index member =>
    nat64_returns (inWords.params index member)) ?_
  exact .pair (nat64_returns inWords.entry)
    (nat64_returns inWords.address)

theorem constant_returns {value : Constant} (inWords : value.InWords) :
    constant.Returns value := by
  intro rest
  cases value with
  | int number =>
      change (nat32.decode
        (nat32.encode 0 ++ int32.encode number ++ rest) >>= _) = _
      rw [List.append_assoc, nat32_returns (by decide)]
      change (int32.decode (int32.encode number ++ rest) >>= _) = _
      rw [int32_returns]
      rfl
  | long number =>
      change (nat32.decode
        (nat32.encode 1 ++ int64.encode number ++ rest) >>= _) = _
      rw [List.append_assoc, nat32_returns (by decide)]
      change (int64.decode (int64.encode number ++ rest) >>= _) = _
      rw [int64_returns]
      rfl
  | string content =>
      change (nat32.decode
        (nat32.encode 2 ++ text.encode content ++ rest) >>= _) = _
      rw [List.append_assoc, nat32_returns (by decide)]
      change (text.decode (text.encode content ++ rest) >>= _) = _
      rw [text_returns inWords]
      rfl

theorem trigger_returns {value : TriggerEntry} (inWords : value.InWords) :
    trigger.Returns value := by
  refine .map rfl ?_
  refine .pair (text_returns inWords.event) ?_
  refine .pair (uint32_returns _) ?_
  refine .pair (uint64_returns _) ?_
  exact .pair (nat64_returns inWords.entry)
    (nat64_returns inWords.address)

theorem program_returns {value : Program} (inWords : value.InWords) :
    program.Returns value := by
  refine .map rfl ?_
  refine .pair (.list inWords.methodCount fun held member =>
    method_returns (inWords.methods held member)) ?_
  refine .pair (.list inWords.constantCount fun held member =>
    constant_returns (inWords.constants held member)) ?_
  exact .list inWords.triggerCount fun row member =>
    trigger_returns (inWords.triggers row member)

end Image.Codec

/-- The image of a program is read back, and what follows it is ignored. -/
theorem Program.ofImage_toImage_append {program : Program}
    (inWords : program.InWords) (rest : List UInt8) :
    ofImage (program.toImage ++ rest) = .ok program := by
  unfold ofImage toImage
  rw [Image.Codec.program_returns inWords rest]
  rfl

/-- Every number is as large as it can be, and a label stands where no marker
is. -/
def widestProgram : Program where
  methods :=
    [{ name := "größe"
       index := 2 ^ 64 - 1
       instructions :=
        #[⟨.label, 0, 128, 2 ^ 63, 2 ^ 64 - 1, none⟩,
          ⟨.getLocal, 127, 16384, 2 ^ 32, 0, some (2 ^ 64 - 1)⟩]
       locals := [⟨"", 2 ^ 64 - 1, .void⟩, ⟨"x", 0, .long⟩]
       params := [2 ^ 64 - 1, 0]
       entry := 2 ^ 64 - 1
       address := 300 }]
  constants :=
    [.int Int32.minValue, .int Int32.maxValue, .long Int64.minValue,
      .long Int64.maxValue, .string "\"\n😀"]
  triggers :=
    [⟨"knock", 4294967295, 18446744073709551615, 2 ^ 64 - 1, 2 ^ 63⟩]

theorem ofImage_toImage_append_widest :
    widestProgram.InWords ∧
      Program.ofImage (widestProgram.toImage ++ [0xFF, 0x00]) =
        .ok widestProgram := by
  have inWords : widestProgram.InWords := by
    decide
  exact ⟨inWords, Program.ofImage_toImage_append inWords _⟩

end TriggerScript
