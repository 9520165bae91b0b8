import TriggerScript.Proofs.ImageTruncation

/-!
# The grammar of images

Readers accept more bytes than writers make, because a number may be written
with needless groups of zeros.  Here the accepted bytes are described without
a reader:

* `Varint` is a number in groups of seven bits, long or short.
* `Piece` is a number or bytes that stand for themselves, and an image is a
  list of pieces.
* `Spells` says which pieces spell a value in which format.

What spells a value is read as that value, whatever follows.  What is written
for a value is its spelling with the shortest numbers.
-/

namespace TriggerScript.Image

/-! ## Numbers -/

/-- A number in groups of seven bits, lowest group first. -/
inductive Varint where
  | last (group : Fin 128)
  | more (group : Fin 128) (rest : Varint)
  deriving DecidableEq, Repr

namespace Varint

/-- The high bit of a byte says that another group follows. -/
def bytes : Varint → List UInt8
  | last group => [group.val.toUInt8]
  | more group rest => (group.val + 128).toUInt8 :: rest.bytes

def value : Varint → Nat
  | last group => group
  | more group rest => group + 128 * rest.value

/-- The number has at most so many groups, and its value so many bits. -/
def Fits (groups bits : Nat) (number : Varint) : Prop :=
  number.bytes.length ≤ groups ∧ number.value < 2 ^ bits

/-- The last byte is zero although it is not the only one. -/
def IsOverlong (number : Varint) : Prop :=
  1 < number.bytes.length ∧ number.bytes.getLast? = some 0

instance (number : Varint) : Decidable number.IsOverlong :=
  inferInstanceAs (Decidable (_ ∧ _))

theorem length_bytes_pos (number : Varint) : 0 < number.bytes.length := by
  cases number <;> simp [bytes]

/-- A number whose last group is zero is overlong as soon as another group
stands before it. -/
theorem isOverlong_more (group : Fin 128) (rest : Varint) :
    (more group rest).IsOverlong ↔ rest.bytes.getLast? = some 0 := by
  have nonempty := rest.length_bytes_pos
  have sameLast : (more group rest).bytes.getLast? = rest.bytes.getLast? := by
    rw [bytes, List.getLast?_cons_of_ne_nil
      (List.ne_nil_of_length_pos nonempty)]
  rw [IsOverlong, sameLast, bytes, List.length_cons]
  exact and_iff_right (by omega)

theorem getLast?_of_value_eq_zero {number : Varint}
    (zero : number.value = 0) : number.bytes.getLast? = some 0 := by
  induction number with
  | last group =>
      have groupEq : group.val = 0 := zero
      rw [bytes, groupEq]
      rfl
  | more group rest inductionHypothesis =>
      have restZero : rest.value = 0 := by
        rw [value] at zero
        omega
      have nonempty := List.ne_nil_of_length_pos rest.length_bytes_pos
      rw [bytes, List.getLast?_cons_of_ne_nil nonempty]
      exact inductionHypothesis restZero

/-- A number is written with the fewest groups, so its bytes are the written
ones unless it is overlong. -/
theorem encodeNat_value (number : Varint) :
    (encodeNat number.value).length ≤ number.bytes.length ∧
      (encodeNat number.value = number.bytes ↔ ¬ number.IsOverlong) := by
  induction number with
  | last group =>
      have small : (last group).value < 128 := group.isLt
      rw [encodeNat, if_pos small]
      refine ⟨Nat.le_refl _, fun _ overlong => ?_, fun _ => rfl⟩
      exact absurd overlong.1 (Nat.lt_irrefl 1)
  | more group rest inductionHypothesis =>
      obtain ⟨shorter, same⟩ := inductionHypothesis
      have nonempty := rest.length_bytes_pos
      have bound := group.isLt
      rw [isOverlong_more]
      by_cases zero : rest.value = 0
      · -- The number is one group, but it is spelled with at least two.
        have valueEq : (more group rest).value = group.val := by
          rw [value, zero, Nat.mul_zero, Nat.add_zero]
        rw [valueEq, encodeNat, if_pos bound, bytes]
        refine ⟨by simp, fun equal => ?_, fun short => ?_⟩
        · have lengths := congrArg List.length equal
          simp only [List.length_cons, List.length_nil] at lengths
          omega
        · exact absurd (getLast?_of_value_eq_zero zero) short
      · have large : ¬ (more group rest).value < 128 := by
          rw [value]
          omega
        have low : (more group rest).value % 128 = group.val := by
          rw [value]
          omega
        have high : (more group rest).value / 128 = rest.value := by
          rw [value]
          omega
        rw [encodeNat, if_neg large, low, high, bytes, List.length_cons,
          List.length_cons]
        refine ⟨Nat.add_le_add_right shorter 1, ?_⟩
        rw [List.cons.injEq, eq_self, true_and, same]
        -- A single group that is not zero does not end in a zero byte.
        cases rest with
        | more next others =>
            rw [isOverlong_more, bytes, List.getLast?_cons_of_ne_nil
              (List.ne_nil_of_length_pos others.length_bytes_pos)]
        | last next =>
            have different : next.val.toUInt8 ≠ 0 := by
              intro equal
              have numbers := congrArg UInt8.toNat equal
              rw [toNat_toUInt8_of_lt _ (by omega)] at numbers
              exact zero numbers
            simp [IsOverlong, bytes, different]

/-- The number of one byte. -/
theorem exists_last (byte : UInt8) (low : byte.toNat < 128) :
    ∃ number : Varint, number.value = byte.toNat ∧ number.bytes = [byte] :=
  ⟨last ⟨byte.toNat, low⟩, rfl, by simp [bytes]⟩

/-- A byte with its high bit set, in front of a number. -/
theorem exists_more (byte : UInt8) (high : ¬ byte.toNat < 128)
    (rest : Varint) :
    ∃ number : Varint,
      number.value = byte.toNat - 128 + 128 * rest.value ∧
        number.bytes = byte :: rest.bytes := by
  have bound := byte.toNat_lt
  refine ⟨more ⟨byte.toNat - 128, by omega⟩ rest, rfl, ?_⟩
  rw [bytes, Nat.sub_add_cancel (by omega)]
  simp

end Varint

/-- One more group holds 128 times as many numbers. -/
theorem capacity_succ (more top : Nat) :
    128 ^ (more + 1) * (top + 1) = 128 * (128 ^ more * (top + 1)) := by
  ring

/-- Whatever number is read stands in front of what is left. -/
theorem varint_of_decodeNat {top more number : Nat} (topSmall : top < 128)
    {bytes rest : List UInt8}
    (read : decodeNat top more bytes = .ok (number, rest)) :
    ∃ varint : Varint, varint.value = number ∧
      bytes = varint.bytes ++ rest ∧
      varint.bytes.length ≤ more + 1 ∧
      varint.value < 128 ^ more * (top + 1) := by
  induction more generalizing bytes number with
  | zero =>
      cases bytes with
      | nil =>
          cases read
      | cons byte others =>
          rw [decodeNat] at read
          by_cases small : byte.toNat ≤ top
          · rw [if_pos small] at read
            cases read
            obtain ⟨varint, valueEq, bytesEq⟩ :=
              Varint.exists_last byte (by omega)
            refine ⟨varint, valueEq, by rw [bytesEq]; rfl, ?_, by omega⟩
            rw [bytesEq, List.length_singleton]
          · rw [if_neg small] at read
            cases read
  | succ more inductionHypothesis =>
      cases bytes with
      | nil =>
          cases read
      | cons byte others =>
          rw [decodeNat] at read
          have positive : 0 < 128 ^ more * (top + 1) :=
            Nat.mul_pos (Nat.pow_pos (by decide)) (Nat.succ_pos top)
          rw [capacity_succ]
          by_cases low : byte.toNat < 128
          · rw [if_pos low] at read
            cases read
            obtain ⟨varint, valueEq, bytesEq⟩ := Varint.exists_last byte low
            refine ⟨varint, valueEq, by rw [bytesEq]; rfl, ?_, by omega⟩
            rw [bytesEq, List.length_singleton]
            omega
          · rw [if_neg low] at read
            obtain ⟨⟨high, last⟩, readHigh, returned⟩ :=
              exceptBind_eq_ok.mp read
            cases returned
            obtain ⟨upper, upperValue, rfl, upperLength, upperBound⟩ :=
              inductionHypothesis readHigh
            obtain ⟨varint, valueEq, bytesEq⟩ :=
              Varint.exists_more byte low upper
            have bound := byte.toNat_lt
            refine ⟨varint, by rw [valueEq, upperValue],
              by rw [bytesEq]; rfl, ?_, by omega⟩
            rw [bytesEq, List.length_cons]
            omega

/-- A number is read if it has no more groups than allowed and fits into
them. -/
theorem decodeNat_varint {top more : Nat} {number : Varint}
    (short : number.bytes.length ≤ more + 1)
    (bound : number.value < 128 ^ more * (top + 1)) (rest : List UInt8) :
    decodeNat top more (number.bytes ++ rest) =
      .ok (number.value, rest) := by
  induction number generalizing more with
  | last group =>
      have byteEq := toNat_toUInt8_of_lt group.val (by omega)
      rw [Varint.bytes, List.singleton_append]
      cases more with
      | zero =>
          have atMostTop : group.val ≤ top := by
            rw [Varint.value] at bound
            omega
          rw [decodeNat, byteEq, if_pos atMostTop]
          rfl
      | succ more =>
          rw [decodeNat, byteEq, if_pos group.isLt]
          rfl
  | more group upper inductionHypothesis =>
      have byteEq := toNat_toUInt8_of_lt (group.val + 128) (by omega)
      rw [Varint.bytes, List.length_cons] at short
      rw [Varint.bytes, List.cons_append]
      cases more with
      | zero =>
          have := upper.length_bytes_pos
          omega
      | succ more =>
          rw [capacity_succ] at bound
          have upperBound : upper.value < 128 ^ more * (top + 1) := by
            rw [Varint.value] at bound
            omega
          rw [decodeNat, byteEq, if_neg (by omega),
            inductionHypothesis (by omega) upperBound]
          change Except.ok
            (group.val + 128 - 128 + 128 * upper.value, rest) = _
          rw [Nat.add_sub_cancel]
          rfl

namespace Codec

theorem nat32_decode_varint {number : Varint} (fits : number.Fits 5 32)
    (rest : List UInt8) :
    nat32.decode (number.bytes ++ rest) = .ok (number.value, rest) :=
  decodeNat_varint fits.1 fits.2 rest

theorem nat64_decode_varint {number : Varint} (fits : number.Fits 10 64)
    (rest : List UInt8) :
    nat64.decode (number.bytes ++ rest) = .ok (number.value, rest) :=
  decodeNat_varint fits.1 fits.2 rest

theorem varint_of_nat32 {number : Nat} {bytes rest : List UInt8}
    (read : nat32.decode bytes = .ok (number, rest)) :
    ∃ varint : Varint, varint.Fits 5 32 ∧ varint.value = number ∧
      bytes = varint.bytes ++ rest := by
  obtain ⟨varint, valueEq, bytesEq, short, bound⟩ :=
    varint_of_decodeNat (by decide) read
  exact ⟨varint, ⟨short, bound⟩, valueEq, bytesEq⟩

theorem varint_of_nat64 {number : Nat} {bytes rest : List UInt8}
    (read : nat64.decode bytes = .ok (number, rest)) :
    ∃ varint : Varint, varint.Fits 10 64 ∧ varint.value = number ∧
      bytes = varint.bytes ++ rest := by
  obtain ⟨varint, valueEq, bytesEq, short, bound⟩ :=
    varint_of_decodeNat (by decide) read
  exact ⟨varint, ⟨short, bound⟩, valueEq, bytesEq⟩

end Codec

/-! ## Pieces -/

inductive Piece where
  | number (varint : Varint)
  /-- Bytes that stand for themselves. -/
  | plain (bytes : List UInt8)
  deriving DecidableEq, Repr

namespace Piece

def bytes : Piece → List UInt8
  | number varint => varint.bytes
  | plain bytes => bytes

/-- The bytes that are written in place of the piece. -/
def shortest : Piece → List UInt8
  | number varint => encodeNat varint.value
  | plain bytes => bytes

def IsOverlong : Piece → Prop
  | number varint => varint.IsOverlong
  | plain _ => False

def join (pieces : List Piece) : List UInt8 :=
  pieces.flatMap bytes

/-- The bytes that are written in place of several pieces. -/
def joinShortest (pieces : List Piece) : List UInt8 :=
  pieces.flatMap shortest

@[simp]
theorem join_nil : join [] = [] := rfl

@[simp]
theorem join_cons (piece : Piece) (pieces : List Piece) :
    join (piece :: pieces) = piece.bytes ++ join pieces := rfl

@[simp]
theorem join_append (left right : List Piece) :
    join (left ++ right) = join left ++ join right :=
  List.flatMap_append

@[simp]
theorem joinShortest_cons (piece : Piece) (pieces : List Piece) :
    joinShortest (piece :: pieces) =
      piece.shortest ++ joinShortest pieces := rfl

@[simp]
theorem joinShortest_append (left right : List Piece) :
    joinShortest (left ++ right) =
      joinShortest left ++ joinShortest right :=
  List.flatMap_append

theorem shortest_spec (piece : Piece) :
    piece.shortest.length ≤ piece.bytes.length ∧
      (piece.shortest = piece.bytes ↔ ¬ piece.IsOverlong) := by
  cases piece with
  | number varint =>
      exact varint.encodeNat_value
  | plain bytes =>
      exact ⟨Nat.le_refl _, fun _ overlong => overlong, fun _ => rfl⟩

/-- Two parts that are no longer than others make up the same bytes only if
each of them does. -/
theorem append_eq_append_iff {left right longLeft longRight : List UInt8}
    (leftBound : left.length ≤ longLeft.length)
    (rightBound : right.length ≤ longRight.length) :
    left ++ right = longLeft ++ longRight ↔
      left = longLeft ∧ right = longRight := by
  constructor
  · intro equal
    have lengths := congrArg List.length equal
    rw [List.length_append, List.length_append] at lengths
    exact List.append_inj equal (by omega)
  · rintro ⟨rfl, rfl⟩
    rfl

theorem joinShortest_spec (pieces : List Piece) :
    (joinShortest pieces).length ≤ (join pieces).length ∧
      (joinShortest pieces = join pieces ↔
        ∀ piece ∈ pieces, ¬ piece.IsOverlong) := by
  induction pieces with
  | nil =>
      simp [joinShortest]
  | cons piece pieces inductionHypothesis =>
      obtain ⟨pieceBound, pieceSame⟩ := piece.shortest_spec
      obtain ⟨bound, same⟩ := inductionHypothesis
      rw [joinShortest_cons, join_cons,
        append_eq_append_iff pieceBound bound, pieceSame, same,
        List.forall_mem_cons, List.length_append, List.length_append]
      exact ⟨Nat.add_le_add pieceBound bound, Iff.rfl⟩

end Piece

/-! ## Spellings -/

/-- `Spells codec value pieces` says that the pieces spell the value in the
format of the codec. -/
inductive Spells : {α : Type} → Codec α → α → List Piece → Prop
  | nat32 {number : Varint} :
      number.Fits 5 32 →
      Spells Codec.nat32 number.value [.number number]
  | nat64 {number : Varint} :
      number.Fits 10 64 →
      Spells Codec.nat64 number.value [.number number]
  | map {α β : Type} {codec : Codec α} {ofInner : α → β}
      {toInner : β → α} {value : α} {pieces : List Piece} :
      toInner (ofInner value) = value →
      Spells codec value pieces →
      Spells (codec.map ofInner toInner) (ofInner value) pieces
  | pair {α β : Type} {first : Codec α} {second : Codec β} {left : α}
      {right : β} {leftPieces rightPieces : List Piece} :
      Spells first left leftPieces →
      Spells second right rightPieces →
      Spells (first.pair second) (left, right)
        (leftPieces ++ rightPieces)
  | text {length : Varint} {value : String} :
      length.Fits 10 64 →
      length.value = value.utf8ByteSize →
      Spells Codec.text value
        [.number length, .plain value.toUTF8.data.toList]
  | list {α : Type} {codec : Codec α} {count : Varint}
      {items : List (α × List Piece)} :
      count.Fits 10 64 →
      count.value = items.length →
      (∀ item ∈ items, Spells codec item.1 item.2) →
      Spells codec.list (items.map Prod.fst)
        (.number count :: items.flatMap Prod.snd)
  | none {α : Type} {codec : Codec α} :
      Spells codec.option none [.plain [0]]
  | some {α : Type} {codec : Codec α} {value : α}
      {pieces : List Piece} :
      Spells codec value pieces →
      Spells codec.option (some value) (.plain [1] :: pieces)
  | cases {α : Type} [DecidableEq α] {all : List α} {number : Varint}
      {value : α} :
      number.Fits 5 32 →
      all.Nodup →
      all[number.value]? = Option.some value →
      Spells (Codec.cases all) value [.number number]
  | int {number : Varint} {value : Int32} {pieces : List Piece} :
      number.Fits 5 32 →
      number.value = 0 →
      Spells Codec.int32 value pieces →
      Spells Codec.constant (.int value) (.number number :: pieces)
  | long {number : Varint} {value : Int64} {pieces : List Piece} :
      number.Fits 5 32 →
      number.value = 1 →
      Spells Codec.int64 value pieces →
      Spells Codec.constant (.long value) (.number number :: pieces)
  | string {number : Varint} {value : String} {pieces : List Piece} :
      number.Fits 5 32 →
      number.value = 2 →
      Spells Codec.text value pieces →
      Spells Codec.constant (.string value) (.number number :: pieces)

theorem Codec.toUTF8_of_fromUTF8? {bytes : ByteArray} {value : String}
    (found : String.fromUTF8? bytes = some value) : value.toUTF8 = bytes := by
  unfold String.fromUTF8? at found
  split at found
  · cases found
    rfl
  · cases found

/-- A text of so many bytes is read when these are the bytes of the text. -/
theorem Codec.decodeContent_eq_ok_iff {length : Nat}
    {bytes rest : List UInt8} {value : String} :
    decodeContent length bytes = .ok (value, rest) ↔
      length = value.utf8ByteSize ∧
        bytes = value.toUTF8.data.toList ++ rest := by
  constructor
  · intro read
    unfold decodeContent at read
    by_cases short : bytes.length < length
    · rw [if_pos short] at read
      cases read
    · rw [if_neg short] at read
      cases found : String.fromUTF8? ⟨(bytes.take length).toArray⟩ with
      | none =>
          rw [found] at read
          cases read
      | some content =>
          rw [found] at read
          cases read
          have content : value.toUTF8.data.toList = bytes.take length := by
            rw [toUTF8_of_fromUTF8? found]
          constructor
          · change length = value.toUTF8.data.toList.length
            rw [content, List.length_take]
            omega
          · rw [content, List.take_append_drop]
  · rintro ⟨rfl, rfl⟩
    have readBack : String.fromUTF8? ⟨value.toUTF8.data⟩ = some value :=
      dif_pos value.isValidUTF8
    have count : value.utf8ByteSize = value.toUTF8.data.toList.length := rfl
    have enough : ¬ (value.toUTF8.data.toList ++ rest).length <
        value.toUTF8.data.toList.length := by
      rw [List.length_append]
      omega
    rw [decodeContent, count, if_neg enough, List.take_left,
      List.drop_left, Array.toArray_toList, readBack]
    rfl

theorem Codec.decodeMany_items {α : Type} {codec : Codec α}
    {items : List (α × List Piece)}
    (read : ∀ item ∈ items, ∀ rest,
      codec.decode (Piece.join item.2 ++ rest) = .ok (item.1, rest))
    (rest : List UInt8) :
    decodeMany codec items.length
        (Piece.join (items.flatMap Prod.snd) ++ rest) =
      .ok (items.map Prod.fst, rest) := by
  induction items with
  | nil =>
      rfl
  | cons item others inductionHypothesis =>
      have readOthers := inductionHypothesis fun other member =>
        read other (List.mem_cons_of_mem item member)
      rw [List.flatMap_cons, Piece.join_append, List.append_assoc,
        List.length_cons, decodeMany, read item List.mem_cons_self]
      change (decodeMany codec others.length _ >>= _) = _
      rw [readOthers]
      rfl

namespace Spells

variable {α : Type} {codec : Codec α} {value : α} {pieces : List Piece}

/-- What spells a value is read as that value, whatever follows. -/
theorem decode (spelled : Spells codec value pieces) (rest : List UInt8) :
    codec.decode (Piece.join pieces ++ rest) = .ok (value, rest) := by
  induction spelled generalizing rest with
  | nat32 fits =>
      rw [Piece.join_cons, Piece.join_nil, List.append_nil]
      exact Codec.nat32_decode_varint fits rest
  | nat64 fits =>
      rw [Piece.join_cons, Piece.join_nil, List.append_nil]
      exact Codec.nat64_decode_varint fits rest
  | map _ _ readInner =>
      exact exceptBind_eq_ok.mpr ⟨_, readInner rest, rfl⟩
  | pair _ _ readLeft readRight =>
      rw [Piece.join_append, List.append_assoc]
      exact exceptBind_eq_ok.mpr ⟨_, readLeft _,
        exceptBind_eq_ok.mpr ⟨_, readRight rest, rfl⟩⟩
  | text fits lengthEq =>
      rw [Piece.join_cons, Piece.join_cons, Piece.join_nil,
        List.append_nil, List.append_assoc, Codec.text_decode]
      exact exceptBind_eq_ok.mpr ⟨_, Codec.nat64_decode_varint fits _,
        Codec.decodeContent_eq_ok_iff.mpr ⟨lengthEq, rfl⟩⟩
  | list fits counted _ readItems =>
      rw [Piece.join_cons, List.append_assoc]
      refine exceptBind_eq_ok.mpr
        ⟨_, Codec.nat64_decode_varint fits _, ?_⟩
      simp only [counted]
      exact Codec.decodeMany_items readItems rest
  | none =>
      rfl
  | some _ readValue =>
      exact exceptBind_eq_ok.mpr ⟨_, readValue rest, rfl⟩
  | cases fits _ found =>
      rw [Piece.join_cons, Piece.join_nil, List.append_nil,
        Codec.cases_decode]
      refine exceptBind_eq_ok.mpr
        ⟨_, Codec.nat32_decode_varint fits _, ?_⟩
      rw [Codec.decodeCase, found]
      rfl
  | int fits case _ readValue | long fits case _ readValue
  | string fits case _ readValue =>
      rw [Piece.join_cons, List.append_assoc, Codec.constant_decode]
      refine exceptBind_eq_ok.mpr
        ⟨_, Codec.nat32_decode_varint fits _, ?_⟩
      rw [case]
      exact exceptBind_eq_ok.mpr ⟨_, readValue rest, rfl⟩

/-- What is written for a value is its spelling with the shortest numbers. -/
theorem encode_eq (spelled : Spells codec value pieces) :
    codec.encode value = Piece.joinShortest pieces := by
  induction spelled with
  | nat32 _ | nat64 _ =>
      exact (List.append_nil _).symm
  | @map _ _ codec ofInner toInner value _ inverse _ encoded =>
      change codec.encode (toInner (ofInner value)) = _
      rw [inverse, encoded]
  | @pair _ _ first second left right _ _ _ _ encodedLeft encodedRight =>
      change first.encode left ++ second.encode right = _
      rw [encodedLeft, encodedRight, Piece.joinShortest_append]
  | @text length value _ lengthEq =>
      change encodeNat value.utf8ByteSize ++ _ = _
      rw [← lengthEq]
      exact congrArg _ (List.append_nil _).symm
  | @list _ codec count items _ counted _ encoded =>
      have itemsEq : (items.map Prod.fst).flatMap codec.encode =
          Piece.joinShortest (items.flatMap Prod.snd) := by
        rw [List.flatMap_map, Piece.joinShortest, List.flatMap_assoc,
          List.flatMap_def, List.flatMap_def]
        exact congrArg List.flatten (List.map_congr_left encoded)
      change encodeNat (items.map Prod.fst).length ++
        (items.map Prod.fst).flatMap codec.encode = _
      rw [itemsEq, List.length_map, ← counted]
      rfl
  | none =>
      rfl
  | some _ encoded =>
      exact congrArg _ encoded
  | @cases _ _ all number value _ distinct found =>
      obtain ⟨bound, rfl⟩ := List.getElem?_eq_some_iff.mp found
      change encodeNat (all.idxOf all[number.value]) = _
      rw [distinct.idxOf_getElem number.value bound]
      exact (List.append_nil _).symm
  | int _ case _ encoded | long _ case _ encoded | string _ case _ encoded =>
      rw [Piece.joinShortest_cons, Piece.shortest, case, ← encoded]
      rfl

end Spells

end TriggerScript.Image
