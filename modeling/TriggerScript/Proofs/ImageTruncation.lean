import TriggerScript.Proofs.ImageRoundTrip
import TriggerScript.Proofs.Outcomes

/-!
# Truncated images

A reader is *steady* when bytes that follow change its outcome only if the
bytes before ran out: a value that was read stays, with more bytes left behind
it, and so does every other error.  Steady readers in sequence are steady, and
so are all readers of programs.

A cut image is therefore never taken for another program, and never for a
damaged one: the whole image is read without an error, so the only thing that
its front part can report is that the bytes ran out.
-/

namespace TriggerScript

namespace Image

/-! ## Steady readers -/

/-- Bytes that follow change the outcome only if the bytes ran out. -/
structure Steady {α : Type}
    (read : List UInt8 → Except DecodeError (α × List UInt8)) : Prop where
  ok : ∀ {bytes rest : List UInt8} {value : α},
    read bytes = .ok (value, rest) →
      ∀ more, read (bytes ++ more) = .ok (value, rest ++ more)
  error : ∀ {bytes : List UInt8} {error : DecodeError},
    read bytes = .error error → error ≠ .endOfBytes →
      ∀ more, read (bytes ++ more) = .error error

namespace Steady

variable {α β : Type}

theorem pure (value : α) : Steady fun bytes => .ok (value, bytes) where
  ok read more := by
    cases read
    rfl
  error failed := by
    cases failed

theorem fail (error : DecodeError) :
    Steady fun _ => (.error error : Except DecodeError (α × List UInt8)) where
  ok read := by
    cases read
  error failed _ _ := failed

/-- One steady reader behind another. -/
theorem bind {first : List UInt8 → Except DecodeError (α × List UInt8)}
    {next : α → List UInt8 → Except DecodeError (β × List UInt8)}
    (firstSteady : Steady first) (nextSteady : ∀ value, Steady (next value)) :
    Steady fun bytes => first bytes >>= fun read => next read.1 read.2 where
  ok read more := by
    obtain ⟨⟨value, middle⟩, readFirst, readNext⟩ := exceptBind_eq_ok.mp read
    exact exceptBind_eq_ok.mpr ⟨_, firstSteady.ok readFirst more,
      (nextSteady value).ok readNext more⟩
  error failed notEnd more := by
    rcases exceptBind_eq_error.mp failed with
      failedFirst | ⟨⟨value, middle⟩, readFirst, failedNext⟩
    · exact exceptBind_eq_error.mpr
        (Or.inl (firstSteady.error failedFirst notEnd more))
    · exact exceptBind_eq_error.mpr
        (Or.inr ⟨_, firstSteady.ok readFirst more,
          (nextSteady value).error failedNext notEnd more⟩)

/-- A reader that goes on steadily behind its first byte. -/
theorem ofByte {read : List UInt8 → Except DecodeError (α × List UInt8)}
    (empty : read [] = .error .endOfBytes)
    (next : ∀ byte, Steady fun rest => read (byte :: rest)) :
    Steady read where
  ok {bytes _ _} found more := by
    cases bytes with
    | nil =>
        rw [empty] at found
        cases found
    | cons byte behind =>
        exact (next byte).ok found more
  error {bytes _} failed notEnd more := by
    cases bytes with
    | nil =>
        rw [empty] at failed
        cases failed
        exact absurd rfl notEnd
    | cons byte behind =>
        exact (next byte).error failed notEnd more

/-- A front part of bytes that are read to their end has run out of bytes. -/
theorem eq_endOfBytes {read : List UInt8 → Except DecodeError (α × List UInt8)}
    (steady : Steady read) {front whole : List UInt8} {value : α}
    (readWhole : read whole = .ok (value, []))
    (isFront : front <+: whole) (cut : front ≠ whole) :
    read front = .error .endOfBytes := by
  obtain ⟨behind, rfl⟩ := isFront
  cases outcome : read front with
  | ok found =>
      have longer := steady.ok outcome behind
      rw [readWhole, Except.ok.injEq, Prod.mk.injEq] at longer
      have nothing := (List.append_eq_nil_iff.mp longer.2.symm).2
      rw [nothing, List.append_nil] at cut
      exact absurd rfl cut
  | error error =>
      by_cases isEnd : error = .endOfBytes
      · rw [isEnd]
      · have longer := steady.error outcome isEnd behind
        rw [readWhole] at longer
        cases longer

end Steady

theorem decodeNat_steady (top more : Nat) : Steady (decodeNat top more) := by
  induction more with
  | zero =>
      refine .ofByte rfl fun byte => ?_
      by_cases small : byte.toNat ≤ top
      · simp only [decodeNat, if_pos small]
        exact .pure byte.toNat
      · simp only [decodeNat, if_neg small]
        exact .fail .badNumber
  | succ more inductionHypothesis =>
      refine .ofByte rfl fun byte => ?_
      by_cases low : byte.toNat < 128
      · simp only [decodeNat, if_pos low]
        exact .pure byte.toNat
      · simp only [decodeNat, if_neg low]
        exact inductionHypothesis.bind fun high =>
          .pure (byte.toNat - 128 + 128 * high)

namespace Codec

variable {α β : Type}

theorem nat32_steady : Steady nat32.decode :=
  decodeNat_steady 15 4

theorem nat64_steady : Steady nat64.decode :=
  decodeNat_steady 1 9

theorem map_steady {codec : Codec α} (ofInner : α → β) (toInner : β → α)
    (steady : Steady codec.decode) :
    Steady (codec.map ofInner toInner).decode :=
  steady.bind fun value => .pure (ofInner value)

theorem pair_steady {first : Codec α} {second : Codec β}
    (left : Steady first.decode) (right : Steady second.decode) :
    Steady (first.pair second).decode :=
  left.bind fun value => right.bind fun other => .pure (value, other)

theorem decodeMany_steady {codec : Codec α} (steady : Steady codec.decode)
    (count : Nat) : Steady (decodeMany codec count) := by
  induction count with
  | zero =>
      exact .pure []
  | succ count inductionHypothesis =>
      exact steady.bind fun value =>
        inductionHypothesis.bind fun others => .pure (value :: others)

theorem list_steady {codec : Codec α} (steady : Steady codec.decode) :
    Steady codec.list.decode :=
  nat64_steady.bind fun count => decodeMany_steady steady count

theorem array_steady {codec : Codec α} (steady : Steady codec.decode) :
    Steady codec.array.decode :=
  map_steady _ _ (list_steady steady)

theorem option_decode_other {codec : Codec α} {byte : UInt8}
    {rest : List UInt8} (notAbsent : byte ≠ 0) (notPresent : byte ≠ 1) :
    codec.option.decode (byte :: rest) = .error .badOption := by
  simp [option]

theorem option_steady {codec : Codec α} (steady : Steady codec.decode) :
    Steady codec.option.decode := by
  refine .ofByte rfl fun byte => ?_
  by_cases absent : byte = 0
  · subst absent
    exact .pure none
  · by_cases present : byte = 1
    · subst present
      exact steady.bind fun value => .pure (some value)
    · simp only [option_decode_other absent present]
      exact .fail .badOption

def decodeCase (all : List α) (number : Nat) (bytes : List UInt8) :
    Except DecodeError (α × List UInt8) :=
  (all[number]?).elim (.error .unknownCase) fun value => .ok (value, bytes)

theorem cases_decode [DecidableEq α] (all : List α) :
    (cases all).decode = fun bytes =>
      nat32.decode bytes >>= fun read => decodeCase all read.1 read.2 := by
  funext bytes
  change (nat32.decode bytes >>= _) = _
  congr 1
  funext ⟨number, rest⟩
  unfold decodeCase
  cases found : all[number]? with
  | none =>
      simp only [found]
      rfl
  | some value =>
      simp only [found]
      rfl

theorem decodeCase_steady (all : List α) (number : Nat) :
    Steady (decodeCase all number) := by
  unfold decodeCase
  cases all[number]? with
  | none =>
      exact .fail .unknownCase
  | some value =>
      exact .pure value

theorem cases_steady [DecidableEq α] (all : List α) :
    Steady (cases all).decode := by
  rw [cases_decode]
  exact nat32_steady.bind (decodeCase_steady all)

def decodeContent (length : Nat) (bytes : List UInt8) :
    Except DecodeError (String × List UInt8) :=
  if bytes.length < length then
    .error .endOfBytes
  else
    (String.fromUTF8? ⟨(bytes.take length).toArray⟩).elim
      (.error .badText) fun value => .ok (value, bytes.drop length)

theorem text_decode :
    text.decode = fun bytes =>
      nat64.decode bytes >>= fun read => decodeContent read.1 read.2 := by
  funext bytes
  change (nat64.decode bytes >>= _) = _
  congr 1
  funext ⟨length, rest⟩
  unfold decodeContent
  by_cases short : rest.length < length
  · simp only [if_pos short]
    rfl
  · simp only [if_neg short]
    cases String.fromUTF8? ⟨(rest.take length).toArray⟩ <;> rfl

/-- Whether enough bytes are left does not change when more follow, and only
the bytes of the text decide whether it is one. -/
theorem decodeContent_append {length : Nat} {bytes : List UInt8}
    (enough : length ≤ bytes.length) (more : List UInt8) :
    decodeContent length (bytes ++ more) =
      (decodeContent length bytes).map
        fun read => (read.1, read.2 ++ more) := by
  unfold decodeContent
  have stillEnough : length ≤ (bytes ++ more).length := by
    rw [List.length_append]
    omega
  rw [if_neg (Nat.not_lt.mpr enough), if_neg (Nat.not_lt.mpr stillEnough),
    List.take_append_of_le_length enough,
    List.drop_append_of_le_length enough]
  cases String.fromUTF8? ⟨(bytes.take length).toArray⟩ <;> rfl

theorem decodeContent_steady (length : Nat) :
    Steady (decodeContent length) where
  ok {bytes rest value} read more := by
    by_cases short : bytes.length < length
    · rw [decodeContent, if_pos short] at read
      cases read
    · rw [decodeContent_append (by omega), read]
      rfl
  error {bytes error} failed notEnd more := by
    by_cases short : bytes.length < length
    · rw [decodeContent, if_pos short] at failed
      cases failed
      exact absurd rfl notEnd
    · rw [decodeContent_append (by omega), failed]
      rfl

theorem text_steady : Steady text.decode := by
  rw [text_decode]
  exact nat64_steady.bind decodeContent_steady

theorem uint32_steady : Steady uint32.decode :=
  map_steady _ _ nat32_steady

theorem uint64_steady : Steady uint64.decode :=
  map_steady _ _ nat64_steady

theorem int32_steady : Steady int32.decode :=
  map_steady _ _ nat32_steady

theorem int64_steady : Steady int64.decode :=
  map_steady _ _ nat64_steady

/-! ## Readers of programs -/

theorem instruction_steady : Steady instruction.decode :=
  map_steady _ _ (pair_steady (cases_steady _) (pair_steady nat64_steady
    (pair_steady nat64_steady (pair_steady nat64_steady
      (pair_steady nat64_steady (option_steady nat64_steady))))))

theorem methodVariable_steady : Steady methodVariable.decode :=
  map_steady _ _ (pair_steady text_steady
    (pair_steady nat64_steady (cases_steady _)))

theorem method_steady : Steady method.decode :=
  map_steady _ _ (pair_steady text_steady (pair_steady nat64_steady
    (pair_steady (array_steady instruction_steady)
      (pair_steady (list_steady methodVariable_steady)
        (pair_steady (list_steady nat64_steady)
          (pair_steady nat64_steady nat64_steady))))))

def decodeConstant :
    Nat → List UInt8 → Except DecodeError (Constant × List UInt8)
  | 0, bytes =>
      int32.decode bytes >>= fun read => .ok (Constant.int read.1, read.2)
  | 1, bytes =>
      int64.decode bytes >>= fun read => .ok (Constant.long read.1, read.2)
  | 2, bytes =>
      text.decode bytes >>= fun read => .ok (Constant.string read.1, read.2)
  | _, _ => .error .unknownCase

theorem constant_decode :
    constant.decode = fun bytes =>
      nat32.decode bytes >>= fun read => decodeConstant read.1 read.2 := by
  funext bytes
  change (nat32.decode bytes >>= _) = _
  congr 1
  funext ⟨number, rest⟩
  rcases number with _ | _ | _ | number <;> rfl

theorem decodeConstant_steady (number : Nat) :
    Steady (decodeConstant number) := by
  rcases number with _ | _ | _ | number
  · exact int32_steady.bind fun value => .pure (Constant.int value)
  · exact int64_steady.bind fun value => .pure (Constant.long value)
  · exact text_steady.bind fun value => .pure (Constant.string value)
  · exact .fail .unknownCase

theorem constant_steady : Steady constant.decode := by
  rw [constant_decode]
  exact nat32_steady.bind decodeConstant_steady

theorem trigger_steady : Steady trigger.decode :=
  map_steady _ _ (pair_steady text_steady (pair_steady uint32_steady
    (pair_steady uint64_steady (pair_steady nat64_steady nat64_steady))))

theorem program_steady : Steady program.decode :=
  map_steady _ _ (pair_steady (list_steady method_steady)
    (pair_steady (list_steady constant_steady) (list_steady trigger_steady)))

end Codec

end Image

/-- Of the image of a program, no part from the front is read as a program,
and nothing is reported but that the bytes ran out. -/
theorem Program.ofImage_truncated {program : Program}
    (inWords : program.InWords) {front : List UInt8}
    (isFront : front <+: program.toImage)
    (cut : front ≠ program.toImage) :
    ofImage front = .error .endOfBytes := by
  have readWhole := Image.Codec.program_returns inWords []
  rw [List.append_nil] at readWhole
  rw [ofImage,
    Image.Codec.program_steady.eq_endOfBytes readWhole isFront cut]
  rfl

/-- The cut goes through a letter of two bytes. -/
theorem ofImage_truncated_widest :
    widestProgram.InWords ∧
      [1, 7, 103, 114, 195] <+: widestProgram.toImage ∧
      [1, 7, 103, 114, 195] ≠ widestProgram.toImage ∧
      Program.ofImage [1, 7, 103, 114, 195] = .error .endOfBytes := by
  have inWords : widestProgram.InWords := by
    decide
  have isFront : [1, 7, 103, 114, 195] <+: widestProgram.toImage := by
    decide +kernel
  have cut : [1, 7, 103, 114, 195] ≠ widestProgram.toImage := by
    decide +kernel
  exact ⟨inWords, isFront, cut,
    Program.ofImage_truncated inWords isFront cut⟩

end TriggerScript
