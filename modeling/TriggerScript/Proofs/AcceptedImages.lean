import TriggerScript.Proofs.ImageGrammar

/-!
# Accepted images

Nothing is read but what the grammar of images describes.  So the bytes that
were read for a program have a definite end, whatever stands behind it, and
the image that is written for the program is never longer.  It is the same
unless a number was spelled with needless groups.
-/

namespace TriggerScript

namespace Image

/-! ## What is read is spelled -/

/-- Whatever the codec reads is spelled in its format by the bytes in front of
what is left. -/
def Codec.Follows {α : Type} (codec : Codec α) : Prop :=
  ∀ (bytes rest : List UInt8) (value : α),
    codec.decode bytes = .ok (value, rest) →
      ∃ pieces, Spells codec value pieces ∧
        bytes = Piece.join pieces ++ rest

namespace Codec

variable {α β : Type}

theorem nat32_follows : nat32.Follows := by
  intro bytes rest value read
  obtain ⟨varint, fits, rfl, rfl⟩ := varint_of_nat32 read
  exact ⟨[.number varint], .nat32 fits, by simp [Piece.bytes]⟩

theorem nat64_follows : nat64.Follows := by
  intro bytes rest value read
  obtain ⟨varint, fits, rfl, rfl⟩ := varint_of_nat64 read
  exact ⟨[.number varint], .nat64 fits, by simp [Piece.bytes]⟩

theorem Follows.map {codec : Codec α} (follows : codec.Follows)
    {ofInner : α → β} {toInner : β → α}
    (inverse : ∀ {bytes rest : List UInt8} {value : α},
      codec.decode bytes = .ok (value, rest) →
        toInner (ofInner value) = value) :
    (codec.map ofInner toInner).Follows := by
  intro bytes rest value read
  obtain ⟨⟨inner, behind⟩, readInner, returned⟩ := exceptBind_eq_ok.mp read
  cases returned
  obtain ⟨pieces, spelled, bytesEq⟩ := follows _ _ _ readInner
  exact ⟨pieces, .map (inverse readInner) spelled, bytesEq⟩

theorem Follows.pair {first : Codec α} {second : Codec β}
    (left : first.Follows) (right : second.Follows) :
    (first.pair second).Follows := by
  intro bytes rest value read
  obtain ⟨⟨_, middle⟩, readLeft, read⟩ := exceptBind_eq_ok.mp read
  obtain ⟨⟨_, behind⟩, readRight, returned⟩ := exceptBind_eq_ok.mp read
  cases returned
  obtain ⟨leftPieces, leftSpelled, rfl⟩ := left _ _ _ readLeft
  obtain ⟨rightPieces, rightSpelled, rfl⟩ := right _ _ _ readRight
  refine ⟨leftPieces ++ rightPieces, .pair leftSpelled rightSpelled, ?_⟩
  rw [Piece.join_append, List.append_assoc]

theorem text_follows : text.Follows := by
  intro bytes rest value read
  rw [text_decode] at read
  obtain ⟨⟨length, behind⟩, readLength, readContent⟩ :=
    exceptBind_eq_ok.mp read
  obtain ⟨varint, fits, rfl, rfl⟩ := varint_of_nat64 readLength
  obtain ⟨lengthEq, rfl⟩ := decodeContent_eq_ok_iff.mp readContent
  refine ⟨_, .text fits lengthEq, ?_⟩
  rw [Piece.join_cons, Piece.join_cons, Piece.join_nil, List.append_nil,
    List.append_assoc]
  rfl

theorem items_of_decodeMany {codec : Codec α} (follows : codec.Follows)
    {count : Nat} {bytes rest : List UInt8} {values : List α}
    (read : decodeMany codec count bytes = .ok (values, rest)) :
    ∃ items : List (α × List Piece),
      items.length = count ∧ items.map Prod.fst = values ∧
        (∀ item ∈ items, Spells codec item.1 item.2) ∧
        bytes = Piece.join (items.flatMap Prod.snd) ++ rest := by
  induction count generalizing bytes values with
  | zero =>
      cases read
      exact ⟨[], rfl, rfl, by simp, rfl⟩
  | succ count inductionHypothesis =>
      obtain ⟨⟨value, middle⟩, readFirst, read⟩ := exceptBind_eq_ok.mp read
      obtain ⟨⟨others, behind⟩, readOthers, returned⟩ :=
        exceptBind_eq_ok.mp read
      cases returned
      obtain ⟨pieces, spelled, rfl⟩ := follows _ _ _ readFirst
      obtain ⟨items, counted, rfl, allSpelled, rfl⟩ :=
        inductionHypothesis readOthers
      refine ⟨(value, pieces) :: items, by rw [List.length_cons, counted],
        rfl, List.forall_mem_cons.mpr ⟨spelled, allSpelled⟩, ?_⟩
      rw [List.flatMap_cons, Piece.join_append, List.append_assoc]

theorem Follows.list {codec : Codec α} (follows : codec.Follows) :
    codec.list.Follows := by
  intro bytes rest values read
  obtain ⟨⟨count, middle⟩, readCount, readItems⟩ := exceptBind_eq_ok.mp read
  obtain ⟨varint, fits, rfl, rfl⟩ := varint_of_nat64 readCount
  obtain ⟨items, counted, rfl, allSpelled, rfl⟩ :=
    items_of_decodeMany follows readItems
  refine ⟨_, .list fits counted.symm allSpelled, ?_⟩
  rw [Piece.join_cons, List.append_assoc]
  rfl

theorem Follows.array {codec : Codec α} (follows : codec.Follows) :
    codec.array.Follows :=
  follows.list.map fun _ => rfl

theorem Follows.option {codec : Codec α} (follows : codec.Follows) :
    codec.option.Follows := by
  intro bytes rest value read
  cases bytes with
  | nil =>
      cases read
  | cons byte behind =>
      by_cases absent : byte = 0
      · subst absent
        cases read
        exact ⟨_, .none, rfl⟩
      · by_cases present : byte = 1
        · subst present
          obtain ⟨⟨inner, left⟩, readInner, returned⟩ :=
            exceptBind_eq_ok.mp read
          cases returned
          obtain ⟨pieces, spelled, rfl⟩ := follows _ _ _ readInner
          exact ⟨_, .some spelled, rfl⟩
        · rw [option_decode_other absent present] at read
          cases read

theorem cases_follows [DecidableEq α] {all : List α}
    (distinct : all.Nodup) : (cases all).Follows := by
  intro bytes rest value read
  rw [cases_decode] at read
  obtain ⟨⟨number, behind⟩, readNumber, chosen⟩ := exceptBind_eq_ok.mp read
  obtain ⟨varint, fits, rfl, rfl⟩ := varint_of_nat32 readNumber
  rw [decodeCase] at chosen
  cases found : all[varint.value]? with
  | none =>
      rw [found] at chosen
      cases chosen
  | some known =>
      rw [found] at chosen
      cases chosen
      refine ⟨_, .cases fits distinct found, ?_⟩
      rw [Piece.join_cons, Piece.join_nil, List.append_nil]
      rfl

/-! ## Machine words -/

theorem uint32_follows : uint32.Follows := by
  refine nat32_follows.map fun read => ?_
  obtain ⟨varint, fits, rfl, _⟩ := varint_of_nat32 read
  exact UInt32.toNat_ofNat_of_lt fits.2

theorem uint64_follows : uint64.Follows := by
  refine nat64_follows.map fun read => ?_
  obtain ⟨varint, fits, rfl, _⟩ := varint_of_nat64 read
  exact UInt64.toNat_ofNat_of_lt fits.2

theorem zigzag_unzigzag (number : Nat) :
    zigzag (unzigzag number) = number := by
  unfold zigzag unzigzag
  by_cases even : number % 2 = 0
  · rw [if_pos even, if_pos (by omega)]
    omega
  · rw [if_neg even, if_neg (by omega)]
    omega

theorem unzigzag_bounds {number half : Nat} (bound : number < 2 * half) :
    -half ≤ unzigzag number ∧ unzigzag number < half := by
  unfold unzigzag
  by_cases even : number % 2 = 0
  · rw [if_pos even]
    omega
  · rw [if_neg even]
    omega

theorem int32_follows : int32.Follows := by
  refine nat32_follows.map fun read => ?_
  obtain ⟨varint, fits, rfl, _⟩ := varint_of_nat32 read
  have bounds : -(2 ^ 31 : Nat) ≤ unzigzag varint.value ∧
      unzigzag varint.value < (2 ^ 31 : Nat) :=
    unzigzag_bounds fits.2
  rw [Int32.toInt_ofInt_of_le bounds.1 bounds.2, zigzag_unzigzag]

theorem int64_follows : int64.Follows := by
  refine nat64_follows.map fun read => ?_
  obtain ⟨varint, fits, rfl, _⟩ := varint_of_nat64 read
  have bounds : -(2 ^ 63 : Nat) ≤ unzigzag varint.value ∧
      unzigzag varint.value < (2 ^ 63 : Nat) :=
    unzigzag_bounds fits.2
  rw [Int64.toInt_ofInt_of_le bounds.1 bounds.2, zigzag_unzigzag]

/-! ## Programs -/

theorem instruction_follows : instruction.Follows := by
  refine Follows.map ?_ fun _ => rfl
  refine .pair (cases_follows (by decide)) ?_
  exact nat64_follows.pair (nat64_follows.pair (nat64_follows.pair
    (nat64_follows.pair nat64_follows.option)))

theorem methodVariable_follows : methodVariable.Follows := by
  refine Follows.map ?_ fun _ => rfl
  exact text_follows.pair
    (nat64_follows.pair (cases_follows (by decide)))

theorem method_follows : method.Follows := by
  refine Follows.map ?_ fun _ => rfl
  exact text_follows.pair (nat64_follows.pair
    (instruction_follows.array.pair (methodVariable_follows.list.pair
      (nat64_follows.list.pair (nat64_follows.pair nat64_follows)))))

theorem constant_follows : constant.Follows := by
  intro bytes rest value read
  rw [constant_decode] at read
  obtain ⟨⟨number, behind⟩, readNumber, chosen⟩ := exceptBind_eq_ok.mp read
  obtain ⟨varint, fits, case, rfl⟩ := varint_of_nat32 readNumber
  rcases number with _ | _ | _ | number
  · obtain ⟨_, readInner, returned⟩ := exceptBind_eq_ok.mp chosen
    cases returned
    obtain ⟨pieces, spelled, rfl⟩ := int32_follows _ _ _ readInner
    exact ⟨_, .int fits case spelled, (List.append_assoc _ _ _).symm⟩
  · obtain ⟨_, readInner, returned⟩ := exceptBind_eq_ok.mp chosen
    cases returned
    obtain ⟨pieces, spelled, rfl⟩ := int64_follows _ _ _ readInner
    exact ⟨_, .long fits case spelled, (List.append_assoc _ _ _).symm⟩
  · obtain ⟨_, readInner, returned⟩ := exceptBind_eq_ok.mp chosen
    cases returned
    obtain ⟨pieces, spelled, rfl⟩ := text_follows _ _ _ readInner
    exact ⟨_, .string fits case spelled, (List.append_assoc _ _ _).symm⟩
  · cases chosen

theorem trigger_follows : trigger.Follows := by
  refine Follows.map ?_ fun _ => rfl
  exact text_follows.pair (uint32_follows.pair (uint64_follows.pair
    (nat64_follows.pair nat64_follows)))

theorem program_follows : program.Follows := by
  refine Follows.map ?_ fun _ => rfl
  exact method_follows.list.pair
    (constant_follows.list.pair trigger_follows.list)

end Codec

end Image

/-! ## The end of an image -/

namespace Program

/-- The program ends after so many bytes: they are read as the program with
anything behind them, and no smaller part from the front is read at all. -/
structure EndsAt (program : Program) (bytes : List UInt8) (length : Nat) :
    Prop where
  within : length ≤ bytes.length
  accepted : ∀ rest, ofImage (bytes.take length ++ rest) = .ok program
  needed : ∀ front, front <+: bytes.take length →
    front ≠ bytes.take length → ∃ error, ofImage front = .error error

/-- The pieces spell the program and make up the bytes. -/
def SpelledBy (program : Program) (pieces : List Image.Piece)
    (bytes : List UInt8) : Prop :=
  Image.Spells Image.Codec.program program pieces ∧
    Image.Piece.join pieces = bytes

variable {program : Program} {bytes : List UInt8}

theorem EndsAt.le {length other : Nat}
    (ends : program.EndsAt bytes length)
    (endsOther : program.EndsAt bytes other) : length ≤ other := by
  by_contra before
  have isFront : bytes.take other <+: bytes.take length :=
    List.take_prefix_take_left (by omega)
  have shorter : bytes.take other ≠ bytes.take length := by
    intro same
    have lengths := congrArg List.length same
    rw [List.length_take, List.length_take] at lengths
    have := ends.within
    omega
  obtain ⟨error, refused⟩ := ends.needed _ isFront shorter
  have read := endsOther.accepted []
  rw [List.append_nil, refused] at read
  cases read

theorem SpelledBy.endsAt {pieces : List Image.Piece} {length : Nat}
    (within : length ≤ bytes.length)
    (spelled : program.SpelledBy pieces (bytes.take length)) :
    program.EndsAt bytes length where
  within := within
  accepted rest := by
    rw [← spelled.2, ofImage, spelled.1.decode rest]
    rfl
  needed front isFront cut := by
    have readWhole := spelled.1.decode []
    rw [List.append_nil, spelled.2] at readWhole
    refine ⟨.endOfBytes, ?_⟩
    rw [ofImage,
      Image.Codec.program_steady.eq_endOfBytes readWhole isFront cut]
    rfl

theorem exists_spelledBy (accepted : ofImage bytes = .ok program) :
    ∃ length pieces, length ≤ bytes.length ∧
      program.SpelledBy pieces (bytes.take length) := by
  cases read : Image.Codec.program.decode bytes with
  | error error =>
      rw [ofImage, read] at accepted
      cases accepted
  | ok found =>
      rw [ofImage, read] at accepted
      cases accepted
      obtain ⟨pieces, spelled, rfl⟩ :=
        Image.Codec.program_follows _ _ _ read
      refine ⟨(Image.Piece.join pieces).length, pieces, ?_, spelled, ?_⟩
      · rw [List.length_append]
        exact Nat.le_add_right _ _
      · rw [List.take_left]

/-- A program that is read ends after a definite number of bytes.  What is
written for it is no longer, and is the same exactly if no number among those
bytes is overlong. -/
theorem exists_unique_end (accepted : ofImage bytes = .ok program) :
    ∃ length, program.EndsAt bytes length ∧
      (∀ other, program.EndsAt bytes other → other = length) ∧
      program.toImage.length ≤ length ∧
      (∃ pieces, program.SpelledBy pieces (bytes.take length)) ∧
      ∀ pieces, program.SpelledBy pieces (bytes.take length) →
        (program.toImage = bytes.take length ↔
          ∀ piece ∈ pieces, ¬ piece.IsOverlong) := by
  obtain ⟨length, pieces, within, spelled⟩ := exists_spelledBy accepted
  have ends := SpelledBy.endsAt within spelled
  refine ⟨length, ends, ?_, ?_, ⟨pieces, spelled⟩, ?_⟩
  · intro other endsOther
    exact Nat.le_antisymm (endsOther.le ends) (ends.le endsOther)
  · have shorter := (Image.Piece.joinShortest_spec pieces).1
    rw [← spelled.1.encode_eq, spelled.2, List.length_take,
      Nat.min_eq_left within] at shorter
    exact shorter
  · rintro others ⟨spelledOthers, joined⟩
    rw [toImage, spelledOthers.encode_eq, ← joined]
    exact (Image.Piece.joinShortest_spec others).2

/-- A method that leaves at once, and a constant. -/
def leavingProgram : Program where
  methods := [⟨"f", 0, #[{ opcode := .ret }], [], [], 0, 0⟩]
  constants := [.int (-1)]
  triggers := []

/-- The number of methods and the constant are spelled with a needless group,
and a byte stands behind the program. -/
def leavingBytes : List UInt8 :=
  [129, 0, 1, 102, 0, 1, 4, 0, 0, 0, 0, 0, 0, 0, 0, 0, 1, 0, 129, 0, 0, 255]

theorem exists_unique_end_overlong :
    ofImage leavingBytes = .ok leavingProgram ∧
      leavingProgram.EndsAt leavingBytes 21 ∧
      leavingProgram.toImage.length = 19 ∧
      ∃ pieces, leavingProgram.SpelledBy pieces (leavingBytes.take 21) ∧
        ∃ piece ∈ pieces, piece.IsOverlong := by
  have accepted : ofImage leavingBytes = .ok leavingProgram := by
    decide +kernel
  have acceptedFront : ofImage (leavingBytes.take 21) =
      .ok leavingProgram := by
    decide +kernel
  have refused : ∀ front, front < 21 →
      ofImage (leavingBytes.take front) ≠ .ok leavingProgram := by
    decide +kernel
  obtain ⟨length, ends, _, _, ⟨pieces, spelled⟩, shortest⟩ :=
    exists_unique_end accepted
  have within : length ≤ 22 := ends.within
  obtain rfl : length = 21 := by
    by_contra different
    rcases Nat.lt_or_gt_of_ne different with shorter | longer
    · exact refused length shorter (by simpa using ends.accepted [])
    · obtain rfl : length = 22 := by omega
      obtain ⟨error, failed⟩ := ends.needed (leavingBytes.take 21)
        (List.take_prefix_take_left (by decide)) (by decide)
      rw [acceptedFront] at failed
      cases failed
  refine ⟨accepted, ends, by decide +kernel, pieces, spelled, ?_⟩
  by_contra none
  have same := (shortest pieces spelled).mpr fun piece member overlong =>
    none ⟨piece, member, overlong⟩
  have differs : leavingProgram.toImage ≠ leavingBytes.take 21 := by
    decide +kernel
  exact differs same

end Program

end TriggerScript
