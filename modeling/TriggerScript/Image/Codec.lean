/-!
# Byte codecs

A codec writes a value as bytes and reads it back from the front of a list of
bytes, returning what is left.  Codecs are put together from smaller ones, so
writing and reading always follow one description.

* Natural numbers are written in groups of seven bits, lowest group first;
  the high bit of a byte says that another group follows.
* Signed numbers alternate around zero before they are written: `0`, `-1`,
  `1`, `-2`, and so on.
* Lists and texts start with their length, and the cases of a type with their
  number.
-/

namespace TriggerScript.Image

inductive DecodeError where
  | endOfBytes
  | badNumber
  | badText
  | badOption
  | unknownCase
  deriving DecidableEq, Repr

def DecodeError.message : DecodeError → String
  | endOfBytes => "Hit the end of buffer, expected more data"
  | badNumber =>
      "Found a varint that didn't terminate. " ++
        "Is the usize too big for this platform?"
  | badText => "Tried to parse invalid utf-8"
  | badOption => "Found an Option discriminant that wasn't 0 or 1"
  | unknownCase => "Serde Deserialization Error"

structure Codec (α : Type) where
  encode : α → List UInt8
  /-- The value at the front of some bytes, and the bytes behind it. -/
  decode : List UInt8 → Except DecodeError (α × List UInt8)

/-- Write a number in groups of seven bits. -/
def encodeNat (number : Nat) : List UInt8 :=
  if number < 128 then
    [number.toUInt8]
  else
    (number % 128 + 128).toUInt8 :: encodeNat (number / 128)
termination_by number
decreasing_by omega

/-- Read a number in groups of seven bits.  At most `more` groups follow the
first, and a group in the last place is at most `top`. -/
def decodeNat (top : Nat) :
    (more : Nat) → List UInt8 → Except DecodeError (Nat × List UInt8)
  | _, [] => .error .endOfBytes
  | 0, byte :: rest =>
      if byte.toNat ≤ top then
        .ok (byte.toNat, rest)
      else
        .error .badNumber
  | more + 1, byte :: rest =>
      if byte.toNat < 128 then
        .ok (byte.toNat, rest)
      else do
        let (high, last) ← decodeNat top more rest
        return (byte.toNat - 128 + 128 * high, last)

/-- Zero and the positive numbers go to the even numbers, the negative ones
to the odd numbers. -/
def zigzag (number : Int) : Nat :=
  if 0 ≤ number then (2 * number).toNat else (-2 * number - 1).toNat

/-- The number that `zigzag` takes to a given one. -/
def unzigzag (number : Nat) : Int :=
  if number % 2 = 0 then
    (number / 2 : Nat)
  else
    -((number / 2 : Nat) : Int) - 1

namespace Codec

/-- Read and write one type in place of another. -/
def map {α β : Type} (codec : Codec α) (ofInner : α → β)
    (toInner : β → α) : Codec β where
  encode value := codec.encode (toInner value)
  decode bytes := do
    let (value, rest) ← codec.decode bytes
    return (ofInner value, rest)

/-- One value after another. -/
def pair {α β : Type} (first : Codec α) (second : Codec β) :
    Codec (α × β) where
  encode value := first.encode value.1 ++ second.encode value.2
  decode bytes := do
    let (left, rest) ← first.decode bytes
    let (right, last) ← second.decode rest
    return ((left, right), last)

def nat32 : Codec Nat where
  encode := encodeNat
  decode := decodeNat 15 4

def nat64 : Codec Nat where
  encode := encodeNat
  decode := decodeNat 1 9

def uint32 : Codec UInt32 :=
  nat32.map UInt32.ofNat UInt32.toNat

def uint64 : Codec UInt64 :=
  nat64.map UInt64.ofNat UInt64.toNat

def int32 : Codec Int32 :=
  nat32.map (fun number => Int32.ofInt (unzigzag number))
    (fun value => zigzag value.toInt)

def int64 : Codec Int64 :=
  nat64.map (fun number => Int64.ofInt (unzigzag number))
    (fun value => zigzag value.toInt)

/-- A text, as the number of its bytes in UTF-8 and these bytes. -/
def text : Codec String where
  encode value :=
    let bytes := value.toUTF8.data.toList
    nat64.encode bytes.length ++ bytes
  decode bytes := do
    let (length, rest) ← nat64.decode bytes
    if rest.length < length then
      throw .endOfBytes
    else
      match String.fromUTF8? ⟨(rest.take length).toArray⟩ with
      | some value => return (value, rest.drop length)
      | none => throw .badText

def decodeMany {α : Type} (codec : Codec α) :
    (count : Nat) → List UInt8 →
      Except DecodeError (List α × List UInt8)
  | 0, bytes => .ok ([], bytes)
  | count + 1, bytes => do
      let (first, rest) ← codec.decode bytes
      let (others, last) ← decodeMany codec count rest
      return (first :: others, last)

/-- Values behind their number. -/
def list {α : Type} (codec : Codec α) : Codec (List α) where
  encode values :=
    nat64.encode values.length ++ values.flatMap codec.encode
  decode bytes := do
    let (count, rest) ← nat64.decode bytes
    decodeMany codec count rest

def array {α : Type} (codec : Codec α) : Codec (Array α) :=
  codec.list.map List.toArray Array.toList

def option {α : Type} (codec : Codec α) : Codec (Option α) where
  encode
    | none => [0]
    | some value => 1 :: codec.encode value
  decode
    | [] => .error .endOfBytes
    | 0 :: rest => .ok (none, rest)
    | 1 :: rest => do
        let (value, last) ← codec.decode rest
        return (some value, last)
    | _ :: _ => .error .badOption

/-- The cases of a type without further data, by their place in a list. -/
def cases {α : Type} [DecidableEq α] (all : List α) : Codec α where
  encode value := nat32.encode (all.idxOf value)
  decode bytes := do
    let (number, rest) ← nat32.decode bytes
    match all[number]? with
    | some value => return (value, rest)
    | none => throw .unknownCase

end Codec

end TriggerScript.Image
