import TriggerScript.Image.Codec
import TriggerScript.Program.Basic

/-!
# Program images

The image of a program is its fields one after another, in the order of their
declaration and without names.  Bytes behind a whole image are ignored.
-/

namespace TriggerScript

namespace Image.Codec

def opcode : Codec Opcode :=
  cases Opcode.all

def valueType : Codec ValueType :=
  cases [.int, .long, .string, .bool, .void]

def instruction : Codec Instruction :=
  (opcode.pair (nat64.pair (nat64.pair (nat64.pair
    (nat64.pair (option nat64)))))).map
    (fun (opcode, i, l, s, address, label?) =>
      ⟨opcode, i, l, s, address, label?⟩)
    (fun value =>
      (value.opcode, value.i, value.l, value.s, value.address,
        value.label?))

def methodVariable : Codec Variable :=
  (text.pair (nat64.pair valueType)).map
    (fun (name, index, type) => ⟨name, index, type⟩)
    (fun value => (value.name, value.index, value.type))

def method : Codec Method :=
  (text.pair (nat64.pair ((array instruction).pair ((list methodVariable).pair
    ((list nat64).pair (nat64.pair nat64)))))).map
    (fun (name, index, instructions, locals, params, entry, address) =>
      ⟨name, index, instructions, locals, params, entry, address⟩)
    (fun value =>
      (value.name, value.index, value.instructions, value.locals,
        value.params, value.entry, value.address))

/-- A constant is the number of its case and its value. -/
def constant : Codec Constant where
  encode
    | .int value => nat32.encode 0 ++ int32.encode value
    | .long value => nat32.encode 1 ++ int64.encode value
    | .string value => nat32.encode 2 ++ text.encode value
  decode bytes := do
    let (case, rest) ← nat32.decode bytes
    match case with
    | 0 =>
        let (value, last) ← int32.decode rest
        return (.int value, last)
    | 1 =>
        let (value, last) ← int64.decode rest
        return (.long value, last)
    | 2 =>
        let (value, last) ← text.decode rest
        return (.string value, last)
    | _ => throw .unknownCase

def trigger : Codec TriggerEntry :=
  (text.pair (uint32.pair (uint64.pair (nat64.pair nat64)))).map
    (fun (event, listenerId, filter, entry, address) =>
      ⟨event, listenerId, filter, entry, address⟩)
    (fun value =>
      (value.event, value.listenerId, value.filter, value.entry,
        value.address))

def program : Codec Program :=
  ((list method).pair ((list constant).pair (list trigger))).map
    (fun (methods, constants, triggers) => ⟨methods, constants, triggers⟩)
    (fun value => (value.methods, value.constants, value.triggers))

end Image.Codec

namespace Program

def toImage (program : Program) : List UInt8 :=
  Image.Codec.program.encode program

def ofImage (bytes : List UInt8) : Except Image.DecodeError Program :=
  (Image.Codec.program.decode bytes).map Prod.fst

end Program

end TriggerScript
