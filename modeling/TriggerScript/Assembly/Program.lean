import TriggerScript.Assembly.Body
import TriggerScript.Assembly.Link

/-!
# Assembling programs

First every procedure is given a method with its parameters, so that calls
may go to procedures declared further down.  Then the bodies of procedures
and triggers are assembled in order; each trigger gets a method of its own
when its turn comes.  At last all methods are laid out in one address space.
-/

namespace TriggerScript

structure Assembly where
  methods : List Method := []
  triggers : List TriggerEntry := []
  tables : Tables := {}
  deriving DecidableEq, Repr

namespace Assembly

/-- The names of the methods; their places are their numbers. -/
def methodNames (assembly : Assembly) : List String :=
  assembly.methods.map Method.name

/-- The number that the next trigger gets. -/
def triggerOrdinal (assembly : Assembly) : Nat :=
  assembly.triggers.length

def putBack (assembly : Assembly) (index : Nat) (draft : Draft) :
    Assembly :=
  { assembly with
    methods := assembly.methods.set index draft.method
    tables := draft.tables }

end Assembly

/-- The value of a filter: decimal digits that fit into 64 bits. -/
def TriggerEntry.readFilter (filter : String) :
    Except CompileError UInt64 :=
  match Text.readNat? filter.toList with
  | some value =>
      if value < UInt64.size then
        .ok (UInt64.ofNat value)
      else
        .error (.invalidFilter filter)
  | none => .error (.invalidFilter filter)

/-- Work on a program under construction, which may fail. -/
abbrev AssembleM : Type → Type :=
  EStateM CompileError Assembly

namespace AssembleM

def log (event : Event) : AssembleM Unit :=
  modify fun assembly =>
    { assembly with tables := assembly.tables.log event }

def newLabel : AssembleM Nat :=
  modifyGet fun assembly =>
    let (label, tables) := assembly.tables.newLabel
    (label, { assembly with tables })

def defineMethod (name : String) : AssembleM Nat := do
  let index := (← get).methods.length
  let entry ← newLabel
  log (.methodDefined name index)
  modify fun assembly =>
    { assembly with
      methods := assembly.methods ++ [.start name index entry] }
  return index

/-- Work on the draft of one method; there is nothing to do if no method has
that number. -/
def inMethod (index : Nat) (work : DraftM Unit) : AssembleM Unit :=
  fun assembly =>
    match assembly.methods[index]? with
    | none => .ok () assembly
    | some method =>
        match work ⟨method, assembly.tables⟩ with
        | .ok _ draft => .ok () (assembly.putBack index draft)
        | .error error draft =>
            .error error (assembly.putBack index draft)

def methodIndex? (name : String) : AssembleM (Option Nat) := do
  return (← get).methodNames.idxOf? name

/-- What bodies can refer to now. -/
def scope (catalog : Catalog) : AssembleM Scope := do
  return ⟨catalog, (← get).methodNames⟩

/-- Give a procedure its method. -/
def hoist (name : String) (params : List Param) : AssembleM Unit := do
  if (← methodIndex? name).isSome then
    throw (.duplicateProc name)
  else
    let index ← defineMethod name
    inMethod index (params.forM DraftM.declareParam)

def hoistAll : List Node → AssembleM Unit
  | [] => pure ()
  | .proc name params _ :: nodes => do
      hoist name params
      hoistAll nodes
  | _ :: nodes => hoistAll nodes

def assembleTree (catalog : Catalog) (index : Nat) (tree : Node) :
    AssembleM Unit := do
  let scope ← scope catalog
  inMethod index (tree.assemble scope)

/-- Assemble a body and leave the method behind it. -/
def assembleBody (catalog : Catalog) (index : Nat) (body : Node) :
    AssembleM Unit := do
  assembleTree catalog index body
  inMethod index (DraftM.emitWith .ret 0)

/-- What is done for a trigger before its body, with the number of its method.
The number of triggers before it keeps its method's name apart from all
others. -/
def openTrigger (catalog : Catalog) (event filter : String) :
    AssembleM Nat := do
  match catalog.listener? event with
  | none => throw (.unknownListener event)
  | some listener =>
      let value ← liftExcept (TriggerEntry.readFilter filter)
      let ordinal := (← get).triggerOrdinal
      let index ← defineMethod
        ("@" ++ event ++ "@" ++ filter ++ "@" ++ toString ordinal)
      let entry ← newLabel
      inMethod index (DraftM.emitMarker entry)
      modify fun assembly =>
        { assembly with
          triggers := assembly.triggers ++
            [⟨event, listener.id, value, entry, 0⟩] }
      log (.triggerRegistered event value index)
      return index

def assembleTrigger (catalog : Catalog) (event filter : String)
    (body : Node) : AssembleM Unit := do
  let index ← openTrigger catalog event filter
  assembleBody catalog index body

def assembleDeclaration (catalog : Catalog) : Node → AssembleM Unit
  | .trigger event filter body =>
      assembleTrigger catalog event filter body
  | .proc name _ body => do
      match ← methodIndex? name with
      | some index => assembleBody catalog index body
      | none => throw (.procWithoutMethod name)
  | node => throw (.outside node)

def assembleScript (catalog : Catalog) (nodes : List Node) :
    AssembleM Unit := do
  hoistAll nodes
  nodes.forM (assembleDeclaration catalog)

end AssembleM

namespace Program

/-- Assemble a script, and tell what was done up to the end or the error. -/
def assembleLogged (catalog : Catalog) (nodes : List Node) :
    Except CompileError Program × Array Event :=
  match AssembleM.assembleScript catalog nodes {} with
  | .ok _ assembly =>
      let (program, events) :=
        link assembly.methods assembly.triggers assembly.tables
      (.ok program, events)
  | .error error assembly => (.error error, assembly.tables.events)

def assemble (catalog : Catalog) (nodes : List Node) :
    Except CompileError Program :=
  (assembleLogged catalog nodes).1

end Program

end TriggerScript
