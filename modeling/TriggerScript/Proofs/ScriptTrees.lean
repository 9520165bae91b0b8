import TriggerScript.Proofs.ScriptRecords

/-!
# Where trees stand in assembled scripts

A script that can be assembled has its procedures and triggers at the top and
nowhere else, and nothing else stands at the top.  So every other tree stands
in the body of a declaration, and the code of every body stands in a method.
-/

namespace TriggerScript

namespace Node

def body? : Node → Option Node
  | trigger _ _ body => some body
  | proc _ _ body => some body
  | _ => none

theorem subtrees_of_body? {node body : Node}
    (declares : node.body? = some body) :
    node.subtrees = node :: body.subtrees := by
  cases node with
  | trigger | proc =>
      cases declares
      rw [subtrees]
  | block | declare | assign | branch | call | literal | compare | var =>
      cases declares

end Node

/-- Code is emitted for trees without declarations in them. -/
theorem Emits.body?_eq_none {bindings : Bindings} {nodes : List Node}
    {first last : Nat} {code : List Symbol}
    (emitted : Emits bindings nodes first code last) :
    ∀ tree ∈ Node.allSubtrees nodes, tree.body? = none := by
  induction emitted with
  | nil label =>
      simp [Node.allSubtrees]
  | cons _ _ head tail =>
      rw [Node.allSubtrees_singleton] at head
      rw [Node.allSubtrees]
      exact List.forall_mem_append.mpr ⟨head, tail⟩
  | block _ statements =>
      rw [Node.allSubtrees_singleton, Node.subtrees]
      exact List.forall_mem_cons.mpr ⟨rfl, statements⟩
  | declare type name label =>
      rw [Node.allSubtrees_singleton, Node.subtrees, Node.optionalSubtrees]
      exact List.forall_mem_singleton.mpr rfl
  | define _ _ _ value =>
      rw [Node.allSubtrees_singleton] at value ⊢
      rw [Node.subtrees, Node.optionalSubtrees]
      exact List.forall_mem_cons.mpr ⟨rfl, value⟩
  | assign _ _ value =>
      rw [Node.allSubtrees_singleton] at value ⊢
      rw [Node.subtrees]
      exact List.forall_mem_cons.mpr ⟨rfl, value⟩
  | call _ _ _ arguments =>
      rw [Node.allSubtrees_singleton, Node.subtrees]
      exact List.forall_mem_cons.mpr ⟨rfl, arguments⟩
  | literal label _ =>
      rw [Node.allSubtrees_singleton, Node.subtrees]
      exact List.forall_mem_singleton.mpr rfl
  | var label _ =>
      rw [Node.allSubtrees_singleton, Node.subtrees]
      exact List.forall_mem_singleton.mpr rfl
  | equal _ _ left right =>
      rw [Node.allSubtrees_singleton] at left right ⊢
      rw [Node.subtrees]
      exact List.forall_mem_cons.mpr
        ⟨rfl, List.forall_mem_append.mpr ⟨left, right⟩⟩
  | branch _ _ _ test positive negative =>
      rw [Node.allSubtrees_singleton] at test positive ⊢
      rw [Node.allSubtrees_toList] at negative
      rw [Node.subtrees]
      exact List.forall_mem_cons.mpr ⟨rfl,
        List.forall_mem_append.mpr ⟨test,
          List.forall_mem_append.mpr ⟨positive, negative⟩⟩⟩

/-! ## The top of a script -/

namespace Declaration

/-- The body of every declaration at the top is assembled. -/
theorem exists_mem_all {nodes : List Node} {node body : Node}
    (member : node ∈ nodes) (declares : node.body? = some body) :
    ∃ declaration ∈ all nodes, declaration.body = body := by
  suffices found : ∀ ordinal, ∃ declaration ∈
      procs nodes ++ triggers ordinal nodes, declaration.body = body from
    found 0
  intro ordinal
  induction nodes generalizing ordinal with
  | nil =>
      cases member
  | cons other rest inductionHypothesis =>
      rcases List.mem_cons.mp member with rfl | later
      · cases node with
        | proc name params inner =>
            cases declares
            exact ⟨_, List.mem_append_left _ List.mem_cons_self, rfl⟩
        | trigger event filter inner =>
            cases declares
            exact ⟨_, List.mem_append_right _ List.mem_cons_self, rfl⟩
        | block | declare | assign | branch | call | literal | compare
        | var =>
            cases declares
      · cases other with
        | proc name params inner =>
            obtain ⟨declaration, found, bodyEq⟩ :=
              inductionHypothesis later ordinal
            exact ⟨declaration, List.mem_cons_of_mem _ found, bodyEq⟩
        | trigger event filter inner =>
            obtain ⟨declaration, found, bodyEq⟩ :=
              inductionHypothesis later (ordinal + 1)
            refine ⟨declaration, ?_, bodyEq⟩
            rcases List.mem_append.mp found with isProc | isTrigger
            · exact List.mem_append_left _ isProc
            · exact List.mem_append_right _
                (List.mem_cons_of_mem _ isTrigger)
        | block | declare | assign | branch | call | literal | compare
        | var =>
            exact inductionHypothesis later ordinal

end Declaration

/-- Every tree at the top is a declaration, and its body has code. -/
def Script.HasCode (nodes : List Node) : Prop :=
  ∀ node ∈ nodes, ∃ body bindings first code last,
    node.body? = some body ∧ Emits bindings [body] first code last

theorem AssembleM.exists_body? {catalog : Catalog} {nodes : List Node}
    {before after : Assembly}
    (run : nodes.forM (assembleDeclaration catalog) before =
      .ok () after) :
    ∀ node ∈ nodes, ∃ body, node.body? = some body := by
  induction nodes generalizing before with
  | nil =>
      simp
  | cons node rest inductionHypothesis =>
      obtain ⟨_, middle, nodeRun, restRun⟩ := bind_eq_ok.mp run
      refine List.forall_mem_cons.mpr ⟨?_, inductionHypothesis restRun⟩
      cases node with
      | trigger event filter body =>
          exact ⟨body, rfl⟩
      | proc name params body =>
          exact ⟨body, rfl⟩
      | block | declare | assign | branch | call | literal | compare
      | var =>
          exact absurd nodeRun throw_ne_ok

/-- The code of every declaration stands in a method. -/
theorem Linked.exists_emits {catalog : Catalog} {nodes : List Node}
    {program : Program} {procs triggers : List Piece}
    {addressOf : Nat → Nat}
    (linked : Linked catalog nodes program procs triggers addressOf)
    {declaration : Declaration}
    (member : declaration ∈ Declaration.all nodes) :
    ∃ method ∈ program.methods, ∃ base body first last,
      Emits (program.bindings catalog method) [declaration.body]
          first body last ∧
        (Instruction.place base
          (body.map (Symbol.resolve addressOf))).1 ⊆ method.code := by
  have pairs : List.Forall₂
      (fun (declaration : Declaration) (method : Method) =>
        method ∈ program.methods ∧ ∃ base body first last,
          Emits (program.bindings catalog method) [declaration.body]
              first body last ∧
            (Instruction.place base
              (body.map (Symbol.resolve addressOf))).1 ⊆ method.code)
      (Declaration.all nodes) program.methods := by
    apply linked.forall₂
    intro piece method base inProgram becomes
    obtain ⟨body, first, last, emitted, codeEq, _⟩ := becomes.method_code
    refine ⟨inProgram, base, body, first, last, emitted, ?_⟩
    rw [codeEq]
    exact fun instruction inBody =>
      List.mem_append_left _ (List.mem_append_right _ inBody)
  obtain ⟨index, bound, rfl⟩ := List.mem_iff_getElem.mp member
  have methodBound := pairs.length_eq ▸ bound
  exact ⟨_, pairs.get bound methodBound⟩

namespace Program

variable {catalog : Catalog} {nodes : List Node} {program : Program}

theorem assemble_hasCode (assembled : assemble catalog nodes = .ok program) :
    Script.HasCode nodes := by
  obtain ⟨assembly, run, _⟩ := assemble_eq_ok assembled
  obtain ⟨_, middle, _, assembling⟩ := bind_eq_ok.mp run
  obtain ⟨procs, triggers, addressOf, linked⟩ := assemble_linked assembled
  intro node member
  obtain ⟨body, declares⟩ := AssembleM.exists_body? assembling node member
  obtain ⟨declaration, declared, rfl⟩ :=
    Declaration.exists_mem_all member declares
  obtain ⟨method, _, base, code, first, last, emitted, _⟩ :=
    linked.exists_emits declared
  exact ⟨_, _, first, code, last, declares, emitted⟩

end Program

namespace Script.HasCode

variable {nodes : List Node}

/-- Trees other than declarations stand in the bodies of declarations. -/
theorem exists_declaration (hasCode : HasCode nodes) {tree : Node}
    (member : tree ∈ Node.allSubtrees nodes) (undeclared : tree.body? = none) :
    ∃ declaration ∈ Declaration.all nodes,
      tree ∈ declaration.body.subtrees := by
  rw [Node.allSubtrees_eq_flatMap] at member
  obtain ⟨node, inNodes, inNode⟩ := List.mem_flatMap.mp member
  obtain ⟨body, _, _, _, _, declares, _⟩ := hasCode node inNodes
  obtain ⟨declaration, declared, rfl⟩ :=
    Declaration.exists_mem_all inNodes declares
  rw [Node.subtrees_of_body? declares] at inNode
  rcases List.mem_cons.mp inNode with rfl | inBody
  · rw [declares] at undeclared
    cases undeclared
  · exact ⟨declaration, declared, inBody⟩

end Script.HasCode

end TriggerScript
