import Mathlib.Data.List.Basic
import TriggerScript.Proofs.ParserCompleteness

/-!
# The language of the parser

Parsing succeeds exactly on the tokens that derive a program.  The grammar
gives some programs several trees, since an `else` behind two open `if`s may
belong to either.  Moving every `else` to the nearest `if` turns any
derivation into one whose tree `Node.NearestElse` accepts, and that tree is
the one parsing returns.
-/

namespace TriggerScript

namespace Grammar

/-! ## The end marker -/

abbrev EndFree (tokens : List Token) : Prop :=
  tokens.Forall fun token => token.kind ≠ .eof

mutual

theorem Primary.endFree {tokens : List Token} {node : Node} :
    Primary tokens node → EndFree tokens
  | .integer kindEq _ _ => by
      simp [kindEq]
  | .string kindEq => by
      simp [kindEq]
  | .bool kindEq => by
      simp [kindEq]
  | .var kindEq => by
      simp [kindEq]
  | .call called =>
      called.endFree
  | .group openedKind inner closeKind => by
      simp [openedKind, inner.endFree, closeKind]

theorem Expression.endFree {tokens : List Token} {node : Node} :
    Expression tokens node → EndFree tokens
  | .primary only =>
      only.endFree
  | @Expression.compare sign _ _ _ _ left signKind right => by
      have notEnd : sign.kind ≠ .eof := by
        intro ends
        rw [ends] at signKind
        cases signKind
      simp [left.endFree, notEnd, right.endFree]

theorem Call.endFree {tokens : List Token} {node : Node} :
    Call tokens node → EndFree tokens
  | .empty nameKind openedKind closeKind => by
      simp [nameKind, openedKind, closeKind]
  | .filled nameKind openedKind args closeKind => by
      simp [nameKind, openedKind, args.endFree, closeKind]

theorem Arguments.endFree {tokens : List Token} {nodes : List Node} :
    Arguments tokens nodes → EndFree tokens
  | .single only =>
      only.endFree
  | .cons head commaKind others => by
      simp [head.endFree, commaKind, others.endFree]

end

mutual

theorem Statement.endFree {tokens : List Token} {node : Node} :
    Statement tokens node → EndFree tokens
  | .block inner =>
      inner.endFree
  | .ifThen wordKind openedKind tested closeKind taken => by
      simp [wordKind, openedKind, tested.endFree, closeKind, taken.endFree]
  | .ifElse wordKind openedKind tested closeKind taken otherKind missed => by
      simp [wordKind, openedKind, tested.endFree, closeKind, taken.endFree,
        otherKind, missed.endFree]
  | .declare typeKind nameKind closeKind => by
      simp [typeKind, nameKind, closeKind]
  | .declareWith typeKind nameKind signKind value closeKind => by
      simp [typeKind, nameKind, signKind, value.endFree, closeKind]
  | .assign nameKind signKind value closeKind => by
      simp [nameKind, signKind, value.endFree, closeKind]
  | .call called closeKind => by
      simp [called.endFree, closeKind]

theorem Block.endFree {tokens : List Token} {node : Node} :
    Block tokens node → EndFree tokens
  | .braces openedKind inner closeKind => by
      simp [openedKind, inner.endFree, closeKind]

theorem Statements.endFree {tokens : List Token} {nodes : List Node} :
    Statements tokens nodes → EndFree tokens
  | .nil => by
      simp
  | .cons head others => by
      simp [head.endFree, others.endFree]

end

theorem Trigger.endFree {tokens : List Token} {node : Node}
    (derived : Trigger tokens node) : EndFree tokens := by
  cases derived with
  | on wordKind eventKind openedKind filterKind closeKind body =>
      simp [wordKind, eventKind, openedKind, filterKind, closeKind,
        body.endFree]

theorem Parameters.endFree {tokens : List Token} {params : List Param}
    (derived : Parameters tokens params) : EndFree tokens := by
  induction derived with
  | single typeKind nameKind =>
      simp [typeKind, nameKind]
  | cons typeKind nameKind commaKind others inductionHypothesis =>
      simp [typeKind, nameKind, commaKind, inductionHypothesis]

theorem Proc.endFree {tokens : List Token} {node : Node}
    (derived : Proc tokens node) : EndFree tokens := by
  cases derived with
  | empty wordKind nameKind openedKind closeKind body =>
      simp [wordKind, nameKind, openedKind, closeKind, body.endFree]
  | filled wordKind nameKind openedKind heading closeKind body =>
      simp [wordKind, nameKind, openedKind, heading.endFree, closeKind,
        body.endFree]

theorem Program.endFree {tokens : List Token} {nodes : List Node}
    (derived : Program tokens nodes) : EndFree tokens := by
  induction derived with
  | nil =>
      simp
  | trigger head others inductionHypothesis =>
      simp [head.endFree, inductionHypothesis]
  | proc head others inductionHypothesis =>
      simp [head.endFree, inductionHypothesis]

/-! ## Moving an `else` to the nearest `if` -/

/-- An `else` behind a statement that ends in an open `if` becomes part of
that statement. -/
theorem Statement.attach {other : Token} {missed : List Token}
    {elseBranch : Node} (otherKind : other.kind = .keyElse)
    (elseDerived : Statement missed elseBranch)
    (elseNearest : elseBranch.NearestElse) {taken : List Token}
    {thenBranch : Node} :
    Statement taken thenBranch → thenBranch.NearestElse →
      thenBranch.endsOpen = true →
      ∃ node, Statement (taken ++ other :: missed) node ∧ node.NearestElse
  | .block (.braces _ _ _), _, isOpen => by
      cases isOpen
  | @Statement.ifThen _ _ _ _ _ condition inner wordKind openedKind tested
      closeKind body, nearest, _ => by
      by_cases innerOpen : inner.endsOpen = true
      · obtain ⟨attached, derived, attachedNearest⟩ :=
          Statement.attach otherKind elseDerived elseNearest body nearest
            innerOpen
        have whole := Statement.ifThen wordKind openedKind tested closeKind
          derived
        refine ⟨.branch condition attached none, ?_, attachedNearest⟩
        simpa using whole
      · have whole := Statement.ifElse wordKind openedKind tested closeKind
          body otherKind elseDerived
        refine ⟨.branch condition inner (some elseBranch), ?_,
          by simpa using innerOpen, nearest, elseNearest⟩
        simpa using whole
  | @Statement.ifElse _ _ _ _ _ _ _ condition inner last wordKind openedKind
      tested closeKind body innerKind lastDerived, nearest, isOpen => by
      obtain ⟨innerClosed, innerNearest, lastNearest⟩ := nearest
      obtain ⟨attached, derived, attachedNearest⟩ :=
        Statement.attach otherKind elseDerived elseNearest lastDerived
          lastNearest isOpen
      have whole := Statement.ifElse wordKind openedKind tested closeKind
        body innerKind derived
      refine ⟨.branch condition inner (some attached), ?_, innerClosed,
        innerNearest, attachedNearest⟩
      simpa using whole
  | .declare _ _ _, _, isOpen => by
      cases isOpen
  | .declareWith _ _ _ _ _, _, isOpen => by
      cases isOpen
  | .assign _ _ _ _, _, isOpen => by
      cases isOpen
  | .call called _, _, isOpen => by
      obtain ⟨name, args, rfl⟩ := called.exists_eq
      cases isOpen

mutual

theorem Statement.exists_nearest {tokens : List Token} {node : Node} :
    Statement tokens node →
      ∃ nearest, Statement tokens nearest ∧ nearest.NearestElse
  | .block inner => by
      obtain ⟨nearest, derived, isNearest⟩ := inner.exists_nearest
      exact ⟨nearest, .block derived, isNearest⟩
  | .ifThen wordKind openedKind tested closeKind taken => by
      obtain ⟨nearest, derived, isNearest⟩ := taken.exists_nearest
      exact ⟨_, .ifThen wordKind openedKind tested closeKind derived,
        isNearest⟩
  | .ifElse wordKind openedKind tested closeKind taken otherKind missed => by
      obtain ⟨thenBranch, thenDerived, thenNearest⟩ := taken.exists_nearest
      obtain ⟨elseBranch, elseDerived, elseNearest⟩ := missed.exists_nearest
      by_cases thenOpen : thenBranch.endsOpen = true
      -- The `else` moves inwards, and the outer `if` is left without one.
      · obtain ⟨attached, derived, isNearest⟩ :=
          Statement.attach otherKind elseDerived elseNearest thenDerived
            thenNearest thenOpen
        exact ⟨_, .ifThen wordKind openedKind tested closeKind derived,
          isNearest⟩
      · refine ⟨_, .ifElse wordKind openedKind tested closeKind thenDerived
          otherKind elseDerived, ?_, thenNearest, elseNearest⟩
        simpa using thenOpen
  | .declare typeKind nameKind closeKind =>
      ⟨_, .declare typeKind nameKind closeKind, trivial⟩
  | .declareWith typeKind nameKind signKind value closeKind =>
      ⟨_, .declareWith typeKind nameKind signKind value closeKind, trivial⟩
  | .assign nameKind signKind value closeKind =>
      ⟨_, .assign nameKind signKind value closeKind, trivial⟩
  | .call called closeKind => by
      obtain ⟨name, args, rfl⟩ := called.exists_eq
      exact ⟨_, .call called closeKind, trivial⟩

theorem Block.exists_nearest {tokens : List Token} {node : Node} :
    Block tokens node →
      ∃ nearest, Block tokens nearest ∧ nearest.NearestElse
  | .braces openedKind inner closeKind => by
      obtain ⟨nearest, derived, areNearest⟩ := inner.exists_nearest
      exact ⟨.block nearest, .braces openedKind derived closeKind,
        areNearest⟩

theorem Statements.exists_nearest {tokens : List Token}
    {nodes : List Node} :
    Statements tokens nodes →
      ∃ nearest, Statements tokens nearest ∧ Node.AllNearestElse nearest
  | .nil =>
      ⟨[], .nil, trivial⟩
  | .cons head others => by
      obtain ⟨nearest, derived, isNearest⟩ := head.exists_nearest
      obtain ⟨more, derivedMore, areNearest⟩ := others.exists_nearest
      exact ⟨nearest :: more, .cons derived derivedMore, isNearest,
        areNearest⟩

end

theorem Program.exists_nearest {tokens : List Token} {nodes : List Node}
    (derived : Program tokens nodes) :
    ∃ nearest, Program tokens nearest ∧
      ∀ node ∈ nearest, node.NearestElse := by
  induction derived with
  | nil =>
      exact ⟨[], .nil, by simp⟩
  | trigger head others inductionHypothesis =>
      obtain ⟨more, derivedMore, areNearest⟩ := inductionHypothesis
      cases head with
      | on wordKind eventKind openedKind filterKind closeKind body =>
          obtain ⟨nearest, derived, isNearest⟩ := body.exists_nearest
          have first := Trigger.on wordKind eventKind openedKind filterKind
            closeKind derived
          exact ⟨_, .trigger first derivedMore,
            List.forall_mem_cons.mpr ⟨isNearest, areNearest⟩⟩
  | proc head others inductionHypothesis =>
      obtain ⟨more, derivedMore, areNearest⟩ := inductionHypothesis
      cases head with
      | empty wordKind nameKind openedKind closeKind body =>
          obtain ⟨nearest, derived, isNearest⟩ := body.exists_nearest
          have first := Proc.empty wordKind nameKind openedKind closeKind
            derived
          exact ⟨_, .proc first derivedMore,
            List.forall_mem_cons.mpr ⟨isNearest, areNearest⟩⟩
      | filled wordKind nameKind openedKind heading closeKind body =>
          obtain ⟨nearest, derived, isNearest⟩ := body.exists_nearest
          have first := Proc.filled wordKind nameKind openedKind heading
            closeKind derived
          exact ⟨_, .proc first derivedMore,
            List.forall_mem_cons.mpr ⟨isNearest, areNearest⟩⟩

end Grammar

/-! ## What parsing accepts -/

/-- The tokens in front of the first end marker. -/
def Token.beforeEnd (tokens : List Token) : List Token :=
  tokens.takeWhile fun token => token.kind != .eof

theorem Token.exists_rest_beforeEnd (tokens : List Token) :
    ∃ rest, tokens = beforeEnd tokens ++ rest ∧
      (rest = [] ∨ firstKind? rest = some .eof) := by
  induction tokens with
  | nil =>
      exact ⟨[], rfl, .inl rfl⟩
  | cons token tokens inductionHypothesis =>
      by_cases isEnd : token.kind = .eof
      · refine ⟨token :: tokens, ?_, .inr ?_⟩
        · simp [beforeEnd, isEnd]
        · simp [firstKind?, isEnd]
      · obtain ⟨rest, split, ends⟩ := inductionHypothesis
        refine ⟨rest, ?_, ends⟩
        rw [beforeEnd, List.takeWhile_cons_of_pos (by simpa using isEnd)]
        exact congrArg (List.cons token) split

theorem Grammar.EndFree.beforeEnd_append {tokens rest : List Token}
    (endFree : EndFree tokens)
    (ends : rest = [] ∨ Token.firstKind? rest = some .eof) :
    Token.beforeEnd (tokens ++ rest) = tokens := by
  have all : ∀ token ∈ tokens, (token.kind != .eof) = true := by
    intro token member
    simpa using List.forall_iff_forall_mem.mp endFree token member
  rw [Token.beforeEnd, List.takeWhile_append_of_pos all]
  cases rest with
  | nil =>
      simp
  | cons marker rest =>
      have isEnd : marker.kind = .eof := by
        simpa [Token.firstKind?] using ends
      simp [isEnd]

theorem Node.parse_eq_ok_iff {tokens : List Token} {nodes : List Node} :
    Node.parse tokens = .ok nodes ↔
      Grammar.Program (Token.beforeEnd tokens) nodes ∧
        ∀ node ∈ nodes, node.NearestElse := by
  constructor
  · intro run
    rw [Node.parse, Cursor.parse] at run
    split at run
    · rename_i found last parsed
      cases run
      obtain ⟨passed, front, derived, nearest, ends⟩ :=
        Parser.declarations_sound _ parsed
      change tokens = _ at front
      rw [front, derived.endFree.beforeEnd_append ends]
      exact ⟨derived, nearest⟩
    · cases run
  · rintro ⟨derived, nearest⟩
    obtain ⟨rest, front, ends⟩ := Token.exists_rest_beforeEnd tokens
    obtain ⟨last, run⟩ :=
      Parser.declarations_complete derived ⟨tokens, none⟩ front nearest ends
    rw [Node.parse, Cursor.parse, run]

/-- Parsing succeeds exactly on the programs of the grammar, and it returns
the tree in which every `else` belongs to the nearest `if`. -/
theorem Node.parse_accepts (tokens : List Token) :
    ((∃ nodes, Node.parse tokens = .ok nodes) ↔
      ∃ nodes, Grammar.Program (Token.beforeEnd tokens) nodes) ∧
    ∀ nodes, Node.parse tokens = .ok nodes ↔
      Grammar.Program (Token.beforeEnd tokens) nodes ∧
        ∀ node ∈ nodes, node.NearestElse := by
  refine ⟨⟨?_, ?_⟩, fun nodes => parse_eq_ok_iff⟩
  · rintro ⟨nodes, run⟩
    exact ⟨nodes, (parse_eq_ok_iff.mp run).1⟩
  · rintro ⟨nodes, derived⟩
    obtain ⟨nearest, nearestDerived, areNearest⟩ := derived.exists_nearest
    exact ⟨nearest, parse_eq_ok_iff.mpr ⟨nearestDerived, areNearest⟩⟩

/-- The tokens of `on go(1) if (a) if (b) f(); else g();`, with more behind
the end marker. -/
def danglingElse : List Token :=
  [(.keyOn, "on"), (.identifier, "go"), (.leftParen, "("), (.integer, "1"),
    (.rightParen, ")"), (.keyIf, "if"), (.leftParen, "("),
    (.identifier, "a"), (.rightParen, ")"), (.keyIf, "if"),
    (.leftParen, "("), (.identifier, "b"), (.rightParen, ")"),
    (.identifier, "f"), (.leftParen, "("), (.rightParen, ")"),
    (.semicolon, ";"), (.keyElse, "else"), (.identifier, "g"),
    (.leftParen, "("), (.rightParen, ")"), (.semicolon, ";"), (.eof, ""),
    (.comma, ",")].map fun (kind, text) => ⟨kind, text, ⟨0, 0⟩⟩

/-- The `else` belongs to the second `if`. -/
def danglingTree : List Node :=
  [.trigger "go" "1" (.branch (.var "a")
    (.branch (.var "b") (.call "f" []) (some (.call "g" []))) none)]

theorem parse_accepts_danglingElse :
    Grammar.Program (Token.beforeEnd danglingElse) danglingTree ∧
      Node.parse danglingElse = .ok danglingTree := by
  have derived : Grammar.Program (Token.beforeEnd danglingElse)
      danglingTree :=
    .trigger (.on rfl rfl rfl rfl rfl
      (.ifThen rfl rfl (.primary (.var rfl)) rfl
        (.ifElse rfl rfl (.primary (.var rfl)) rfl
          (.call (.empty rfl rfl rfl) rfl) rfl
          (.call (.empty rfl rfl rfl) rfl)))) .nil
  have nearest : ∀ node ∈ danglingTree, node.NearestElse := by
    simp [danglingTree, Node.NearestElse, Node.endsOpen]
  exact ⟨derived,
    ((Node.parse_accepts danglingElse).2 _).mpr ⟨derived, nearest⟩⟩

end TriggerScript
