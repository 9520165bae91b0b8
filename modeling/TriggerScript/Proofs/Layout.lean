import TriggerScript.Proofs.Lexemes

/-!
# The layout between tokens

Layout is white space and comments.  Where it ends depends on what follows:
a line comment needs a line feed or the end of the text behind it, and a block
comment that is not closed needs the end.  What scanning measures at the front
of a text is layout, and all of the layout that stands there.
-/

namespace TriggerScript

namespace Token

/-! ## Layout -/

/-- Text between tokens, with the text that follows it.  A line comment goes
up to a line feed or the end of the text; a block comment goes through the
first `*/` behind its opening, or to the end of the text. -/
inductive Layout (following : List Char) : List Char → Prop
  | nil :
      Layout following []
  | space {c : Char} {gap : List Char} :
      isSpace c = true →
      Layout following gap →
      Layout following (c :: gap)
  | lineComment {body gap : List Char} :
      '\n' ∉ body →
      (∀ c ∈ (gap ++ following).head?, c = '\n') →
      Layout following gap →
      Layout following ('/' :: '/' :: (body ++ gap))
  | blockComment {body gap : List Char} :
      ¬ ['*', '/'] <:+: body ++ ['*'] →
      Layout following gap →
      Layout following ('/' :: '*' :: (body ++ '*' :: '/' :: gap))
  | openComment {body : List Char} :
      ¬ ['*', '/'] <:+: body →
      following = [] →
      Layout following ('/' :: '*' :: body)

/-! ## Measured layout -/

/-- A text cut behind the layout at its front. -/
def LayoutCut (text : List Char) : Prop :=
  Layout (text.drop (layoutLength text)) (text.take (layoutLength text))

def LineCommentCut (text : List Char) : Prop :=
  ∃ body gap, text.take (lineCommentLength text) = body ++ gap ∧
    '\n' ∉ body ∧
    (∀ c ∈ (gap ++ text.drop (lineCommentLength text)).head?, c = '\n') ∧
    Layout (text.drop (lineCommentLength text)) gap

def BlockCommentCut (text : List Char) : Prop :=
  (∃ body gap,
    text.take (blockCommentLength text) = body ++ '*' :: '/' :: gap ∧
      ¬ ['*', '/'] <:+: body ++ ['*'] ∧
      Layout (text.drop (blockCommentLength text)) gap) ∨
    blockCommentLength text = text.length ∧ ¬ ['*', '/'] <:+: text

theorem not_infix_cons {c : Char} {text : List Char}
    (notHere : ¬ ['*', '/'] <+: c :: text)
    (notBehind : ¬ ['*', '/'] <:+: text) :
    ¬ ['*', '/'] <:+: c :: text := by
  rw [List.infix_cons_iff]
  rintro (here | behind)
  · exact notHere here
  · exact notBehind behind

theorem layoutCut_lineComment {text : List Char}
    (inside : LineCommentCut text) : LayoutCut ('/' :: '/' :: text) := by
  obtain ⟨body, gap, split, noFeed, ends, layout⟩ := inside
  have lengthEq : layoutLength ('/' :: '/' :: text) =
      lineCommentLength text + 2 := by
    rw [layoutLength, Nat.add_comm]
  rw [LayoutCut, lengthEq, List.take_succ_cons, List.take_succ_cons,
    List.drop_succ_cons, List.drop_succ_cons, split]
  exact .lineComment noFeed ends layout

theorem layoutCut_blockComment {text : List Char}
    (inside : BlockCommentCut text) : LayoutCut ('/' :: '*' :: text) := by
  have lengthEq : layoutLength ('/' :: '*' :: text) =
      blockCommentLength text + 2 := by
    rw [layoutLength, Nat.add_comm]
  rw [LayoutCut, lengthEq, List.take_succ_cons, List.take_succ_cons,
    List.drop_succ_cons, List.drop_succ_cons]
  rcases inside with ⟨body, gap, split, notClosed, layout⟩ | ⟨whole, unclosed⟩
  · rw [split]
    exact .blockComment notClosed layout
  · rw [whole, List.take_length, List.drop_length]
    exact .openComment unclosed rfl

theorem lineCommentCut_feed {text : List Char} (behind : LayoutCut text) :
    LineCommentCut ('\n' :: text) := by
  have lengthEq : lineCommentLength ('\n' :: text) =
      layoutLength text + 1 := by
    rw [lineCommentLength, Nat.add_comm]
  rw [LineCommentCut, lengthEq, List.take_succ_cons, List.drop_succ_cons]
  refine ⟨[], '\n' :: text.take (layoutLength text), rfl, by simp, ?_,
    .space rfl behind⟩
  simp

theorem lineCommentCut_cons {c : Char} {text : List Char}
    (noFeed : c ≠ '\n') (behind : LineCommentCut text) :
    LineCommentCut (c :: text) := by
  obtain ⟨body, gap, split, bodyFree, ends, layout⟩ := behind
  have lengthEq : lineCommentLength (c :: text) =
      lineCommentLength text + 1 := by
    rw [lineCommentLength, Nat.add_comm]
    exact noFeed
  rw [LineCommentCut, lengthEq, List.take_succ_cons, List.drop_succ_cons,
    split]
  refine ⟨c :: body, gap, rfl, ?_, ends, layout⟩
  rw [List.mem_cons]
  rintro (same | member)
  · exact noFeed same.symm
  · exact bodyFree member

theorem blockCommentCut_close {text : List Char}
    (behind : LayoutCut text) : BlockCommentCut ('*' :: '/' :: text) := by
  have lengthEq : blockCommentLength ('*' :: '/' :: text) =
      layoutLength text + 2 := by
    rw [blockCommentLength, Nat.add_comm]
  rw [BlockCommentCut, lengthEq, List.take_succ_cons, List.take_succ_cons,
    List.drop_succ_cons, List.drop_succ_cons]
  exact .inl ⟨[], text.take (layoutLength text), rfl, by decide, behind⟩

/-- The first `*/` of a text that does not start with it is the first one
behind the first character. -/
theorem blockCommentCut_cons {c : Char} {text : List Char}
    (notClose : ∀ rest, c = '*' → text = '/' :: rest → False)
    (behind : BlockCommentCut text) : BlockCommentCut (c :: text) := by
  have lengthEq : blockCommentLength (c :: text) =
      blockCommentLength text + 1 := by
    rw [blockCommentLength, Nat.add_comm]
    exact notClose
  have notHere (tail : List Char) (startsText : tail <+: text) :
      ¬ ['*', '/'] <+: c :: tail := by
    intro here
    rw [List.cons_prefix_cons] at here
    obtain ⟨rest, rfl⟩ := here.2.trans startsText
    exact notClose rest here.1.symm rfl
  rw [BlockCommentCut, lengthEq, List.take_succ_cons, List.drop_succ_cons]
  rcases behind with ⟨body, gap, split, notClosed, layout⟩ | ⟨whole, unclosed⟩
  · refine .inl ⟨c :: body, gap, by rw [split]; rfl, ?_, layout⟩
    have startsText : body ++ ['*'] <+: text := by
      apply List.IsPrefix.trans _
        (List.take_prefix (blockCommentLength text) text)
      rw [split]
      exact ⟨'/' :: gap, by simp⟩
    exact not_infix_cons (notHere _ startsText) notClosed
  · refine .inr ⟨by rw [whole]; rfl, ?_⟩
    exact not_infix_cons (notHere _ List.prefix_rfl) unclosed

theorem layoutLength_space {c : Char} {text : List Char}
    (space : isSpace c = true) :
    layoutLength (c :: text) = 1 + layoutLength text := by
  rw [layoutLength, if_pos space]
  · rintro rest rfl
    cases space
  · rintro rest rfl
    cases space

/-- What scanning measures as layout is layout. -/
theorem layoutCut (text : List Char) : LayoutCut text := by
  revert text
  suffices all : (∀ text, LayoutCut text) ∧ (∀ text, BlockCommentCut text) ∧
      ∀ text, LineCommentCut text from all.1
  apply layoutLength.mutual_induct
  case case1 =>
    exact fun text inside => layoutCut_lineComment inside
  case case2 =>
    exact fun text inside => layoutCut_blockComment inside
  case case3 =>
    intro c text _ _ space behind
    rw [LayoutCut, layoutLength_space space, Nat.add_comm,
      List.take_succ_cons, List.drop_succ_cons]
    exact .space space behind
  case case4 =>
    intro c text notLine notBlock noSpace
    have lengthEq : layoutLength (c :: text) = 0 := by
      rw [layoutLength, if_neg noSpace]
      · exact notLine
      · exact notBlock
    rw [LayoutCut, lengthEq]
    exact .nil
  case case5 =>
    exact .nil
  case case6 =>
    exact fun text behind => blockCommentCut_close behind
  case case7 =>
    exact fun c text notClose behind => blockCommentCut_cons notClose behind
  case case8 =>
    exact .inr ⟨rfl, by decide⟩
  case case9 =>
    exact fun text behind => lineCommentCut_feed behind
  case case10 =>
    exact fun c text noFeed behind => lineCommentCut_cons noFeed behind
  case case11 =>
    exact ⟨[], [], rfl, by simp, by simp [lineCommentLength], .nil⟩

theorem lineCommentLength_append {body tail : List Char}
    (noFeed : '\n' ∉ body) (ends : ∀ c ∈ tail.head?, c = '\n') :
    lineCommentLength (body ++ tail) = body.length + layoutLength tail := by
  induction body with
  | nil =>
      cases tail with
      | nil =>
          rfl
      | cons c tail =>
          have isFeed : c = '\n' := ends c rfl
          subst isFeed
          rw [List.nil_append, lineCommentLength, List.length_nil,
            Nat.zero_add]
          rfl
  | cons c body inductionHypothesis =>
      rw [List.mem_cons, not_or] at noFeed
      rw [List.cons_append, lineCommentLength,
        inductionHypothesis noFeed.2, List.length_cons]
      · omega
      · exact Ne.symm noFeed.1

theorem blockCommentLength_cons {c : Char} {text : List Char}
    (notClosed : ¬ ['*', '/'] <:+: c :: text) :
    blockCommentLength (c :: text) = 1 + blockCommentLength text := by
  rw [blockCommentLength]
  rintro rest rfl rfl
  exact notClosed ⟨[], rest, rfl⟩

theorem blockCommentLength_append {body tail : List Char}
    (notClosed : ¬ ['*', '/'] <:+: body ++ ['*']) :
    blockCommentLength (body ++ '*' :: '/' :: tail) =
      body.length + 2 + layoutLength tail := by
  induction body with
  | nil =>
      rw [List.nil_append, blockCommentLength, List.length_nil,
        Nat.zero_add]
  | cons c body inductionHypothesis =>
      rw [List.cons_append, List.infix_cons_iff, not_or] at notClosed
      rw [List.cons_append, blockCommentLength,
        inductionHypothesis notClosed.2, List.length_cons]
      · omega
      · -- Only the closing mark itself could follow, and it starts with `*`.
        rintro rest rfl starts
        cases body with
        | nil =>
            cases starts
        | cons next body =>
            obtain ⟨rfl, _⟩ := List.cons.inj starts
            exact notClosed.1 ⟨body ++ ['*'], rfl⟩

theorem blockCommentLength_of_unclosed {body : List Char}
    (unclosed : ¬ ['*', '/'] <:+: body) :
    blockCommentLength body = body.length := by
  induction body with
  | nil =>
      rfl
  | cons c body inductionHypothesis =>
      have behind : ¬ ['*', '/'] <:+: body := by
        intro inBody
        exact unclosed (List.infix_cons_iff.mpr (.inr inBody))
      rw [blockCommentLength_cons unclosed, inductionHypothesis behind,
        List.length_cons, Nat.add_comm]

/-- Layout is measured as such, whatever follows it. -/
theorem Layout.layoutLength_append {following gap : List Char}
    (layout : Layout following gap) :
    layoutLength (gap ++ following) =
      gap.length + layoutLength following := by
  induction layout with
  | nil =>
      rw [List.nil_append, List.length_nil, Nat.zero_add]
  | space space _ inductionHypothesis =>
      rw [List.cons_append, layoutLength_space space, inductionHypothesis,
        List.length_cons]
      omega
  | lineComment noFeed ends _ inductionHypothesis =>
      rw [List.cons_append, List.cons_append, List.append_assoc,
        layoutLength, lineCommentLength_append noFeed ends,
        inductionHypothesis]
      simp only [List.length_cons, List.length_append]
      omega
  | blockComment notClosed _ inductionHypothesis =>
      rw [List.cons_append, List.cons_append, List.append_assoc,
        layoutLength, List.cons_append, List.cons_append,
        blockCommentLength_append notClosed, inductionHypothesis]
      simp only [List.length_cons, List.length_append]
      omega
  | openComment unclosed atEnd =>
      rw [atEnd, List.append_nil, layoutLength,
        blockCommentLength_of_unclosed unclosed]
      simp only [List.length_cons, layoutLength]
      omega

/-- Behind the layout at the front there is no more layout. -/
theorem layoutLength_drop (text : List Char) :
    layoutLength (text.drop (layoutLength text)) = 0 := by
  have measured := (layoutCut text).layoutLength_append
  rw [List.take_append_drop, List.length_take] at measured
  by_cases within : layoutLength text ≤ text.length
  · omega
  · rw [List.drop_of_length_le (by omega), layoutLength]

end Token

end TriggerScript
