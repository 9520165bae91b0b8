import TriggerScript.Proofs.CatalogExtension
import TriggerScript.Proofs.CatalogFormat

/-!
# Descriptions one below the other

Two descriptions are joined by a line break.  The lines of the second are then
read with the tables of the first already filled: they give what they give on
their own, put behind the tables of the first, until one of them declares a
number that the first has given.

* `Catalog.ids` are the numbers given in a table.
* `Catalog.Clashes` says which declarations of the second description repeat a
  number of the first.
-/

namespace TriggerScript

namespace Text

/-! ## Lines -/

theorem lines_append_feed (first second : List Char) :
    lines (first ++ '\n' :: second) = lines first ++ lines second := by
  simp only [lines, splitWhere_eq_splitOnP]
  exact List.splitOnP_append_cons first second rfl

theorem length_lines (text : List Char) :
    (lines text).length = text.count '\n' + 1 := by
  induction text with
  | nil =>
      rfl
  | cons c text inductionHypothesis =>
      rw [lines] at inductionHypothesis ⊢
      rw [splitWhere, List.count_cons]
      by_cases feed : (c == '\n') = true
      · rw [if_pos feed, if_pos feed, List.length_cons, inductionHypothesis]
      · rw [if_neg feed, if_neg feed, ← inductionHypothesis]
        cases pieces : splitWhere (· == '\n') text with
        | nil =>
            rw [pieces] at inductionHypothesis
            cases inductionHypothesis
        | cons piece pieces =>
            rfl

end Text

namespace Catalog

open Text

/-! ## Numbers -/

def Entry.table : Entry → Table
  | function _ => .function
  | listener _ => .listener

def Entry.id : Entry → UInt32
  | function declared => declared.id
  | listener declared => declared.id

def ids (catalog : Catalog) : Table → List UInt32
  | .function => catalog.functions.map Function.id
  | .listener => catalog.listeners.map Listener.id

/-- No number is given in the same table of both. -/
def SharesNone (catalog added : Catalog) : Prop :=
  ∀ table, (catalog.ids table).Disjoint (added.ids table)

variable {catalog added : Catalog} {number shift : Nat}
  {line : List Char} {lines : List (List Char)} {entry : Entry}

theorem extend_assoc (first second third : Catalog) :
    (first.extend second).extend third =
      first.extend (second.extend third) := by
  simp only [extend, List.append_assoc]

theorem ids_extend (catalog added : Catalog) (table : Table) :
    (catalog.extend added).ids table =
      catalog.ids table ++ added.ids table := by
  cases table
  all_goals exact List.map_append

theorem mem_ids_ofEntries {entries : List Entry} {table : Table}
    {id : UInt32} :
    id ∈ (ofEntries entries).ids table ↔
      ∃ entry ∈ entries, entry.table = table ∧ entry.id = id := by
  induction entries with
  | nil =>
      cases table
      all_goals simp [ids, ofEntries]
  | cons entry entries inductionHypothesis =>
      rw [List.exists_mem_cons_iff, ← inductionHypothesis]
      cases entry
      all_goals
        cases table
        all_goals simp [ids, ofEntries, Entry.function?, Entry.listener?,
          Entry.table, Entry.id, eq_comm]

/-- A number that is given is refused, and every other entry goes to the end
of its table. -/
theorem insert_eq (catalog : Catalog) (entry : Entry) :
    catalog.insert entry =
      if entry.id ∈ catalog.ids entry.table then
        .error (.duplicateId entry.table entry.id)
      else
        .ok (catalog.extend (ofEntries [entry])) := by
  cases entry
  all_goals
    simp [insert, ids, Entry.table, Entry.id, extend, ofEntries,
      List.filterMap_cons, Entry.function?, Entry.listener?]

theorem insert_extend (free : entry.id ∉ catalog.ids entry.table) :
    (catalog.extend added).insert entry =
      (added.insert entry).map catalog.extend := by
  rw [insert_eq, insert_eq, ids_extend, extend_assoc]
  by_cases taken : entry.id ∈ added.ids entry.table
  · rw [if_pos (List.mem_append_right _ taken), if_pos taken]
    rfl
  · rw [if_neg (by simp [free, taken]), if_neg taken]
    rfl

theorem insert_taken (taken : entry.id ∈ catalog.ids entry.table) :
    (catalog.extend added).insert entry =
      .error (.duplicateId entry.table entry.id) := by
  rw [insert_eq, ids_extend, if_pos (List.mem_append_left _ taken)]

theorem SharesNone.insert (sharesNone : SharesNone catalog added)
    (free : entry.id ∉ catalog.ids entry.table) :
    SharesNone catalog (added.extend (ofEntries [entry])) := by
  intro table id given
  rw [ids_extend, List.mem_append, mem_ids_ofEntries]
  rintro (givenAgain | ⟨other, member, rfl, rfl⟩)
  · exact sharesNone table given givenAgain
  · rw [List.mem_singleton.mp member] at given
    exact free given

/-! ## One line -/

theorem Declares.isComment_eq (declares : Declares line entry) :
    isComment line = false := by
  cases declares with
  | mk ofKind =>
      obtain ⟨nonempty, parts⟩ := ofKind.isNamePart
      obtain ⟨c, kind, rfl⟩ := List.exists_cons_of_ne_nil nonempty
      have part : isNamePart c = true := parts c List.mem_cons_self
      unfold isComment
      split
      · rename_i empty
        cases empty
      · rename_i hash
        rw [(List.cons.inj hash).1] at part
        cases part
      · rename_i slashes
        rw [(List.cons.inj slashes).1] at part
        cases part
      · rfl

theorem Declares.unique {other : Entry} (declares : Declares line entry)
    (declaresOther : Declares line other) : entry = other := by
  have read := declares.readEntry_eq
  rw [declaresOther.readEntry_eq] at read
  cases read
  rfl

/-- A line is passed over, or refused, or enters what it declares, whatever
has been entered before. -/
theorem insertLine_cases (line : List Char) :
    ((∀ entry, ¬ Declares (trim line) entry) ∧
        ((∀ catalog : Catalog, catalog.insertLine line = .ok catalog) ∨
          ∃ fault, ∀ catalog : Catalog,
            catalog.insertLine line = .error fault)) ∨
      ∃ entry, Declares (trim line) entry ∧
        ∀ catalog : Catalog,
          catalog.insertLine line = catalog.insert entry := by
  by_cases comment : isComment (trim line) = true
  · refine .inl ⟨?_, .inl fun catalog => if_pos comment⟩
    intro entry declares
    rw [declares.isComment_eq] at comment
    cases comment
  · have reads : ∀ catalog : Catalog, catalog.insertLine line =
        (readEntry (trim line)).bind catalog.insert :=
      fun catalog => if_neg comment
    cases read : readEntry (trim line) with
    | error fault =>
        refine .inl ⟨?_, .inr ⟨fault, fun catalog => ?_⟩⟩
        · intro entry declares
          rw [declares.readEntry_eq] at read
          cases read
        · rw [reads, read]
          rfl
    | ok entry =>
        refine .inr ⟨entry,
          (readEntry_eq_ok_iff isBlank_head_trim).mp read, fun catalog => ?_⟩
        rw [reads, read]
        rfl

/-! ## Line after line -/

theorem insertLines_append (catalog : Catalog) (number : Nat)
    (first second : List (List Char)) :
    catalog.insertLines number (first ++ second) =
      (catalog.insertLines number first).bind
        fun filled => filled.insertLines (number + first.length) second := by
  induction first generalizing catalog number with
  | nil =>
      rfl
  | cons line first inductionHypothesis =>
      rw [List.cons_append, insertLines, insertLines]
      cases catalog.insertLine line with
      | error fault =>
          rfl
      | ok extended =>
          dsimp only
          rw [inductionHypothesis, List.length_cons, Nat.add_right_comm,
            Nat.add_assoc]

theorem le_line_of_insertLines {error : DescriptionError}
    (run : catalog.insertLines number lines = .error error) :
    number ≤ error.line := by
  induction lines generalizing catalog number with
  | nil =>
      cases run
  | cons line lines inductionHypothesis =>
      rw [insertLines] at run
      cases step : catalog.insertLine line with
      | error fault =>
          rw [step] at run
          cases run
          exact Nat.le_refl number
      | ok extended =>
          rw [step] at run
          exact Nat.le_of_succ_le (inductionHypothesis run)

/-- An error that is met further down. -/
def DescriptionError.lower (shift : Nat) (error : DescriptionError) :
    DescriptionError :=
  { error with line := error.line + shift }

/-- The line at an index declares an entry. -/
def DeclaresAt (lines : List (List Char)) (index : Nat)
    (entry : Entry) : Prop :=
  ∃ line, lines[index]? = some line ∧ Declares (trim line) entry

theorem DeclaresAt.unique {index : Nat} {other : Entry}
    (declares : DeclaresAt lines index entry)
    (declaresOther : DeclaresAt lines index other) : entry = other := by
  obtain ⟨line, atIndex, lineDeclares⟩ := declares
  obtain ⟨sameLine, sameIndex, otherDeclares⟩ := declaresOther
  rw [atIndex] at sameIndex
  cases sameIndex
  exact lineDeclares.unique otherDeclares

/-- The line at an index declares a number that the first catalog has given in
the same table, and reading the lines on their own comes past it.  They are
read on top of `added`, and the first has the given number. -/
structure ClashesFrom (catalog added : Catalog) (number : Nat)
    (lines : List (List Char)) (index : Nat) (entry : Entry) : Prop where
  declares : DeclaresAt lines index entry
  reached : ∀ error, added.insertLines number lines = .error error →
    number + index < error.line
  taken : entry.id ∈ catalog.ids entry.table

/-- How lines are read on top of two catalogs, in terms of reading them on top
of the second: the first clash is refused, and where there is none, all is as
without the first catalog. -/
def Compares (catalog added : Catalog) (number shift : Nat)
    (lines : List (List Char)) : Prop :=
  (∃ index entry, ClashesFrom catalog added number lines index entry ∧
      (∀ earlier other,
        ClashesFrom catalog added number lines earlier other →
          index ≤ earlier) ∧
      (catalog.extend added).insertLines (number + shift) lines =
        .error ⟨.duplicateId entry.table entry.id,
          number + index + shift⟩) ∨
    (∀ index entry, ¬ ClashesFrom catalog added number lines index entry) ∧
      (catalog.extend added).insertLines (number + shift) lines =
        ((added.insertLines number lines).map catalog.extend).mapError
          (DescriptionError.lower shift)

/-- A line that is refused on its own. -/
theorem Compares.of_fault {fault : Fault}
    (refused : added.insertLine line = .error fault)
    (refusedBoth : (catalog.extend added).insertLine line = .error fault) :
    Compares catalog added number shift (line :: lines) := by
  refine .inr ⟨?_, ?_⟩
  · intro index entry clash
    have reached := clash.reached ⟨fault, number⟩
    rw [insertLines, refused] at reached
    have past : number + index < number := reached rfl
    omega
  · rw [insertLines, insertLines, refused, refusedBoth]
    rfl

/-- A line that is accepted on top of both catalogs. -/
theorem Compares.of_step {extended : Catalog}
    (step : added.insertLine line = .ok extended)
    (stepBoth : (catalog.extend added).insertLine line =
      .ok (catalog.extend extended))
    (noClash : ∀ entry, Declares (trim line) entry →
      entry.id ∉ catalog.ids entry.table)
    (compares : Compares catalog extended (number + 1) shift lines) :
    Compares catalog added number shift (line :: lines) := by
  have run : added.insertLines number (line :: lines) =
      extended.insertLines (number + 1) lines := by
    rw [insertLines, step]
  have runBoth :
      (catalog.extend added).insertLines (number + shift) (line :: lines) =
        (catalog.extend extended).insertLines (number + 1 + shift) lines := by
    rw [insertLines, stepBoth, Nat.add_right_comm]
  have tail : ∀ index entry,
      ClashesFrom catalog added number (line :: lines) index entry →
        ∃ before, index = before + 1 ∧
          ClashesFrom catalog extended (number + 1) lines before entry := by
    intro index entry clash
    obtain ⟨⟨found, atIndex, declares⟩, reached, taken⟩ := clash
    cases index with
    | zero =>
        cases atIndex
        exact absurd taken (noClash entry declares)
    | succ index =>
        refine ⟨index, rfl, ⟨found, atIndex, declares⟩, ?_, taken⟩
        intro error failed
        have past := reached error (run.trans failed)
        omega
  rcases compares with
    ⟨index, entry, clash, isFirst, outcome⟩ | ⟨none, outcome⟩
  · obtain ⟨⟨found, atIndex, declares⟩, reached, taken⟩ := clash
    refine .inl ⟨index + 1, entry, ⟨⟨found, atIndex, declares⟩, ?_, taken⟩,
      ?_, ?_⟩
    · intro error failed
      have past := reached error (run.symm.trans failed)
      omega
    · intro earlier other otherClash
      obtain ⟨before, rfl, behind⟩ := tail earlier other otherClash
      exact Nat.succ_le_succ (isFirst before other behind)
    · rw [runBoth, outcome, Nat.add_assoc number, Nat.add_comm 1]
  · refine .inr ⟨?_, ?_⟩
    · intro index entry clash
      obtain ⟨before, _, behind⟩ := tail index entry clash
      exact none before entry behind
    · rw [runBoth, outcome, run]

/-- A line whose number the first catalog has given, while the second has
not. -/
theorem Compares.of_clash (declares : Declares (trim line) entry)
    (inserts : ∀ catalog : Catalog,
      catalog.insertLine line = catalog.insert entry)
    (taken : entry.id ∈ catalog.ids entry.table)
    (sharesNone : SharesNone catalog added) :
    Compares catalog added number shift (line :: lines) := by
  have free : entry.id ∉ added.ids entry.table := sharesNone _ taken
  refine .inl ⟨0, entry, ⟨⟨line, rfl, declares⟩, ?_, taken⟩,
    fun _ _ _ => Nat.zero_le _, ?_⟩
  · intro error failed
    rw [insertLines, inserts, insert_eq, if_neg free] at failed
    exact le_line_of_insertLines failed
  · rw [insertLines, inserts, insert_taken taken]
    rfl

/-- Reading on top of a catalog that shares no number with what was read so
far. -/
theorem insertLines_compares (sharesNone : SharesNone catalog added)
    (number shift : Nat) (lines : List (List Char)) :
    Compares catalog added number shift lines := by
  induction lines generalizing added number with
  | nil =>
      refine .inr ⟨?_, rfl⟩
      rintro index entry ⟨⟨line, atIndex, _⟩, _, _⟩
      cases atIndex
  | cons line lines inductionHypothesis =>
      rcases insertLine_cases line with
        ⟨declaresNone, skipped | ⟨fault, refused⟩⟩ | ⟨entry, declares, inserts⟩
      · exact .of_step (skipped _) (skipped _)
          (fun entry declares => absurd declares (declaresNone entry))
          (inductionHypothesis sharesNone (number + 1))
      · exact .of_fault (refused _) (refused _)
      · by_cases taken : entry.id ∈ catalog.ids entry.table
        · exact .of_clash declares inserts taken sharesNone
        · have both := @insert_extend catalog added entry taken
          by_cases repeated : entry.id ∈ added.ids entry.table
          · have refused := insert_eq added entry
            rw [if_pos repeated] at refused
            rw [refused] at both
            exact .of_fault ((inserts _).trans refused)
              ((inserts _).trans both)
          · have entered := insert_eq added entry
            rw [if_neg repeated] at entered
            rw [entered] at both
            refine .of_step ((inserts _).trans entered)
              ((inserts _).trans both) ?_
              (inductionHypothesis (sharesNone.insert taken) (number + 1))
            intro other declaresOther
            rwa [← declares.unique declaresOther]

/-! ## Two descriptions -/

/-- Line `index + 1` of a description declares a number that the catalog has
given in the same table, and it stands before any error of the
description. -/
def Clashes (catalog : Catalog) (text : String) (index : Nat)
    (entry : Entry) : Prop :=
  ClashesFrom catalog {} 1 (Text.lines text.toList) index entry

/-- The numbers that a description gives are those that its lines declare. -/
theorem mem_ids_iff_of_parse {text : String} (parsed : parse text = .ok added)
    {table : Table} {id : UInt32} :
    id ∈ added.ids table ↔
      ∃ index entry, DeclaresAt (Text.lines text.toList) index entry ∧
        entry.table = table ∧ entry.id = id := by
  have start : (ofEntries []).Distinct := ⟨List.nodup_nil, List.nodup_nil⟩
  obtain ⟨entries, declare, _, rfl⟩ := (insertLines_eq_ok_iff start).mp parsed
  rw [List.nil_append, mem_ids_ofEntries]
  constructor
  · rintro ⟨entry, member, inTable, withId⟩
    obtain ⟨content, contentMember, declares⟩ :=
      exists_of_forall₂ declare.flip member
    obtain ⟨line, lineMember, rfl⟩ :=
      List.mem_map.mp (List.mem_of_mem_filter contentMember)
    obtain ⟨index, atIndex⟩ := List.mem_iff_getElem?.mp lineMember
    exact ⟨index, entry, ⟨line, atIndex, declares⟩, inTable, withId⟩
  · rintro ⟨index, entry, ⟨line, atIndex, declares⟩, inTable, withId⟩
    have lineMember := List.mem_of_getElem? atIndex
    have kept : trim line ∈ ((Text.lines text.toList).map trim).filter
        fun line => !isComment line :=
      List.mem_filter.mpr ⟨List.mem_map_of_mem lineMember,
        by simp [declares.isComment_eq]⟩
    obtain ⟨other, member, declaresOther⟩ := exists_of_forall₂ declare kept
    rw [declares.unique declaresOther] at inTable withId
    exact ⟨other, member, inTable, withId⟩

theorem parse_append (first second : String) :
    parse (first ++ "\n" ++ second) =
      (parse first).bind fun catalog =>
        (catalog.extend {}).insertLines
          (1 + (first.toList.count '\n' + 1)) (Text.lines second.toList) := by
  have sourceEq : (first ++ "\n" ++ second).toList =
      first.toList ++ '\n' :: second.toList := by
    rw [String.toList_append, String.toList_append]
    simp
  rw [parse, sourceEq, lines_append_feed, insertLines_append, length_lines,
    parse]
  simp only [extend, List.append_nil]

/-- Where the descriptions have no clash, they share no number. -/
theorem sharesNone_of_not_clashes {text : String}
    (parsed : parse text = .ok added)
    (none : ∀ index entry, ¬ Clashes catalog text index entry) :
    SharesNone catalog added := by
  intro table id given givenAgain
  obtain ⟨index, entry, declared, rfl, rfl⟩ :=
    (mem_ids_iff_of_parse parsed).mp givenAgain
  refine none index entry ⟨declared, ?_, given⟩
  intro error failed
  have outcome := parsed.symm.trans failed
  cases outcome

theorem not_sharesNone_of_clashes {text : String} {index : Nat}
    (parsed : parse text = .ok added)
    (clash : Clashes catalog text index entry) :
    ¬ SharesNone catalog added := by
  intro sharesNone
  apply sharesNone entry.table clash.taken
  exact (mem_ids_iff_of_parse parsed).mpr
    ⟨index, entry, clash.declares, rfl, rfl⟩

/-- A description below one that was read: its first clash is refused, and
where there is none, its tables go behind those of the first, or its error is
further down. -/
theorem parse_below {first : String} (parsed : parse first = .ok catalog)
    (second : String) :
    (∃ index entry, Clashes catalog second index entry ∧
        (∀ earlier other, Clashes catalog second earlier other →
          index ≤ earlier) ∧
        parse (first ++ "\n" ++ second) =
          .error ⟨.duplicateId entry.table entry.id,
            1 + index + (first.toList.count '\n' + 1)⟩) ∨
      (∀ index entry, ¬ Clashes catalog second index entry) ∧
        parse (first ++ "\n" ++ second) =
          ((parse second).map catalog.extend).mapError
            (DescriptionError.lower (first.toList.count '\n' + 1)) := by
  have sharesNone : SharesNone catalog {} := by
    intro table id _ given
    cases table
    all_goals cases given
  have joined : parse (first ++ "\n" ++ second) =
      (catalog.extend {}).insertLines (1 + (first.toList.count '\n' + 1))
        (Text.lines second.toList) := by
    rw [parse_append, parsed]
    rfl
  have compares := insertLines_compares sharesNone 1
    (first.toList.count '\n' + 1) (Text.lines second.toList)
  rw [Compares, ← joined] at compares
  exact compares

/-- What a description with another one below it gives, in terms of the two.
Behind the first one and its line breaks the lines of the second have numbers
that are higher by `first.toList.count '\n' + 1`. -/
structure Composes (first second : String) : Prop where
  firstFails : ∀ {error}, parse first = .error error →
    parse (first ++ "\n" ++ second) = .error error
  bothRead : ∀ {catalog added}, parse first = .ok catalog →
    parse second = .ok added → SharesNone catalog added →
    parse (first ++ "\n" ++ second) = .ok (catalog.extend added)
  clash : ∀ {catalog index entry}, parse first = .ok catalog →
    Clashes catalog second index entry →
    (∀ earlier other, Clashes catalog second earlier other →
      index ≤ earlier) →
    parse (first ++ "\n" ++ second) =
      .error ⟨.duplicateId entry.table entry.id,
        index + 1 + (first.toList.count '\n' + 1)⟩
  otherwise : ∀ {catalog}, parse first = .ok catalog →
    (∀ added, parse second = .ok added → ¬ SharesNone catalog added) →
    (∀ index entry, ¬ Clashes catalog second index entry) →
    ∃ error, parse second = .error error ∧
      parse (first ++ "\n" ++ second) =
        .error (error.lower (first.toList.count '\n' + 1))

/-- Descriptions compose line by line, errors included. -/
theorem parse_composes (first second : String) : Composes first second := by
  constructor
  case firstFails =>
    intro error failed
    rw [parse_append, failed]
    rfl
  case bothRead =>
    intro catalog added parsed parsedSecond sharesNone
    rcases parse_below parsed second with
      ⟨index, entry, clash, _, _⟩ | ⟨_, outcome⟩
    · exact absurd sharesNone (not_sharesNone_of_clashes parsedSecond clash)
    · rw [outcome, parsedSecond]
      rfl
  case clash =>
    intro catalog index entry parsed clash isFirst
    rcases parse_below parsed second with
      ⟨other, otherEntry, otherClash, otherFirst, outcome⟩ | ⟨none, _⟩
    · obtain rfl : index = other :=
        Nat.le_antisymm (isFirst _ _ otherClash) (otherFirst _ _ clash)
      obtain rfl : entry = otherEntry :=
        clash.declares.unique otherClash.declares
      rw [outcome, Nat.add_comm 1]
    · exact absurd clash (none index entry)
  case otherwise =>
    intro catalog parsed shares none
    rcases parse_below parsed second with
      ⟨index, entry, clash, _, _⟩ | ⟨_, outcome⟩
    · exact absurd clash (none index entry)
    · cases parsedSecond : parse second with
      | error error =>
          rw [parsedSecond] at outcome
          exact ⟨error, rfl, outcome⟩
      | ok added =>
          have sharesNone := sharesNone_of_not_clashes parsedSecond none
          exact absurd sharesNone (shares added parsedSecond)

theorem declaresAt_iff {index : Nat} :
    DeclaresAt lines index entry ↔
      ∃ line, lines[index]? = some line ∧
        readEntry (trim line) = .ok entry := by
  simp only [DeclaresAt, readEntry_eq_ok_iff isBlank_head_trim]

def gateText : String :=
  "void open(int door) -> 7;\nlistener knock() -> 3;"

theorem parse_gateText : parse gateText = .ok doorCatalog := by
  decide +kernel

/-- A number that is given again is refused in its line, though a later line is
wrong by itself. -/
theorem parse_composes_gate :
    parse (gateText ++ "\n" ++ "# again\nvoid shut() -> 7;\nwhat") =
        .error ⟨.duplicateId .function 7, 4⟩ ∧
      parse (gateText ++ "\n" ++ "void shut() -> 8;\nwhat") =
        .error ⟨.malformed, 4⟩ := by
  have again : parse "# again\nvoid shut() -> 7;\nwhat" =
      .error ⟨.malformed, 3⟩ := by
    decide +kernel
  have other : parse "void shut() -> 8;\nwhat" = .error ⟨.malformed, 2⟩ := by
    decide +kernel
  constructor
  · have clash : Clashes doorCatalog "# again\nvoid shut() -> 7;\nwhat" 1
        (.function ⟨.void, "shut", [], 7⟩) := by
      refine ⟨declaresAt_iff.mpr ⟨_, rfl, by decide +kernel⟩, ?_, by decide⟩
      intro error failed
      cases again.symm.trans failed
      decide
    refine (parse_composes gateText _).clash parse_gateText clash ?_
    intro earlier entry earlierClash
    rcases Nat.eq_zero_or_pos earlier with rfl | positive
    · obtain ⟨line, atFront, read⟩ := declaresAt_iff.mp earlierClash.declares
      have comment : readEntry (trim "# again".toList) =
          .error .malformed := by
        decide +kernel
      cases atFront
      cases comment.symm.trans read
    · exact positive
  · have none : ∀ index entry,
        ¬ Clashes doorCatalog "void shut() -> 8;\nwhat" index entry := by
      intro index entry clash
      have before := clash.reached _ other
      obtain rfl : index = 0 := by
        dsimp only at before
        omega
      have declares : DeclaresAt (Text.lines "void shut() -> 8;\nwhat".toList)
          0 (.function ⟨.void, "shut", [], 8⟩) :=
        declaresAt_iff.mpr ⟨_, rfl, by decide +kernel⟩
      have taken := clash.taken
      rw [← declares.unique clash.declares] at taken
      revert taken
      decide
    obtain ⟨error, failed, lowered⟩ := (parse_composes gateText _).otherwise
      parse_gateText (fun added parsed => nomatch other.symm.trans parsed)
      none
    cases other.symm.trans failed
    exact lowered

end Catalog

end TriggerScript
