/-!
# Outlines

An outline shows a tree of named records, wrapped values and lists over many
lines.  Every part stands on lines of its own, four spaces deeper than what
holds it and with a comma behind it; an empty list stays on one line.
-/

namespace TriggerScript.Text

inductive Outline where
  | leaf (text : String)
  | record (name : String) (fields : List (String × Outline))
  | wrapped (name : String) (inner : Outline)
  | list (items : List Outline)

namespace Outline

/-- Put a text before the first of some lines. -/
def lead (text : String) : List String → List String
  | [] => []
  | line :: lines => (text ++ line) :: lines

/-- Put a text behind the last of some lines. -/
def trail (text : String) : List String → List String
  | [] => []
  | [line] => [line ++ text]
  | line :: lines => line :: trail text lines

/-- The lines of one part inside another: indented, with a comma behind. -/
def part (lines : List String) : List String :=
  (trail "," lines).map ("    " ++ ·)

mutual

def lines : Outline → List String
  | leaf text => [text]
  | record name fields => (name ++ " \x7b") :: (fieldLines fields ++ ["\x7d"])
  | wrapped name inner => (name ++ "(") :: (part inner.lines ++ [")"])
  | list [] => ["[]"]
  | list (first :: rest) =>
      "[" :: (part first.lines ++ (itemLines rest ++ ["]"]))

def fieldLines : List (String × Outline) → List String
  | [] => []
  | (name, value) :: fields =>
      part (lead (name ++ ": ") value.lines) ++ fieldLines fields

def itemLines : List Outline → List String
  | [] => []
  | item :: items => part item.lines ++ itemLines items

end

/-- The whole outline as one text, without a line feed at the end. -/
def render (outline : Outline) : String :=
  "\n".intercalate outline.lines

end Outline

end TriggerScript.Text
