import CircuitPicture.Picture

/-! # The lines of a picture

What stands in a picture, line by line, without the pieces in which the lines are written. Putting
the pieces together gives these lines, each with a line feed (`join_header`, `join_putLine`,
`join_footer`). -/

namespace CircuitPicture.Picture

def braced (text : String) : String := "\x7b" ++ text ++ "\x7d"

def command (name argument : String) : String := "\\" ++ name ++ braced argument

def pair (x y : Float) : String :=
  "(" ++ Decimal.coordinateText x ++ ", " ++ Decimal.coordinateText y ++ ")"

def putText (names : BoxNames) (p : Placement Float) : String :=
  "\\put" ++ pair p.position.x p.position.y ++
    braced (command "usebox" ("\\" ++ names.name p.primitive))

/-- The lines that open the document around a picture, if there is one. -/
def documentLines (settings : PictureSettings) : List String :=
  if settings.standalone then
    [command "documentclass" "standalone"] ++ (settings.preamble.map (command "input")).toList ++
      [command "begin" "document"]
  else []

/-- The lines in front of the placements of a picture with these bounds. -/
def headLines (settings : PictureSettings) (b : Bounds Float) : List String :=
  documentLines settings ++
    ["\\setlength" ++ braced "\\unitlength" ++ braced settings.unitLength,
      command "begin" "picture" ++ pair b.width b.height ++
        "(" ++ Decimal.plainText b.low.x ++ ", " ++ Decimal.plainText b.low.y ++ ")"]

/-- The lines behind the placements. -/
def footLines (settings : PictureSettings) : List String :=
  [command "end" "picture"] ++ if settings.standalone then [command "end" "document"] else []

/-- Lines as text, each with a line feed at its end. -/
def unlines (lines : List String) : String := String.join (lines.map fun line => line ++ "\n")

theorem unlines_append (ls ms : List String) : unlines (ls ++ ms) = unlines ls ++ unlines ms := by
  rw [unlines, List.map_append, String.join_append]
  rfl

theorem unlines_singleton (line : String) : unlines [line] = line ++ "\n" := by
  simp [unlines]

theorem join_documentHead (settings : PictureSettings) :
    String.join ((documentHead settings).map String.join) = unlines (documentLines settings) := by
  obtain ⟨unitLength, standalone, preamble⟩ := settings
  cases standalone with
  | false => rfl
  | true =>
    cases preamble with
    | none => rfl
    | some file =>
      simp [documentHead, documentLines, unlines, command, braced, ← String.toList_inj]

theorem join_unitLine (settings : PictureSettings) :
    String.join (unitLine settings) =
      "\\setlength" ++ braced "\\unitlength" ++ braced settings.unitLength ++ "\n" := by
  simp [unitLine, braced, ← String.toList_inj]

theorem join_beginLine (b : Bounds Float) : String.join (beginLine b) =
    command "begin" "picture" ++ pair b.width b.height ++
      "(" ++ Decimal.plainText b.low.x ++ ", " ++ Decimal.plainText b.low.y ++ ")" ++ "\n" := by
  simp [beginLine, command, braced, pair, ← String.toList_inj]

theorem join_header (settings : PictureSettings) (b : Bounds Float) :
    String.join ((header settings b).map String.join) = unlines (headLines settings b) := by
  rw [header, List.map_append, String.join_append, join_documentHead, headLines, unlines_append]
  simp only [unlines, List.map_cons, List.map_nil, join_unitLine, join_beginLine]

theorem join_putLine (names : BoxNames) (p : Placement Float) :
    String.join (putLine names p) = putText names p ++ "\n" := by
  simp [putLine, putText, command, braced, pair, ← String.toList_inj]

theorem join_footer (settings : PictureSettings) :
    String.join ((footer settings).map String.join) = unlines (footLines settings) := by
  cases h : settings.standalone <;> simp [footer, footLines, unlines, command, braced, h]

end CircuitPicture.Picture
