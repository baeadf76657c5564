import CircuitPicture.Config
import CircuitPicture.Decimal.Text
import CircuitPicture.Exporter
import CircuitPicture.Sink

/-! # LaTeX pictures

A picture is a `picture` environment with one `\put` command for each placement, on its own or
inside a document. It is written line by line, and each line in several pieces, to a sink, which may
fail at any byte. -/

namespace CircuitPicture

namespace Picture

/-- A line in the pieces in which it reaches the sink, its line feed included. -/
abbrev Pieces := List String

def documentHead (settings : PictureSettings) : List Pieces :=
  if settings.standalone then
    [["\\documentclass\x7bstandalone\x7d\n"]] ++
      (settings.preamble.map fun file => ["\\input\x7b", file, "\x7d\n"]).toList ++
      [["\\begin\x7bdocument\x7d\n"]]
  else []

def unitLine (settings : PictureSettings) : Pieces :=
  ["\\setlength\x7b\\unitlength\x7d\x7b", settings.unitLength, "\x7d\n"]

def beginLine (b : Bounds Float) : Pieces :=
  ["\\begin\x7bpicture\x7d(", Decimal.coordinateText b.width, ", ",
    Decimal.coordinateText b.height, ")(", Decimal.plainText b.low.x, ", ",
    Decimal.plainText b.low.y, ")\n"]

def putLine (names : BoxNames) (p : Placement Float) : Pieces :=
  ["\\put(", Decimal.coordinateText p.position.x, ", ", Decimal.coordinateText p.position.y,
    ")\x7b\\usebox\x7b\\", names.name p.primitive, "\x7d\x7d\n"]

def header (settings : PictureSettings) (b : Bounds Float) : List Pieces :=
  documentHead settings ++ [unitLine settings, beginLine b]

def footer (settings : PictureSettings) : List Pieces :=
  ["\\end\x7bpicture\x7d\n"] ::
    if settings.standalone then [["\\end\x7bdocument\x7d\n"]] else []

end Picture

structure Canvas (σ : Type) where
  phase : Phase
  sink : σ

namespace Canvas

variable {σ : Type}

def onSink (sink : σ) : Canvas σ := ⟨.ready, sink⟩

def onSinkDo (action : ExceptT IoError (StateM σ) Unit) : ExportM (Canvas σ) Unit
  | ⟨phase, sink⟩ =>
    let (result, sink) := action sink
    (result.mapError .io, ⟨phase, sink⟩)

def writeLines (writer : Writer σ) (lines : List Picture.Pieces) : ExportM (Canvas σ) Unit :=
  lines.forM fun line => line.forM fun piece => onSinkDo (writer.write piece)

def expect (call : ExportCall) : ExportM (Canvas σ) Unit := fun canvas =>
  (if canvas.phase = call.phase then .ok () else .error (.outOfTurn call canvas.phase), canvas)

def setPhase (phase : Phase) : ExportM (Canvas σ) Unit := fun canvas =>
  (.ok (), { canvas with phase := phase })

end Canvas

namespace Picture

variable {σ : Type}

/-- Writes a picture with these settings and box names. The phase changes only when every byte of
the call has been taken. -/
def exporter (writer : Writer σ) (settings : PictureSettings) (names : BoxNames) :
    Exporter (Canvas σ) where
  start bounds := do
    Canvas.expect .start
    Canvas.writeLines writer (header settings bounds)
    Canvas.setPhase .opened
  place placement := do
    Canvas.expect .place
    Canvas.writeLines writer [putLine names placement]
  finish := do
    Canvas.expect .finish
    Canvas.writeLines writer (footer settings)
    Canvas.onSinkDo writer.flush
    Canvas.setPhase .closed

/-- Writes the picture of a grid to a sink and gives the sink back. -/
def writeTo (writer : Writer σ) (config : Config) (grid : Grid) (sink : σ) :
    Except ExportError Unit × σ :=
  let (result, canvas) := (exporter writer config.picture config.names).exportLayout
    ⟨grid, config.vocabulary⟩ (.onSink sink)
  (result, canvas.sink)

def write (config : Config) (grid : Grid) (sink : Sink) : Except ExportError Unit × Sink :=
  writeTo Sink.writer config grid sink

def render (config : Config) (grid : Grid) : Except ExportError String :=
  match write config grid .unlimited with
  | (.error e, _) => .error e
  | (.ok (), sink) =>
    match String.fromUTF8? sink.received with
    | some text => .ok text
    | none => .error (.refused "invalid utf-8 sequence")

end Picture

end CircuitPicture
