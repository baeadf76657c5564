import CircuitPicture.Layout
import CircuitPicture.IoError

/-! # Exporters

An exporter receives a picture: its bounds, then each placement, then the end. It keeps a state of
its own, which a failing call also leaves behind. -/

namespace CircuitPicture

inductive Phase where
  | ready
  | opened
  | closed
deriving DecidableEq, Repr

inductive ExportCall where
  | start
  | place
  | finish
deriving DecidableEq, Repr

inductive ExportError where
  | outOfTurn (call : ExportCall) (phase : Phase)
  | refused (message : String)
  | io (error : IoError)
deriving DecidableEq, Repr

namespace Phase

def name : Phase → String
  | ready => "Ready"
  | opened => "Open"
  | closed => "Closed"

end Phase

namespace ExportCall

def description : ExportCall → String
  | start => "begin"
  | place => "place a primitive"
  | finish => "finish"

def phase : ExportCall → Phase
  | start => .ready
  | place => .opened
  | finish => .opened

end ExportCall

namespace ExportError

def message : ExportError → String
  | outOfTurn call phase =>
    "Render error: cannot " ++ call.description ++ " while the picture is " ++ phase.name
  | refused message => "Render error: " ++ message
  | io error => "I/O error: " ++ error.message

def cause? : ExportError → Option IoError
  | io error => some error
  | _ => none

end ExportError

/-- Calls on an exporter with state `σ`, which may fail but keep the state. -/
abbrev ExportM (σ : Type) := ExceptT ExportError (StateM σ)

structure Exporter (σ : Type) where
  start : Bounds Float → ExportM σ Unit
  place : Placement Float → ExportM σ Unit
  finish : ExportM σ Unit

namespace Exporter

variable {σ : Type}

/-- Sends a layout to the exporter; the first failing call ends it. -/
def exportLayout (exporter : Exporter σ) (layout : Layout) : ExportM σ Unit := do
  exporter.start layout.bounds
  layout.placements.forM exporter.place
  exporter.finish

end Exporter

end CircuitPicture
