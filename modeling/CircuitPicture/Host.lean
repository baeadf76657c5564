import CircuitPicture.FileAccess
import CircuitPicture.FileTree

/-! # Hosts

What a program finds around it, as a plain value: the files, the directory it works in, and the
bytes it has printed. -/

namespace CircuitPicture

structure Host where
  tree : FileTree
  /-- Where relative paths start. -/
  directory : Place
  printed : ByteArray

inductive Target where
  | file (place : Place)
  | device (d : Device)
deriving DecidableEq, Repr

namespace Host

def isPresent (h : Host) (path : String) : Bool := (h.tree.find h.directory path).isOk

/-- The content of a file. Devices are at their end at once, which is not true of `Device.full`: the
zero bytes that it gives without an end are left out. -/
def read (h : Host) (path : String) : Except IoError ByteArray :=
  match h.tree.find h.directory path with
  | .ok (.file content) => .ok content
  | .ok .directory => .error .isDirectory
  | .ok (.device _) => .ok .empty
  | .error e => .error e

/-- Opens a file for writing, which is empty then. A device stays what it is. -/
def create (h : Host) (path : String) : Except IoError Target × Host :=
  match h.tree.findForWriting h.directory path with
  | .error e => (.error e, h)
  | .ok place =>
    match h.tree.lookup? place with
    | some (.device d) => (.ok (.device d), h)
    | _ => (.ok (.file place), { h with tree := h.tree.put place (.file .empty) })

def append (h : Host) (target : Target) (bytes : ByteArray) : Except IoError Unit × Host :=
  match target with
  | .device .null => (.ok (), h)
  | .device .full => (.error .noSpace, h)
  | .device .output => (.ok (), { h with printed := h.printed ++ bytes })
  | .file place =>
    match h.tree.lookup? place with
    | some (.file content) =>
      (.ok (), { h with tree := h.tree.put place (.file (content ++ bytes)) })
    | _ => (.error .notFound, h)

def files : FileAccess (StateM Host) Target where
  isPresent path := fun h => (h.isPresent path, h)
  read path := fun h => (h.read path, h)
  create path := fun h => h.create path
  append target bytes := fun h => h.append target bytes
  standardOutput := .device .output

end Host

end CircuitPicture
