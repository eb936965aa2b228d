import Tunebook.Files.Host
import Tunebook.Files.Path

namespace Tunebook

inductive Entry where
  | directory
  | file (content : ByteArray)

/-- The names that lead from the root to an entry. -/
abbrev Location := List String

structure Disk where
  entries : List (Location × Entry)
  working : Location

namespace Disk

/-- The root is always there. -/
def entry? (d : Disk) (loc : Location) : Option Entry :=
  if loc.isEmpty then some .directory else d.entries.lookup loc

def set (d : Disk) (loc : Location) (e : Entry) : Disk :=
  { d with entries := (loc, e) :: d.entries.filter fun entry => entry.1 != loc }

def maxName : Nat := 255

def maxPath : Nat := 4095

inductive Target where
  | directory (loc : Location)
  | file (loc : Location) (content : ByteArray)
  /-- A name that its directory does not have. -/
  | absent (loc : Location)

/-- Walks from a directory. Empty parts and `.` stay where they are, `..` goes one up. -/
def walk (d : Disk) (here : Location) : List String → Except FileError Target
  | [] => .ok (.directory here)
  | part :: rest =>
    if part = "" ∨ part = "." then d.walk here rest
    else if part = ".." then d.walk here.dropLast rest
    else if maxName < part.utf8ByteSize then .error .nameTooLong
    else
      let there := here ++ [part]
      match d.entry? there with
      | some .directory => d.walk there rest
      | some (.file content) =>
        if rest.isEmpty then .ok (.file there content) else .error .notADirectory
      | none => if rest.isEmpty then .ok (.absent there) else .error .notFound

def start (d : Disk) (path : String) : Location :=
  if Path.isAbsolute path then [] else d.working

def checkPath (path : String) : Except FileError Unit :=
  if path.toList.contains '\x00' then .error .nulInPath
  else if path.isEmpty then .error .notFound
  else if maxPath < path.utf8ByteSize then .error .nameTooLong
  else .ok ()

def find (d : Disk) (path : String) : Except FileError Target :=
  match checkPath path with
  | .error e => .error e
  | .ok () => d.walk (d.start path) (Path.parts path)

def isPresent (d : Disk) (path : String) : Bool :=
  match d.find path with
  | .ok (.directory _) | .ok (.file ..) => true
  | _ => false

def read (d : Disk) (path : String) : Except FileError ByteArray :=
  match d.find path with
  | .error e => .error e
  | .ok (.directory _) => .error .isADirectory
  | .ok (.absent _) => .error .notFound
  | .ok (.file _ content) => .ok content

/-- What a path that ends in a slash comes to. It asks for a directory, so no file can be written
there, but the directories before its last name have to be found first. -/
def slashError (d : Disk) (path : String) : FileError :=
  let named := ((Path.parts path).reverse.dropWhile (· == "")).reverse
  match d.walk (d.start path) named.dropLast with
  | .error e => e
  | .ok (.directory _) => .isADirectory
  | .ok (.file ..) => .notADirectory
  | .ok (.absent _) => .notFound

/-- Writes a whole file, a new one if its directory has none of the name. -/
def write (d : Disk) (path : String) (content : ByteArray) : Except FileError Disk :=
  match checkPath path with
  | .error e => .error e
  | .ok () =>
    if path.toList.getLast? == some '/' then .error (d.slashError path)
    else
      match d.find path with
      | .error e => .error e
      | .ok (.directory _) => .error .isADirectory
      | .ok (.file loc _) | .ok (.absent loc) => .ok (d.set loc (.file content))

def locationOf (d : Disk) (path : String) : Location :=
  (Path.parts path).foldl
    (fun here part =>
      if part = "" ∨ part = "." then here
      else if part = ".." then here.dropLast
      else here ++ [part])
    (d.start path)

def makeDirectories (d : Disk) (loc : Location) : Disk :=
  (List.range (loc.length + 1)).foldl
    (fun d n =>
      match d.entry? (loc.take n) with
      | some _ => d
      | none => d.set (loc.take n) .directory)
    d

def place (d : Disk) (path : String) (e : Entry) : Disk :=
  let loc := d.locationOf path
  (d.makeDirectories loc.dropLast).set loc e

end Disk

structure Machine where
  disk : Disk
  output : String
  errors : String

def Machine.host : Host (StateM Machine) where
  isPresent path := do return (← get).disk.isPresent path
  read path := do return (← get).disk.read path
  write path content := do
    let machine ← get
    match machine.disk.write path content with
    | .error e => return .error e
    | .ok disk =>
      set { machine with disk }
      return .ok ()
  print text := modify fun machine => { machine with output := machine.output ++ text }
  complain text := modify fun machine => { machine with errors := machine.errors ++ text }

end Tunebook
