import Tunebook.Text.Blank

namespace Tunebook.Path

/-- The parts between the slashes, empty ones included. -/
def parts (path : String) : List String :=
  (Text.splitAll '/' path.toList).map String.ofList

def isAbsolute (path : String) : Bool :=
  path.toList.head? == some '/'

/-- `path` as seen from `directory`. An absolute path is the same from everywhere. -/
def join (directory path : String) : String :=
  if isAbsolute path || directory.isEmpty then path
  else if directory.toList.getLast? == some '/' then directory ++ path
  else directory ++ "/" ++ path

/-- The text up to the last slash, that slash included, and the text after it. -/
def splitName (path : List Char) : List Char × List Char :=
  let name := (path.reverse.takeWhile (· != '/')).reverse
  (path.take (path.length - name.length), name)

/-- The parts `.` and `..` are directories and name no file. -/
def isName (part : List Char) : Bool :=
  part != [] && part != ['.'] && part != ['.', '.']

def fileName? (path : String) : Option String :=
  let name := (splitName path.toList).2
  if isName name then some (String.ofList name) else none

/-- The name before its last dot and the extension after it. A dot at the start of a name starts
no extension. -/
def splitExtension (name : List Char) : List Char × Option (List Char) :=
  let ext := (name.reverse.takeWhile (· != '.')).reverse
  let stem := name.take (name.length - ext.length - 1)
  if stem = [] then (name, none) else (stem, some ext)

/-- Puts `ext` in the place of the extension, if the path names a file. -/
def setExtension (path ext : List Char) : List Char :=
  let (before, name) := splitName path
  if isName name then before ++ (splitExtension name).1 ++ '.' :: ext else path

/-- Takes the extension off, but leaves its dot. -/
def dropExtension (path : List Char) : List Char :=
  let (before, name) := splitName path
  match splitExtension name with
  | (stem, some _) => if isName name then before ++ stem ++ ['.'] else path
  | (_, none) => path

def withExtension (path ext : String) : String :=
  String.ofList (setExtension (dropExtension path.toList) ext.toList)

end Tunebook.Path
