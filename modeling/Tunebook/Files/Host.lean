namespace Tunebook

inductive FileError where
  | notFound
  | notADirectory
  | isADirectory
  | nameTooLong
  /-- The path has a character that no path can have. -/
  | nulInPath
  | notText
  /-- Any other failure, in the words of the machine. -/
  | other (text : String)
deriving DecidableEq

def FileError.text : FileError → String
  | notFound => "No such file or directory (os error 2)"
  | notADirectory => "Not a directory (os error 20)"
  | isADirectory => "Is a directory (os error 21)"
  | nameTooLong => "File name too long (os error 36)"
  | nulInPath => "file name contained an unexpected NUL byte"
  | notText => "stream did not contain valid UTF-8"
  | other text => text

structure Host (m : Type → Type) where
  /-- There is a file or directory at the path. -/
  isPresent : String → m Bool
  read : String → m (Except FileError ByteArray)
  write : String → ByteArray → m (Except FileError Unit)
  print : String → m Unit
  complain : String → m Unit

def Host.readText {m : Type → Type} [Monad m] (host : Host m) (path : String) :
    m (Except FileError String) := do
  match ← host.read path with
  | .error e => return .error e
  | .ok bytes =>
    match String.fromUTF8? bytes with
    | none => return .error .notText
    | some text => return .ok text

/-- What a program finds set when it starts. -/
structure Environment where
  /-- The directory that the machine has for the user, if it has one. -/
  account : Option String
  assignments : List (String × String)

def Environment.lookup? (env : Environment) (name : String) : Option String :=
  env.assignments.lookup name

end Tunebook
