namespace Tunebook

structure Position where
  line : Nat
  column : Nat
deriving DecidableEq

namespace Position

def first : Position := ⟨1, 1⟩

def advance (p : Position) (c : Char) : Position :=
  if c = '\n' then ⟨p.line + 1, 1⟩ else ⟨p.line, p.column + 1⟩

def after (before : List Char) : Position :=
  before.foldl advance first

def text (p : Position) : String :=
  "line " ++ toString p.line ++ ", column " ++ toString p.column

end Position

/-- The characters that start before the byte offset. -/
def takeBytes : Nat → List Char → List Char
  | 0, _ => []
  | _, [] => []
  | n, c :: cs => c :: takeBytes (n - c.utf8Size) cs

/-- The position of a byte offset; offsets past the end count as the end. -/
def Position.locate (source : List Char) (offset : Nat) : Position :=
  after (takeBytes offset source)

structure Place where
  offset : Nat
  position : Position
deriving DecidableEq

namespace Place

def first : Place := ⟨0, Position.first⟩

def advance (p : Place) (c : Char) : Place :=
  ⟨p.offset + c.utf8Size, p.position.advance c⟩

def advanceAll (p : Place) (cs : List Char) : Place :=
  cs.foldl advance p

end Place

end Tunebook
