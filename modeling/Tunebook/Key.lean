import Tunebook.Pitch
import Tunebook.Text.Blank

namespace Tunebook

structure KeySignature where
  code : String
  /-- The altered letters, in the order in which the signature adds them. -/
  letters : List Letter
  shift : Int8
deriving DecidableEq

namespace KeySignature

def sharpOrder : List Letter :=
  [.f, .c, .g, .d, .a, .e, .b]

def flatOrder : List Letter :=
  [.b, .e, .a, .d, .g, .c, .f]

/-- The signature of `count` sharps, or of flats when `count` is negative. -/
def ofCount (code : String) (count : Int) : KeySignature :=
  if 0 < count then ⟨code, sharpOrder.take count.toNat, 1⟩
  else if count < 0 then ⟨code, flatOrder.take (-count).toNat, -1⟩
  else ⟨code, [], 0⟩

def cMajor : KeySignature :=
  ofCount "C" 0

/-- Sharps, or flats when negative, of every major and minor key. -/
def counts : List (String × Int) :=
  [("C", 0), ("G", 1), ("D", 2), ("A", 3), ("E", 4), ("B", 5), ("F#", 6), ("C#", 7),
   ("F", -1), ("Bb", -2), ("Eb", -3), ("Ab", -4), ("Db", -5), ("Gb", -6), ("Cb", -7),
   ("Am", 0), ("Em", 1), ("Bm", 2), ("F#m", 3), ("C#m", 4), ("G#m", 5), ("D#m", 6), ("A#m", 7),
   ("Dm", -1), ("Gm", -2), ("Cm", -3), ("Fm", -4), ("Bbm", -5), ("Ebm", -6), ("Abm", -7)]

/-- The usual spelling: a capital root, the rest in lower case. Codes are plain ASCII, and no
other character has one of theirs as its capital or small form. -/
def spelling : List Char → List Char
  | [] => []
  | root :: rest => root.toUpper :: rest.map Char.toLower

/-- The signature of a key code, in any case and with blanks around it. -/
def ofCode? (code : String) : Option KeySignature :=
  let name := String.ofList (spelling (Text.trim code.toList))
  (counts.find? fun entry => entry.1 == name).map fun entry => ofCount name entry.2

def alteration? (k : KeySignature) (l : Letter) : Option Int8 :=
  if l ∈ k.letters then some k.shift else none

end KeySignature

end Tunebook
