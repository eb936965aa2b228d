import Tunebook.Pitch
import Tunebook.Position
import Tunebook.Text.Numeral

namespace Tunebook

inductive FieldKind where
  | index | title | composer | key | defaultLength | meter | tempo | voice
deriving DecidableEq

namespace FieldKind

def all : List FieldKind :=
  [index, title, composer, key, defaultLength, meter, tempo, voice]

def char : FieldKind → Char
  | index => 'X'
  | title => 'T'
  | composer => 'C'
  | key => 'K'
  | defaultLength => 'L'
  | meter => 'M'
  | tempo => 'Q'
  | voice => 'V'

def ofChar? (c : Char) : Option FieldKind :=
  all.find? fun kind => kind.char == c

end FieldKind

inductive Barline where
  | single | double | thickThin | thinThick | repeatStart | repeatEnd
deriving DecidableEq

def Barline.chars : Barline → List Char
  | single => ['|']
  | double => ['|', '|']
  | thickThin => ['[', '|']
  | thinThick => ['|', ']']
  | repeatStart => ['|', ':']
  | repeatEnd => [':', '|']

inductive Ending where
  | first | second
deriving DecidableEq

def Ending.chars : Ending → List Char
  | first => ['[', '1']
  | second => ['[', '2']

inductive Token where
  /-- A header field; the value has no comment and no blanks around it. -/
  | field (kind : FieldKind) (value : String)
  | barline (line : Barline)
  | ending (which : Ending)
  | tuplet (size : UInt32)
  /-- Semitones up or down; 0 is a natural. -/
  | accidental (shift : Int8)
  | octave (marks : Int8)
  | letter (note : NoteLetter)
  | rest
  | digits (value : UInt32)
  | fractionBar
  | chordStart
  | chordEnd
  | comment (text : String)
deriving DecidableEq

namespace Token

def accidentalChars (shift : Int8) : List Char :=
  match Pitch.sharpsAndFlats shift with
  | [] => ['=']
  | signs => signs

def octaveChars (marks : Int8) : List Char :=
  List.replicate marks.toInt.natAbs (if 0 < marks then '\'' else ',')

def chars : Token → List Char
  | field kind value => kind.char :: ':' :: value.toList
  | barline line => line.chars
  | ending which => which.chars
  | tuplet size => '(' :: Text.decimal size.toNat
  | accidental shift => accidentalChars shift
  | octave marks => octaveChars marks
  | letter note => [note.char]
  | rest => ['z']
  | digits value => Text.decimal value.toNat
  | fractionBar => ['/']
  | chordStart => ['[']
  | chordEnd => [']']
  | comment text => '%' :: text.toList

def text (t : Token) : String :=
  String.ofList t.chars

end Token

/-- A token, the characters it was read from and where they start. -/
structure PlacedToken where
  token : Token
  lexeme : List Char
  place : Place
deriving DecidableEq

def PlacedToken.position (t : PlacedToken) : Position :=
  t.place.position

end Tunebook
