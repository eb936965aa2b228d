import Tunebook.Position
import Tunebook.Text.Quoted

namespace Tunebook

inductive LexFault where
  | unsizedTuplet
  | tupletTooLarge
  | tooSharp
  | tooFlat
  | tooManyNaturals
  | mixedOctaveMarks
  | tooManyOctaveMarks
  | numberTooLarge
  | unknown
deriving DecidableEq

def LexFault.reason : LexFault → String
  | unsizedTuplet => "tuplet marker without a following digit"
  | tupletTooLarge => "tuplet size out of range"
  | tooSharp => "note is way too sharp"
  | tooFlat => "note is way too flat"
  | tooManyNaturals => "too many naturals"
  | mixedOctaveMarks => "cannot take one note both an octave up and down"
  | tooManyOctaveMarks => "too many octave marks"
  | numberTooLarge => "number out of range"
  | unknown => "bad tokens, check your grammar and syntax"

structure LexError where
  fault : LexFault
  /-- The text from the start of the token that could not be read, cut to a preview. -/
  remainder : List Char
  position : Position
deriving DecidableEq

namespace LexError

def previewLength : Nat := 32

def preview (cs : List Char) : List Char :=
  match cs.drop previewLength with
  | [] => cs
  | _ => cs.take previewLength ++ ['.', '.', '.']

/-- A reason, where it arose and the text there. -/
def describe (reason : String) (position : Position) (remainder : List Char) : String :=
  reason ++ " at " ++ position.text ++ ": " ++ String.ofList (Text.quote remainder)

def message (e : LexError) : String :=
  describe e.fault.reason e.position e.remainder

end LexError

end Tunebook
