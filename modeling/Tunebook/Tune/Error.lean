import Tunebook.Token
import Tunebook.Token.Error

namespace Tunebook

inductive Expected where
  | music
  | nonZeroDenominator
  | chordEnd
  | chordNote
  | noteOrChordEnd
  | tupletNotesNotTuplet
  | tupletNotesBeforeBarline
  | tupletNotes
  | repeatEndBeforeStart
  | repeatEndOfFirstEnding
  | closedFirstEnding
  | barlineBeforeFirstEnding
deriving DecidableEq

def Expected.text : Expected → String
  | music => "a note, rest, chord, tuplet or bar line"
  | nonZeroDenominator => "a non-zero denominator"
  | chordEnd => "']' to close the chord"
  | chordNote => "at least one note in the chord"
  | noteOrChordEnd => "a note or ']'"
  | tupletNotesNotTuplet => "the notes of the open tuplet, not a nested tuplet"
  | tupletNotesBeforeBarline => "the remaining notes of the open tuplet before a bar line"
  | tupletNotes => "the remaining notes of the open tuplet"
  | repeatEndBeforeStart => "':|' to close the open repeat before another '|:'"
  | repeatEndOfFirstEnding => "':|' to close the first ending"
  | closedFirstEnding => "'[2' only after a first ending closed by ':|'"
  | barlineBeforeFirstEnding => "a bar line closing the current ending before '[1'"

inductive FieldFault where
  | notUnsigned
  | notFraction
  | badNumerator
  | badDenominator
  | zeroDenominator
  | notMeter
  | zeroMeter
  | notTempo
  | badRate
  | tempoTooLarge
  | zeroTempo
  | noVoiceName
deriving DecidableEq

def FieldFault.reason : FieldFault → String
  | notUnsigned => "expected an unsigned integer"
  | notFraction => "expected a fraction such as 1/8"
  | badNumerator => "numerator is not a number"
  | badDenominator => "denominator is not a number"
  | zeroDenominator => "denominator must not be zero"
  | notMeter => "expected n/d, C or C|"
  | zeroMeter => "meter must not be zero"
  | notTempo => "expected bpm or n/d=bpm"
  | badRate => "beats per minute is not a number"
  | tempoTooLarge => "tempo is too large"
  | zeroTempo => "tempo must be positive"
  | noVoiceName => "expected a voice name"

inductive TuneError where
  | lex (error : LexError)
  | unexpectedToken (found : Token) (position : Position) (expected : Expected)
  | unexpectedEnd (expected : Expected)
  | invalidField (kind : FieldKind) (value : String) (fault : FieldFault)
  | invalidKey (code : String)
  | danglingAccidental (position : Position)
  | mixedOctave (position : Position)
  | lengthTooLong (position : Position)
  | tooManyTicks
  /-- A note is marked higher than the highest octave there is. -/
  | octaveTooHigh (position : Position)
deriving DecidableEq

def TuneError.message : TuneError → String
  | lex error => error.message
  | unexpectedToken found position expected =>
    "unexpected '" ++ found.text ++ "' at " ++ position.text ++ ": expected " ++ expected.text
  | unexpectedEnd expected => "unexpected end of input: expected " ++ expected.text
  | invalidField kind value fault =>
    "invalid " ++ kind.char.toString ++ " field '" ++ value ++ "': " ++ fault.reason
  | invalidKey code => "invalid key signature '" ++ code ++ "'"
  | danglingAccidental position => "accidental at " ++ position.text ++ " is not followed by a note"
  | mixedOctave position =>
    "note at " ++ position.text ++ " is shifted both up and down an octave"
  | lengthTooLong position => "length at " ++ position.text ++ " does not fit in 32 bits"
  | tooManyTicks => "note lengths do not fit in 32-bit ticks"
  | octaveTooHigh position => "note at " ++ position.text ++ " is above the highest octave"

end Tunebook
