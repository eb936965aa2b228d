import Tunebook.Word

namespace Tunebook

inductive Letter where
  | c | d | e | f | g | a | b
deriving DecidableEq

namespace Letter

def all : List Letter :=
  [c, d, e, f, g, a, b]

/-- Semitones above the C of the same octave. -/
def semitone : Letter → Nat
  | c => 0
  | d => 2
  | e => 4
  | f => 5
  | g => 7
  | a => 9
  | b => 11

def upper : Letter → Char
  | c => 'C'
  | d => 'D'
  | e => 'E'
  | f => 'F'
  | g => 'G'
  | a => 'A'
  | b => 'B'

def lower : Letter → Char
  | c => 'c'
  | d => 'd'
  | e => 'e'
  | f => 'f'
  | g => 'g'
  | a => 'a'
  | b => 'b'

def ofChar? (x : Char) : Option Letter :=
  all.find? fun l => l.upper == x || l.lower == x

end Letter

/-- A letter as it stands in a text: lower case is one octave above upper case. -/
structure NoteLetter where
  letter : Letter
  raised : Bool
deriving DecidableEq

namespace NoteLetter

def char (n : NoteLetter) : Char :=
  if n.raised then n.letter.lower else n.letter.upper

def octave (n : NoteLetter) : Int8 :=
  if n.raised then 1 else 0

def ofChar? (x : Char) : Option NoteLetter :=
  (Letter.ofChar? x).map fun l => ⟨l, l.lower == x⟩

end NoteLetter

/-- Octave 0 starts at middle C; the accidental counts semitones. -/
structure Pitch where
  letter : Letter
  octave : Int8
  accidental : Int8
deriving DecidableEq

namespace Pitch

/-- The same line of the staff, whatever the accidental. -/
def alike (p q : Pitch) : Bool :=
  p.letter == q.letter && p.octave == q.octave

def shiftAccidental? (p : Pitch) (semitones : Int8) : Option Pitch :=
  (Word.fitSigned8 (p.accidental.toInt + semitones.toInt)).map fun v => { p with accidental := v }

def shiftOctave? (p : Pitch) (octaves : Int8) : Option Pitch :=
  (Word.fitSigned8 (p.octave.toInt + octaves.toInt)).map fun v => { p with octave := v }

/-- The MIDI key, 60 for middle C, held to the keys there are. -/
def midiKey (p : Pitch) : Nat :=
  min 127 (p.letter.semitone + (p.octave.toInt + 5) * 12 + p.accidental.toInt).toNat

def sharpsAndFlats (v : Int8) : List Char :=
  if v = 2 then ['^', '^']
  else if v = 1 then ['^']
  else if v = -1 then ['_']
  else if v = -2 then ['_', '_']
  else []

def marked (letter : Letter) (octave : Int8) : List Char :=
  let o := octave.toInt
  if 1 ≤ o then letter.lower :: List.replicate (o - 1).toNat '\''
  else letter.upper :: List.replicate (-o).toNat ','

def chars (p : Pitch) : List Char :=
  sharpsAndFlats p.accidental ++ marked p.letter p.octave

def text (p : Pitch) : String :=
  String.ofList p.chars

end Pitch

end Tunebook
