import Tunebook.Tune.Basic

namespace Tunebook

structure NoteEvent where
  /-- The pitch to sound, with the accidental in force. -/
  pitch : Pitch
  voice : Nat
  start : UInt32
  duration : UInt32
deriving DecidableEq

structure Clock where
  ticksPerQuarter : UInt32
  unitLength : Duration

/-- The ticks of a length inside a tuplet of that scale. Each factor is applied in turn and
rounds down. -/
def Clock.ticks? (c : Clock) (scale d : Duration) : Option UInt32 := do
  let quarters ← d.ticks? c.ticksPerQuarter.toUInt64
  let whole ← Word.fit64 (quarters.toNat * 4)
  let written ← c.unitLength.ticks? whole
  let scaled ← scale.ticks? written
  Word.fit32 scaled.toNat

abbrev Scope := Letter → Option Int8

namespace Scope

def record (s : Scope) (letter : Letter) (value : Int8) : Scope :=
  fun l => if l = letter then some value else s l

def resolve (s : Scope) (p : Pitch) : Pitch :=
  match s p.letter with
  | none => p
  | some value => { p with accidental := value }

end Scope

structure Playhead where
  tick : UInt32
  scope : Scope

def Playhead.advance? (p : Playhead) (ticks : UInt32) : Option Playhead :=
  (Word.fit32 (p.tick.toNat + ticks.toNat)).map fun tick => { p with tick }

structure Part where
  clock : Clock
  voice : Nat

namespace Part

def sound (part : Part) (p : Playhead) (ticks : UInt32) (pitch : Pitch) : NoteEvent :=
  ⟨p.scope.resolve pitch, part.voice, p.tick, ticks⟩

mutual

/-- The events of one element. The notes of a chord start together and last as long as the
first. -/
def element? (part : Part) (scale : Duration) (p : Playhead) :
    Element → Option (List NoteEvent × Playhead)
  | .note n => do
    let ticks ← part.clock.ticks? scale n.duration
    let next ← p.advance? ticks
    return ([part.sound p ticks n.pitch], next)
  | .rest d => do
    let ticks ← part.clock.ticks? scale d
    let next ← p.advance? ticks
    return ([], next)
  | .accidental pitch value => some ([], { p with scope := p.scope.record pitch.letter value })
  | .chord notes => do
    let ticks ← part.clock.ticks? scale (chordDuration notes)
    let next ← p.advance? ticks
    return (notes.map fun n => part.sound p ticks n.pitch, next)
  | .tuplet size elements _ => elements? part (tupletScale size) p elements

def elements? (part : Part) (scale : Duration) (p : Playhead) :
    List Element → Option (List NoteEvent × Playhead)
  | [] => some ([], p)
  | e :: es => do
    let (first, p) ← element? part scale p e
    let (others, p) ← elements? part scale p es
    return (first ++ others, p)

end

/-- Bars from a tick on. Each of them begins with the accidentals of the key. -/
def bars? (part : Part) (key : KeySignature) (tick : UInt32) : List Bar → Option (List NoteEvent)
  | [] => some []
  | b :: bs => do
    let (first, p) ← part.elements? .unit ⟨tick, key.alteration?⟩ b
    let others ← bars? part key p.tick bs
    return first ++ others

end Part

/-- Every note of the tune, by voice and then in the order played; nothing when a voice runs past
the last tick of 32 bits. -/
def Tune.events? (t : Tune) (ticksPerQuarter : UInt32) : Option (List NoteEvent) := do
  let voices ← t.voices.zipIdx.mapM fun (v, index) =>
    Part.bars? ⟨⟨ticksPerQuarter, t.defaultLength⟩, index⟩ t.key 0 v.played
  return voices.flatten

end Tunebook
