import Tunebook.Tune.Basic

namespace Tunebook.Resolution

def atLeastOne (n : UInt32) : UInt32 :=
  if n = 0 then 1 else n

mutual

/-- The denominators of an element, as one common multiple. A tuplet counts its own length and
all it holds. -/
def ofElement? : Element → Option UInt32
  | .note n => some n.duration.den
  | .rest d => some d.den
  | .accidental .. => some 1
  | .chord notes => some (chordDuration notes).den
  | .tuplet size elements notes =>
    match (Element.tuplet size elements notes).duration? with
    | none => none
    | some d => ofElements? (atLeastOne d.den) elements

def ofElements? (ticks : UInt32) : List Element → Option UInt32
  | [] => some ticks
  | e :: es =>
    match ofElement? e with
    | none => none
    | some n =>
      match lcm? ticks n with
      | none => none
      | some ticks => ofElements? ticks es

end

def ofBar? (b : Bar) : Option UInt32 :=
  ofElements? 1 b

end Tunebook.Resolution

namespace Tunebook.Tune

/-- Ticks per quarter note, if 32 bits are enough for them. -/
def resolution? (t : Tune) : Option UInt32 :=
  (t.voices.flatMap Voice.played).foldlM
    (fun ticks b => do
      let n ← Resolution.ofBar? b
      lcm? ticks n)
    (Resolution.atLeastOne t.defaultLength.den)

end Tunebook.Tune
