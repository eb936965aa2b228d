import Tunebook.Feedback
import Tunebook.Midi.File
import Tunebook.Playback.Resolution
import Tunebook.Tune.Reader

namespace Tunebook

structure Compilation where
  tune : Tune
  feedback : List Feedback
  ticksPerQuarter : UInt32
  events : List NoteEvent

namespace Compilation

def ofTune (tune : Tune) : Except TuneError Compilation :=
  match tune.resolution? with
  | none => .error .tooManyTicks
  | some ticks =>
    match tune.events? ticks with
    | none => .error .tooManyTicks
    | some events => .ok ⟨tune, tune.feedback, ticks, events⟩

/-- Reads a tune and plays it. Diagnostics stand in the way of neither. -/
def ofText (text : String) : Except TuneError Compilation :=
  match Tune.read text with
  | .error e => .error e
  | .ok tune => ofTune tune

def midi (c : Compilation) (params : Midi.Params) : List UInt8 :=
  Midi.file c.events c.ticksPerQuarter c.tune.tempo params

end Compilation

end Tunebook
