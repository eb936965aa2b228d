import Tunebook.Midi.Quantity
import Tunebook.Playback.Event

namespace Tunebook.Midi

structure Params where
  velocity : UInt8
  channel : UInt8
  program : Option UInt8
  /-- Takes the place of the tune's own tempo. -/
  tempo : Option UInt32
deriving DecidableEq

def Params.standard : Params :=
  ⟨80, 0, none, none⟩

inductive Message where
  | tempo (microseconds : Nat)
  | program (channel number : UInt8)
  | noteOff (channel key : UInt8)
  | noteOn (channel key velocity : UInt8)
deriving DecidableEq

namespace Message

/-- The order at one tick: setup first, then releases, then new notes. -/
def rank : Message → Nat
  | tempo _ | program .. => 0
  | noteOff .. => 1
  | noteOn .. => 2

def bytes : Message → List UInt8
  | tempo microseconds => [0xff, 0x51] ++ quantity 3 ++ bigEndian 3 microseconds
  | program channel number => [0xc0 ||| channel, number]
  | noteOff channel key => [0x80 ||| channel, key, 0]
  | noteOn channel key velocity => [0x90 ||| channel, key, velocity]

end Message

structure TimedMessage where
  tick : UInt32
  message : Message
deriving DecidableEq

def TimedMessage.before (a b : TimedMessage) : Bool :=
  a.tick < b.tick || (a.tick == b.tick && a.message.rank ≤ b.message.rank)

/-- The largest number of ticks per quarter note that a file header holds. -/
def maxDivision : UInt32 := 0x7fff

/-- Ticks per quarter note of a file whose tune asks for more. -/
def fallbackDivision : UInt32 := 480

def division (ticksPerQuarter : UInt32) : UInt32 :=
  if ticksPerQuarter ≤ maxDivision then (if ticksPerQuarter = 0 then 1 else ticksPerQuarter)
  else fallbackDivision

/-- A tick of the tune as a tick of the file, rounded to the nearest. -/
def rescale (ticksPerQuarter tick : UInt32) : UInt32 :=
  if ticksPerQuarter ≤ maxDivision then tick
  else
    let quarter := ticksPerQuarter.toNat
    UInt32.ofNat ((tick.toNat * fallbackDivision.toNat + quarter / 2) / quarter)

def addTicks (a b : UInt32) : UInt32 :=
  UInt32.ofNat (min (a.toNat + b.toNat) (UInt32.size - 1))

/-- The length of a beat; a tempo of 0 counts as 1. -/
def microseconds (tempo : UInt32) : Nat :=
  60000000 / max 1 tempo.toNat

/-- Data bytes have seven bits. A velocity of 0 would be a release, so it counts as 1. -/
def loudness (velocity : UInt8) : UInt8 :=
  UInt8.ofNat (max 1 (min 127 velocity.toNat))

def setup (params : Params) (tempo : UInt32) (track : Nat) : List TimedMessage :=
  (if track = 0 then [⟨0, .tempo (microseconds (params.tempo.getD tempo))⟩] else []) ++
    match params.program with
    | none => []
    | some program => [⟨0, .program (params.channel &&& 0x0f) (program &&& 0x7f)⟩]

/-- A note and its release, which comes at least one tick later. -/
def strike (params : Params) (ticksPerQuarter : UInt32) (e : NoteEvent) : List TimedMessage :=
  let channel := params.channel &&& 0x0f
  let key := UInt8.ofNat e.pitch.midiKey
  let start := rescale ticksPerQuarter e.start
  let stop := rescale ticksPerQuarter (addTicks e.start e.duration)
  let length := UInt32.ofNat (max 1 (stop.toNat - start.toNat))
  [⟨start, .noteOn channel key (loudness params.velocity)⟩,
   ⟨addTicks start length, .noteOff channel key⟩]

/-- The messages of a track in the order of the file. Notes without length are left out. -/
def track (params : Params) (ticksPerQuarter tempo : UInt32) (events : List NoteEvent)
    (number : Nat) : List TimedMessage :=
  let notes := events.filter fun e => e.voice == number && e.duration != 0
  (setup params tempo number ++ notes.flatMap (strike params ticksPerQuarter)).mergeSort
    TimedMessage.before

/-- Messages with the ticks between them, the last tick being `last`. -/
def deltas (last : UInt32) : List TimedMessage → List UInt8
  | [] => []
  | m :: ms => quantity (m.tick.toNat - last.toNat) ++ m.message.bytes ++ deltas m.tick ms

def endOfTrack : List UInt8 :=
  [0x00, 0xff, 0x2f, 0x00]

def headerTag : List UInt8 :=
  [0x4d, 0x54, 0x68, 0x64]

def trackTag : List UInt8 :=
  [0x4d, 0x54, 0x72, 0x6b]

def trackChunk (messages : List TimedMessage) : List UInt8 :=
  let data := deltas 0 messages ++ endOfTrack
  trackTag ++ bigEndian 4 data.length ++ data

def trackCount (events : List NoteEvent) : Nat :=
  events.foldl (fun n e => max n (e.voice + 1)) 1

/-- The whole file. `tempo` is in quarter notes per minute. -/
def file (events : List NoteEvent) (ticksPerQuarter tempo : UInt32) (params : Params) :
    List UInt8 :=
  let count := trackCount events
  let format := if count = 1 then 0 else 1
  headerTag ++ bigEndian 4 6 ++ bigEndian 2 format ++ bigEndian 2 count ++
    bigEndian 2 (division ticksPerQuarter).toNat ++
    (List.range count).flatMap fun number =>
      trackChunk (track params ticksPerQuarter tempo events number)

end Tunebook.Midi
