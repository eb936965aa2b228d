import Tunebook.Duration
import Tunebook.Pitch

namespace Tunebook

structure Note where
  pitch : Pitch
  duration : Duration
deriving DecidableEq

inductive Element where
  | note (n : Note)
  | rest (duration : Duration)
  /-- Holds for the later notes of the letter in the bar, and takes no time itself. -/
  | accidental (pitch : Pitch) (value : Int8)
  | chord (notes : List Note)
  /-- `size` notes in altered time; `notes` counts those already inside. -/
  | tuplet (size : UInt32) (elements : List Element) (notes : Nat)

/-- A chord lasts as long as its first note. -/
def chordDuration : List Note → Duration
  | [] => .zero
  | n :: _ => n.duration

/-- Two notes take the time of three, three that of two and four that of three. Other tuplets
take no time. -/
def tupletScale (size : UInt32) : Duration :=
  if size = 2 then ⟨3, 2⟩
  else if size = 3 then ⟨2, 3⟩
  else if size = 4 then ⟨3, 4⟩
  else .zero

/-- The length of a tuplet from that of its first timed element. -/
def tupletDuration? (size : UInt32) (first : Duration) : Option Duration :=
  if size = 2 ∨ size = 3 ∨ size = 4 then first.mul? (tupletScale size) else some .zero

namespace Element

def isTimed : Element → Bool
  | accidental .. => false
  | _ => true

def isNote : Element → Bool
  | note _ => true
  | _ => false

mutual

/-- The length in unit notes. Only a tuplet's may fail to fit. -/
def duration? : Element → Option Duration
  | note n => some n.duration
  | rest d => some d
  | accidental .. => some .zero
  | chord notes => some (chordDuration notes)
  | tuplet size elements _ => (leadDuration? elements).bind (tupletDuration? size)

def leadDuration? : List Element → Option Duration
  | [] => some .zero
  | e :: es => if e.isTimed then e.duration? else leadDuration? es

end

end Element

structure Tuplet where
  size : UInt32
  elements : List Element
  notes : Nat

namespace Tuplet

def empty (size : UInt32) : Tuplet :=
  ⟨size, [], 0⟩

/-- Adds an element. Only notes count towards the size. -/
def push (t : Tuplet) (e : Element) : Tuplet :=
  ⟨t.size, t.elements ++ [e], if e.isNote then t.notes + 1 else t.notes⟩

def isFull (t : Tuplet) : Bool :=
  t.size.toNat ≤ t.notes

def toElement (t : Tuplet) : Element :=
  .tuplet t.size t.elements t.notes

end Tuplet

end Tunebook
