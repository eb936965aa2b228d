import Tunebook.Key
import Tunebook.Tune.Element

namespace Tunebook

abbrev Bar := List Element

structure Repeat where
  normal : List Bar
  firstEnding : List Bar
  secondEnding : List Bar

namespace Repeat

def empty : Repeat := ⟨[], [], []⟩

def isEmpty (r : Repeat) : Bool :=
  r.normal.isEmpty && r.firstEnding.isEmpty && r.secondEnding.isEmpty

/-- The bars as played: the normal bars before each ending. -/
def played (r : Repeat) : List Bar :=
  r.normal ++ r.firstEnding ++ r.normal ++ r.secondEnding

end Repeat

/-- A bar that is played once, or a repeat. -/
inductive Phrase where
  | bar (elements : Bar)
  | repeated (bars : Repeat)

namespace Phrase

def isEmpty : Phrase → Bool
  | bar b => b.isEmpty
  | repeated r => r.isEmpty

def played : Phrase → List Bar
  | bar b => [b]
  | repeated r => r.played

end Phrase

structure Voice where
  name : Option String
  phrases : List Phrase
  /-- A repeat was opened and not closed. -/
  repeatOpen : Bool

namespace Voice

def empty (name : Option String) : Voice :=
  ⟨name, [], false⟩

def push (v : Voice) (p : Phrase) : Voice :=
  { v with phrases := v.phrases ++ [p] }

def played (v : Voice) : List Bar :=
  v.phrases.flatMap Phrase.played

end Voice

structure Tune where
  index : UInt32
  title : String
  subtitles : List String
  composer : Option String
  /-- The length of a unit note. -/
  defaultLength : Duration
  meter : Duration
  /-- Quarter notes per minute. -/
  tempo : UInt32
  key : KeySignature
  voices : List Voice

namespace Tune

/-- A header nobody has written to, and no voices. -/
def blank : Tune where
  index := 1
  title := ""
  subtitles := []
  composer := none
  defaultLength := ⟨1, 8⟩
  meter := ⟨4, 4⟩
  tempo := 120
  key := .cMajor
  voices := []

def voice? (t : Tune) (name : Option String) : Option Voice :=
  t.voices.find? fun v => v.name == name

end Tune

end Tunebook
