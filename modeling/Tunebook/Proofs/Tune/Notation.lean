import Tunebook.Text.Blank
import Tunebook.Tune.Basic

namespace Tunebook

/-- Accidentals that stand one after the other. -/
abbrev Run := List (Pitch × Int8)

namespace Run

def elements (run : Run) : List Element :=
  run.map fun a => .accidental a.1 a.2

def pitches (run : Run) : List Pitch :=
  run.map Prod.fst

end Run

/-- The bare pitch of a letter, and a length that is a fraction. -/
structure Note.Sound (n : Note) : Prop where
  natural : n.pitch.accidental = 0
  den_ne_zero : n.duration.den ≠ 0

/-- An accidental of at most two semitones, for a bare pitch. -/
structure Sign (pitch : Pitch) (value : Int8) : Prop where
  natural : pitch.accidental = 0
  ge : -2 ≤ value.toInt
  le : value.toInt ≤ 2

def Run.Sound (run : Run) : Prop :=
  ∀ a ∈ run, Sign a.1 a.2

theorem Run.sound_nil : Run.Sound [] := by
  intro a ha
  simp at ha

namespace Element

def isTuplet : Element → Bool
  | tuplet .. => true
  | _ => false

def chords : List Element → List (List Note)
  | [] => []
  | chord ns :: es => ns :: chords es
  | tuplet _ elements _ :: es => chords elements ++ chords es
  | accidental _ _ :: es => chords es
  | note _ :: es => chords es
  | rest _ :: es => chords es

/-- A tuplet that is full: it counts as many notes as its size, the last of them at its end. -/
structure Filled (size : UInt32) (elements : List Element) (notes : Nat) : Prop where
  flat : ∀ e ∈ elements, e.isTuplet = false
  notes_eq : notes = size.toNat
  count_eq : elements.countP isNote = size.toNat
  empty : size = 0 → elements = []
  last : size ≠ 0 → ∃ n, elements.getLast? = some (note n)

/-- The elements are music after the accidentals of `run`, which nothing has used yet. The first
note or chord uses up the whole run. -/
inductive Notated : Run → List Element → Prop
  | nil : Notated [] []
  | accidental {run : Run} {pitch : Pitch} {value : Int8} {es : List Element}
      (h : Notated (run ++ [(pitch, value)]) es) : Notated run (accidental pitch value :: es)
  | note {run : Run} {n : Note} {es : List Element} (hr : run.Sound) (hn : n.Sound)
      (hp : run.pitches = [] ∨ run.pitches = [n.pitch]) (h : Notated [] es) :
      Notated run (note n :: es)
  | rest {d : Duration} {es : List Element} (hd : d.den ≠ 0) (h : Notated [] es) :
      Notated [] (rest d :: es)
  | chord {run : Run} {notes : List Note} {es : List Element} (hr : run.Sound)
      (hne : notes ≠ []) (hn : ∀ n ∈ notes, n.Sound)
      (hp : run.pitches.Sublist (notes.map Note.pitch)) (h : Notated [] es) :
      Notated run (chord notes :: es)
  | tuplet {size : UInt32} {elements : List Element} {notes : Nat} {es : List Element}
      (hf : Filled size elements notes) (hi : Notated [] elements) (h : Notated [] es) :
      Notated [] (tuplet size elements notes :: es)

theorem Notated.append {run : Run} {es fs : List Element} (he : Notated run es)
    (hf : Notated [] fs) : Notated run (es ++ fs) := by
  induction he with
  | nil => exact hf
  | accidental h ih => exact .accidental ih
  | note hr hn hp h ih => exact .note hr hn hp ih
  | rest hd h ih => exact .rest hd ih
  | chord hr hne hn hp h ih => exact .chord hr hne hn hp ih
  | tuplet hs hi h ihInner ih => exact .tuplet hs hi ih

theorem Notated.of_run {run signs : Run} {es : List Element} (h : Notated (run ++ signs) es) :
    Notated run (signs.elements ++ es) := by
  induction signs generalizing run with
  | nil => simpa [Run.elements] using h
  | cons a signs ih =>
    have ha : Notated (run ++ [a] ++ signs) es := by
      rwa [List.append_assoc, List.singleton_append]
    exact .accidental (ih ha)

end Element

def Repeat.bars (r : Repeat) : List Bar :=
  r.normal ++ r.firstEnding ++ r.secondEnding

def Phrase.bars : Phrase → List Bar
  | bar b => [b]
  | repeated r => r.bars

def Voice.bars (v : Voice) : List Bar :=
  v.phrases.flatMap Phrase.bars

def Bar.Sound (b : Bar) : Prop :=
  b ≠ [] ∧ Element.Notated [] b

def OneLine (text : String) : Prop :=
  '\n' ∉ text.toList ∧ Text.trim text.toList = text.toList

structure Tune.HeaderSound (t : Tune) : Prop where
  subtitles : t.title = "" → t.subtitles = []
  texts : ∀ text ∈ t.title :: t.subtitles ++ t.composer.toList, OneLine text
  defaultLength : t.defaultLength.den ≠ 0
  meter : t.meter.num ≠ 0 ∧ t.meter.den ≠ 0
  tempo : t.tempo ≠ 0
  key : KeySignature.ofCode? t.key.code = some t.key

/-- Voices have names of one word, each its own; only the first may be without. -/
structure NamesSound (names : List (Option String)) : Prop where
  nodup : names.Nodup
  named : ∀ name ∈ names.tail, name ≠ none
  words : ∀ name, some name ∈ names →
    name.toList ≠ [] ∧ ∀ c ∈ name.toList, Text.isBlank c = false

structure Tune.WellFormed (t : Tune) : Prop where
  header : t.HeaderSound
  voices : t.voices ≠ []
  names : NamesSound (t.voices.map Voice.name)
  bars : ∀ v ∈ t.voices, ∀ b ∈ v.bars, Bar.Sound b

end Tunebook
