import Tunebook.Text.Escaped
import Tunebook.Text.Numeral
import Tunebook.Token
import Tunebook.Tune.Basic

namespace Tunebook.Canonical

/-- A length in lowest terms, without parts that need not be written. -/
def suffix (d : Duration) : List Char :=
  let d := d.reduced
  let num := Text.decimal d.num.toNat
  let den := Text.decimal d.den.toNat
  if d.num = 1 ∧ d.den = 1 then []
  else if d.den = 1 then num
  else if d.num = 1 then '/' :: den
  else num ++ '/' :: den

/-- Accidentals that wait for their note. -/
abbrev Pending := List (Pitch × Int8)

/-- The first accidental for the pitch, written out, and those left. -/
def takeAccidental (pitch : Pitch) : Pending → List Char × Pending
  | [] => ([], [])
  | (p, value) :: rest =>
    if p.alike pitch then (Token.accidentalChars value, rest)
    else
      let (signs, left) := takeAccidental pitch rest
      (signs, (p, value) :: left)

def note (pending : Pending) (n : Note) : List Char × Pending :=
  let (signs, pending) := takeAccidental n.pitch pending
  (signs ++ n.pitch.chars ++ suffix n.duration, pending)

def chordNotes (pending : Pending) : List Note → List Char × Pending
  | [] => ([], pending)
  | n :: notes =>
    let (first, pending) := note pending n
    let (others, pending) := chordNotes pending notes
    (first ++ others, pending)

def unwords (words : List (List Char)) : List Char :=
  List.intercalate [' '] words

/-- The words of a list of elements. An accidental is written with the note it stands for. -/
def words (pending : Pending) : List Element → List (List Char)
  | [] => []
  | .accidental pitch value :: es => words (pending ++ [(pitch, value)]) es
  | .note n :: es =>
    let (word, pending) := note pending n
    word :: words pending es
  | .rest d :: es => ('z' :: suffix d) :: words pending es
  | .chord notes :: es =>
    let (inner, pending) := chordNotes pending notes
    ('[' :: inner ++ [']']) :: words pending es
  | .tuplet size elements _ :: es =>
    let inner := unwords (words [] elements)
    (Token.tuplet size).chars :: ((if inner.isEmpty then [] else [inner]) ++ words pending es)

def bar (b : Bar) : List Char :=
  unwords (words [] b)

/-- Bars with single bar lines between them. -/
def bars (bs : List Bar) : List (List Char) :=
  (bs.map bar).intersperse Barline.single.chars

def repeated (r : Repeat) : List (List Char) :=
  let closing := [Barline.repeatEnd.chars]
  let second :=
    if r.secondEnding.isEmpty then []
    else [Ending.second.chars] ++ bars r.secondEnding ++ [Barline.double.chars]
  let endings :=
    if r.firstEnding.isEmpty && r.secondEnding.isEmpty then closing
    else [Ending.first.chars] ++ bars r.firstEnding ++ closing ++ second
  [Barline.repeatStart.chars] ++ bars r.normal ++ endings

def phrase : Phrase → List (List Char)
  | .bar b => [bar b, Barline.single.chars]
  | .repeated r => repeated r

/-- The music of a voice. An empty voice is written as a lone bar line, which makes the voice. -/
def music (v : Voice) : List Char :=
  if v.phrases.isEmpty then Barline.single.chars
  else
    unwords
      (v.phrases.flatMap phrase ++ if v.repeatOpen then [Barline.repeatStart.chars] else [])

def line (cs : List Char) : List Char :=
  cs ++ ['\n']

def field (kind : FieldKind) (value : List Char) : List Char :=
  line (kind.char :: ':' :: value)

def textField (kind : FieldKind) (value : String) : List Char :=
  field kind (Text.escape value.toList)

def voice (v : Voice) : List Char :=
  (match v.name with
    | none => []
    | some name => textField .voice name) ++ line (music v)

def fraction (d : Duration) : List Char :=
  Text.decimal d.num.toNat ++ '/' :: Text.decimal d.den.toNat

def header (t : Tune) : List Char :=
  field .index (Text.decimal t.index.toNat) ++
    (if t.title.isEmpty then [] else textField .title t.title) ++
    t.subtitles.flatMap (textField .title) ++
    (match t.composer with
      | none => []
      | some composer => textField .composer composer) ++
    field .meter (fraction t.meter) ++
    field .defaultLength (fraction t.defaultLength) ++
    field .tempo (Text.decimal t.tempo.toNat) ++
    field .key t.key.code.toList

def tune (t : Tune) : List Char :=
  header t ++ t.voices.flatMap voice

end Tunebook.Canonical

namespace Tunebook.Tune

def canonical (t : Tune) : String :=
  String.ofList (Canonical.tune t)

end Tunebook.Tune
