import Tunebook.Tune.Basic

namespace Tunebook

/-- Lists of one length whose members agree in pairs. -/
def alikeLists {α : Type} (alike : α → α → Bool) : List α → List α → Bool
  | [], [] => true
  | a :: as, b :: bs => alike a b && alikeLists alike as bs
  | _, _ => false

def Note.alike (a b : Note) : Bool :=
  a.pitch.alike b.pitch && a.duration.alike b.duration

namespace Element

mutual

def alike : Element → Element → Bool
  | note a, note b => a.alike b
  | rest a, rest b => a.alike b
  | accidental p v, accidental q w => p.alike q && v == w
  | chord as, chord bs => alikeLists Note.alike as bs
  | tuplet size as n, tuplet size' bs n' => size == size' && alikeAll as bs && n == n'
  | _, _ => false

def alikeAll : List Element → List Element → Bool
  | [], [] => true
  | a :: as, b :: bs => alike a b && alikeAll as bs
  | _, _ => false

end

end Element

def Repeat.alike (r s : Repeat) : Bool :=
  alikeLists Element.alikeAll r.normal s.normal &&
    alikeLists Element.alikeAll r.firstEnding s.firstEnding &&
    alikeLists Element.alikeAll r.secondEnding s.secondEnding

def Phrase.alike : Phrase → Phrase → Bool
  | bar a, bar b => Element.alikeAll a b
  | repeated r, repeated s => r.alike s
  | _, _ => false

def Voice.alike (v w : Voice) : Bool :=
  v.name == w.name && alikeLists Phrase.alike v.phrases w.phrases && v.repeatOpen == w.repeatOpen

def Tune.alike (t u : Tune) : Bool :=
  t.index == u.index && t.title == u.title && t.subtitles == u.subtitles &&
    t.composer == u.composer && t.defaultLength.alike u.defaultLength && t.meter.alike u.meter &&
    t.tempo == u.tempo && t.key == u.key && alikeLists Voice.alike t.voices u.voices

end Tunebook
