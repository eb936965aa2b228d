import Tunebook.Tune.Basic

namespace Tunebook

inductive FeedbackKind where
  | barLength (expected actual : Duration)
  | chordLength (expected found : Duration)
  /-- The length of the bar does not fit a fraction of 32-bit words. -/
  | barOverflow
deriving DecidableEq

def FeedbackKind.text : FeedbackKind → String
  | barLength expected actual =>
    "incorrect number of beats encountered: expected " ++ expected.text ++ " but got " ++ actual.text
  | chordLength expected found =>
    "chord with inconsistent note-lengths encountered: expected " ++ expected.text ++
      ", but found " ++ found.text
  | barOverflow => "note lengths too long to add up"

/-- A diagnostic with its voice and the number of its bar, counted from 1 as played. -/
structure Feedback where
  voice : Option String
  bar : Nat
  kind : FeedbackKind
deriving DecidableEq

namespace Feedback

def text (f : Feedback) : String :=
  (match f.voice with
    | none => ""
    | some name => "In Voice " ++ name ++ ", ") ++
    "Bar " ++ toString f.bar ++ ", " ++ f.kind.text

def report (fs : List Feedback) : String :=
  String.join (fs.map fun f => f.text ++ "\n")

def ofChord (notes : List Note) : List FeedbackKind :=
  let expected := chordDuration notes
  (notes.filter fun n => !n.duration.alike expected).map fun n => .chordLength expected n.duration

mutual

def ofElement : Element → List FeedbackKind
  | .chord notes => ofChord notes
  | .tuplet _ elements _ => ofElements elements
  | _ => []

def ofElements : List Element → List FeedbackKind
  | [] => []
  | e :: es => ofElement e ++ ofElements es

end

def extend? (unitLength total : Duration) (e : Element) : Option Duration := do
  let d ← e.duration?
  let d ← d.mul? unitLength
  total.add? d

def barLength? (unitLength : Duration) (b : Bar) : Option Duration :=
  b.foldlM (extend? unitLength) .zero

/-- The diagnostic about a bar as a whole. -/
def ofBarLength (unitLength meter : Duration) (b : Bar) : List FeedbackKind :=
  match barLength? unitLength b with
  | none => [.barOverflow]
  | some total => if total.alike meter then [] else [.barLength meter total]

def ofBar (unitLength meter : Duration) (b : Bar) : List FeedbackKind :=
  ofElements b ++ ofBarLength unitLength meter b

def ofVoice (unitLength meter : Duration) (v : Voice) : List Feedback :=
  (v.played.zipIdx 1).flatMap fun (b, number) =>
    (ofBar unitLength meter b).map fun kind => ⟨v.name, number, kind⟩

end Feedback

def Tune.feedback (t : Tune) : List Feedback :=
  t.voices.flatMap (Feedback.ofVoice t.defaultLength t.meter)

end Tunebook
