import Tunebook.Tune.Draft
import Tunebook.Tune.Header
import Tunebook.Tune.Music

namespace Tunebook

structure Reading where
  tune : Tune
  drafts : Drafts
  /-- The unit length was written and is not to be inferred from the meter. -/
  lengthGiven : Bool
  /-- Music has begun, so a voice field changes the voice. -/
  inBody : Bool

namespace Reading

def start : Reading :=
  ⟨.blank, .empty, false, false⟩

def field (r : Reading) (kind : FieldKind) (value : String) : Except TuneError Reading :=
  match kind with
  | .voice =>
    (Header.voiceName value.toList).map fun name =>
      { r with drafts := r.drafts.select name r.inBody }
  | kind =>
    (Header.apply r.tune kind value).map fun tune =>
      { r with tune, lengthGiven := r.lengthGiven || kind == .defaultLength }

/-- Writes strokes that all come from token `t`. -/
def music (r : Reading) (t : PlacedToken) (strokes : List Stroke) : Except TuneError Reading :=
  match strokes.foldlM Drafts.write r.drafts.ensureCurrent with
  | .error expected => Music.unexpected t expected
  | .ok drafts => .ok { r with drafts, inBody := true }

/-- One token, with as many of the following ones as belong to it. -/
def step (failure : Option LexError) (r : Reading) (t : PlacedToken) (ts : Music.Tokens) :
    Except TuneError (Reading × Music.Tokens) :=
  match t.token with
  | .field kind value => (r.field kind value).map fun r => (r, ts)
  | .comment _ => .ok (r, ts)
  | .barline line => (r.music t [.barline line]).map fun r => (r, ts)
  | .ending which => (r.music t [.ending which]).map fun r => (r, ts)
  | _ =>
    match Music.elements failure t ts with
    | .error e => .error e
    | .ok (elements, ts) => (r.music t (elements.map Stroke.element)).map fun r => (r, ts)

theorem exists_of_map_eq_ok {α β : Type} {x : Except TuneError α} {f : α → β} {b : β}
    (h : x.map f = .ok b) : ∃ a, x = .ok a ∧ f a = b := by
  cases x with
  | error e => simp [Except.map] at h
  | ok a => exact ⟨a, rfl, by simpa [Except.map] using h⟩

theorem step_length {failure : Option LexError} {r : Reading} {t : PlacedToken}
    {ts : Music.Tokens} {next : Reading × Music.Tokens}
    (h : r.step failure t ts = .ok next) : next.2.length ≤ ts.length := by
  unfold step at h
  split at h
  case h_2 =>
    simp only [Except.ok.injEq] at h
    subst h
    simp
  case h_5 =>
    split at h
    · simp at h
    · rename_i he
      obtain ⟨_, _, rfl⟩ := exists_of_map_eq_ok h
      exact Music.elements_length he
  all_goals
    obtain ⟨_, _, rfl⟩ := exists_of_map_eq_ok h
    simp

def run (failure : Option LexError) (r : Reading) : Music.Tokens → Except TuneError Reading
  | [] => Music.atEnd failure r
  | t :: ts =>
    match h : r.step failure t ts with
    | .error e => .error e
    | .ok (r, rest) =>
      have : rest.length ≤ ts.length := step_length h
      run failure r rest
termination_by ts => ts.length
decreasing_by simp only [List.length_cons]; omega

def finish (r : Reading) : Except TuneError Tune :=
  match r.drafts.finish with
  | .error expected => .error (.unexpectedEnd expected)
  | .ok voices =>
    let defaultLength :=
      if r.lengthGiven then r.tune.defaultLength else Header.inferredLength r.tune.meter
    .ok { r.tune with defaultLength, voices }

end Reading

namespace Tune

def ofTokens (l : Lexed) : Except TuneError Tune :=
  match Reading.start.run l.failure l.tokens with
  | .error e => .error e
  | .ok r => r.finish

/-- Reads a tune. The first problem in the text ends the reading. -/
def read (text : String) : Except TuneError Tune :=
  ofTokens (.ofText text)

end Tune

end Tunebook
