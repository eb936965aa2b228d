import Tunebook.Token.Scan
import Tunebook.Tune.Element
import Tunebook.Tune.Error

namespace Tunebook.Music

abbrev Tokens := List PlacedToken

/-- What there is to find after the last token: the end, or the error that stands there. -/
def atEnd {α : Type} (failure : Option LexError) (a : α) : Except TuneError α :=
  match failure with
  | none => .ok a
  | some e => .error (.lex e)

def unexpected {α : Type} (t : PlacedToken) (expected : Expected) : Except TuneError α :=
  .error (.unexpectedToken t.token t.position expected)

/-- The sum, held to the values a signed byte has. -/
def addOctaves (a b : Int8) : Int8 :=
  Int8.ofInt (max (-128) (min 127 (a.toInt + b.toInt)))

/-- Octave marks after a note, `shift` being the marks already read. -/
def octaves (failure : Option LexError) (shift : Int8) :
    Tokens → Except TuneError (Int8 × Tokens)
  | [] => atEnd failure (shift, [])
  | t :: ts =>
    match t.token with
    | .octave marks =>
      if shift ≠ 0 ∧ shift.toInt.sign ≠ marks.toInt.sign then .error (.mixedOctave t.position)
      else octaves failure (addOctaves shift marks) ts
    | _ => .ok (shift, t :: ts)

/-- The number before the fraction bar, 1 unless written. -/
def numerator (failure : Option LexError) : Tokens → Except TuneError (UInt32 × Tokens)
  | [] => atEnd failure (1, [])
  | t :: ts =>
    match t.token with
    | .digits n => .ok (n, ts)
    | _ => .ok (1, t :: ts)

/-- The number after the fraction bar, 2 unless written. -/
def divisor (failure : Option LexError) : Tokens → Except TuneError (UInt32 × Tokens)
  | [] => atEnd failure (2, [])
  | t :: ts =>
    match t.token with
    | .digits n => if n = 0 then unexpected t .nonZeroDenominator else .ok (n, ts)
    | _ => .ok (2, t :: ts)

/-- A fraction bar with what follows it; without one the denominator is 1. -/
def denominator (failure : Option LexError) : Tokens → Except TuneError (UInt32 × Tokens)
  | [] => atEnd failure (1, [])
  | t :: ts =>
    match t.token with
    | .fractionBar => divisor failure ts
    | _ => .ok (1, t :: ts)

/-- A length: `3`, `/`, `/4` or `3/4`, and one unit when nothing is written. -/
def length (failure : Option LexError) (ts : Tokens) : Except TuneError (Duration × Tokens) :=
  match numerator failure ts with
  | .error e => .error e
  | .ok (num, ts) =>
    match denominator failure ts with
    | .error e => .error e
    | .ok (den, ts) => .ok (⟨num, den⟩, ts)

def note (failure : Option LexError) (letter : NoteLetter) (position : Position) (ts : Tokens) :
    Except TuneError (Note × Tokens) :=
  match octaves failure 0 ts with
  | .error e => .error e
  | .ok (shift, ts) =>
    match Pitch.shiftOctave? ⟨letter.letter, letter.octave, 0⟩ shift with
    | none => .error (.octaveTooHigh position)
    | some pitch =>
      match length failure ts with
      | .error e => .error e
      | .ok (duration, ts) => .ok (⟨pitch, duration⟩, ts)

/-- The note after an accidental, which has to follow at once. -/
def alteredNote (failure : Option LexError) (sign : PlacedToken) :
    Tokens → Except TuneError (Note × Tokens)
  | [] => (atEnd failure ()).bind fun _ => .error (.danglingAccidental sign.position)
  | t :: ts =>
    match t.token with
    | .letter l => note failure l t.position ts
    | _ => .error (.danglingAccidental sign.position)

theorem length_le_of_atEnd {α : Type} {failure : Option LexError} {a : α} {r : α × Tokens}
    {ts : Tokens} (h : atEnd failure (a, []) = .ok r) : r.2.length ≤ ts.length := by
  unfold atEnd at h
  split at h
  · simp only [Except.ok.injEq] at h
    subst h
    simp
  · simp at h

theorem octaves_length {failure : Option LexError} {shift : Int8} {ts : Tokens}
    {r : Int8 × Tokens} (h : octaves failure shift ts = .ok r) : r.2.length ≤ ts.length := by
  induction ts generalizing shift with
  | nil => exact length_le_of_atEnd h
  | cons t ts ih =>
    unfold octaves at h
    split at h
    · split at h
      · simp at h
      · exact Nat.le_succ_of_le (ih h)
    · simp only [Except.ok.injEq] at h
      subst h
      simp

theorem numerator_length {failure : Option LexError} {ts : Tokens} {r : UInt32 × Tokens}
    (h : numerator failure ts = .ok r) : r.2.length ≤ ts.length := by
  unfold numerator at h
  split at h
  · exact length_le_of_atEnd h
  · split at h <;> simp only [Except.ok.injEq] at h <;> subst h <;> simp

theorem divisor_length {failure : Option LexError} {ts : Tokens} {r : UInt32 × Tokens}
    (h : divisor failure ts = .ok r) : r.2.length ≤ ts.length := by
  unfold divisor at h
  split at h
  · exact length_le_of_atEnd h
  · split at h
    · split at h
      · simp [unexpected] at h
      · simp only [Except.ok.injEq] at h
        subst h
        simp
    · simp only [Except.ok.injEq] at h
      subst h
      simp

theorem denominator_length {failure : Option LexError} {ts : Tokens} {r : UInt32 × Tokens}
    (h : denominator failure ts = .ok r) : r.2.length ≤ ts.length := by
  unfold denominator at h
  split at h
  · exact length_le_of_atEnd h
  · split at h
    · exact Nat.le_succ_of_le (divisor_length h)
    · simp only [Except.ok.injEq] at h
      subst h
      simp

theorem length_length {failure : Option LexError} {ts : Tokens} {r : Duration × Tokens}
    (h : length failure ts = .ok r) : r.2.length ≤ ts.length := by
  unfold length at h
  split at h
  · simp at h
  · rename_i hn
    split at h
    · simp at h
    · rename_i hd
      simp only [Except.ok.injEq] at h
      subst h
      exact Nat.le_trans (denominator_length hd) (numerator_length hn)

theorem note_length {failure : Option LexError} {letter : NoteLetter} {position : Position}
    {ts : Tokens} {r : Note × Tokens} (h : note failure letter position ts = .ok r) :
    r.2.length ≤ ts.length := by
  unfold note at h
  split at h
  · simp at h
  · rename_i ho
    split at h
    · simp at h
    · split at h
      · simp at h
      · rename_i hl
        simp only [Except.ok.injEq] at h
        subst h
        exact Nat.le_trans (length_length hl) (octaves_length ho)

theorem alteredNote_length {failure : Option LexError} {sign : PlacedToken} {ts : Tokens}
    {r : Note × Tokens} (h : alteredNote failure sign ts = .ok r) : r.2.length ≤ ts.length := by
  unfold alteredNote at h
  split at h
  · cases failure <;> simp [atEnd, Except.bind] at h
  · split at h
    · exact Nat.le_succ_of_le (note_length h)
    · simp at h

/-- The inside of a chord: the accidentals of its notes, and the notes. -/
structure ChordNotes where
  accidentals : List Element
  notes : List Note

namespace ChordNotes

def push (c : ChordNotes) (n : Note) : ChordNotes :=
  { c with notes := c.notes ++ [n] }

def pushAltered (c : ChordNotes) (shift : Int8) (n : Note) : ChordNotes :=
  ⟨c.accidentals ++ [.accidental n.pitch shift], c.notes ++ [n]⟩

end ChordNotes

/-- The notes with the one that starts at token `t`. -/
def pushNote (failure : Option LexError) (c : ChordNotes) (t : PlacedToken) (ts : Tokens) :
    Except TuneError (ChordNotes × Tokens) :=
  match t.token with
  | .letter l =>
    match note failure l t.position ts with
    | .error e => .error e
    | .ok (n, ts) => .ok (c.push n, ts)
  | .accidental shift =>
    match alteredNote failure t ts with
    | .error e => .error e
    | .ok (n, ts) => .ok (c.pushAltered shift n, ts)
  | _ => unexpected t .noteOrChordEnd

theorem pushNote_length {failure : Option LexError} {c : ChordNotes} {t : PlacedToken}
    {ts : Tokens} {r : ChordNotes × Tokens} (h : pushNote failure c t ts = .ok r) :
    r.2.length ≤ ts.length := by
  unfold pushNote at h
  split at h
  · split at h
    · simp at h
    · rename_i hn
      simp only [Except.ok.injEq] at h
      subst h
      exact note_length hn
  · split at h
    · simp at h
    · rename_i hn
      simp only [Except.ok.injEq] at h
      subst h
      exact alteredNote_length hn
  · simp [unexpected] at h

/-- Notes up to the closing bracket, `c` being those already read. -/
def chordNotes (failure : Option LexError) (c : ChordNotes) :
    Tokens → Except TuneError (ChordNotes × Tokens)
  | [] => (atEnd failure ()).bind fun _ => .error (.unexpectedEnd .chordEnd)
  | t :: ts =>
    if t.token = .chordEnd then
      if c.notes.isEmpty then unexpected t .chordNote else .ok (c, ts)
    else
      match h : pushNote failure c t ts with
      | .error e => .error e
      | .ok (c, rest) =>
        have : rest.length ≤ ts.length := pushNote_length h
        chordNotes failure c rest
termination_by ts => ts.length
decreasing_by exact Nat.lt_succ_of_le this

theorem chordNotes_length {failure : Option LexError} {c : ChordNotes} {ts : Tokens}
    {r : ChordNotes × Tokens} (h : chordNotes failure c ts = .ok r) :
    r.2.length ≤ ts.length := by
  fun_induction chordNotes failure c ts with
  | case1 => cases failure <;> simp [atEnd, Except.bind] at h
  | case2 => simp [unexpected] at h
  | case3 =>
    simp only [Except.ok.injEq] at h
    subst h
    simp
  | case4 => simp at h
  | case5 _ _ _ _ _ _ _ hle ih => exact Nat.le_succ_of_le (Nat.le_trans (ih h) hle)

def startsLength : Tokens → Bool
  | [] => false
  | t :: _ =>
    match t.token with
    | .digits _ | .fractionBar => true
    | _ => false

def stretch? (factor : Duration) (notes : List Note) : Option (List Note) :=
  notes.mapM fun n => (n.duration.mul? factor).map fun d => { n with duration := d }

/-- A chord after its opening bracket `start`. A length after the closing bracket multiplies
every note. The accidentals of the notes go before the chord. -/
def chord (failure : Option LexError) (start : PlacedToken) (ts : Tokens) :
    Except TuneError (List Element × Tokens) :=
  match chordNotes failure ⟨[], []⟩ ts with
  | .error e => .error e
  | .ok (c, ts) =>
    match length failure ts with
    | .error e => .error e
    | .ok (factor, rest) =>
      if startsLength ts then
        match stretch? factor c.notes with
        | none => .error (.lengthTooLong start.position)
        | some notes => .ok (c.accidentals ++ [.chord notes], rest)
      else .ok (c.accidentals ++ [.chord c.notes], rest)

theorem chord_length {failure : Option LexError} {start : PlacedToken} {ts : Tokens}
    {r : List Element × Tokens} (h : chord failure start ts = .ok r) :
    r.2.length ≤ ts.length := by
  unfold chord at h
  split at h
  · simp at h
  · rename_i hc
    split at h
    · simp at h
    · rename_i hl
      have hle := Nat.le_trans (length_length hl) (chordNotes_length hc)
      split at h
      · split at h
        · simp at h
        · simp only [Except.ok.injEq] at h
          subst h
          exact hle
      · simp only [Except.ok.injEq] at h
        subst h
        exact hle

def elements (failure : Option LexError) (t : PlacedToken) (ts : Tokens) :
    Except TuneError (List Element × Tokens) :=
  match t.token with
  | .letter l =>
    match note failure l t.position ts with
    | .error e => .error e
    | .ok (n, ts) => .ok ([.note n], ts)
  | .rest =>
    match length failure ts with
    | .error e => .error e
    | .ok (d, ts) => .ok ([.rest d], ts)
  | .accidental shift =>
    match alteredNote failure t ts with
    | .error e => .error e
    | .ok (n, ts) => .ok ([.accidental n.pitch shift, .note n], ts)
  | .chordStart => chord failure t ts
  | .tuplet size => .ok ([(Tuplet.empty size).toElement], ts)
  | _ => unexpected t .music

theorem elements_length {failure : Option LexError} {t : PlacedToken} {ts : Tokens}
    {r : List Element × Tokens} (h : elements failure t ts = .ok r) :
    r.2.length ≤ ts.length := by
  unfold elements at h
  cases ht : t.token <;> simp only [ht, unexpected, reduceCtorEq] at h
  case letter l =>
    split at h
    · simp at h
    · rename_i hn
      simp only [Except.ok.injEq] at h
      subst h
      exact note_length hn
  case rest =>
    split at h
    · simp at h
    · rename_i hl
      simp only [Except.ok.injEq] at h
      subst h
      exact length_length hl
  case accidental shift =>
    split at h
    · simp at h
    · rename_i hn
      simp only [Except.ok.injEq] at h
      subst h
      exact alteredNote_length hn
  case chordStart => exact chord_length h
  case tuplet size =>
    simp only [Except.ok.injEq] at h
    subst h
    simp

end Tunebook.Music
