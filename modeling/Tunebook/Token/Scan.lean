import Tunebook.Text.Blank
import Tunebook.Text.Escaped
import Tunebook.Token
import Tunebook.Token.Error

namespace Tunebook

namespace Token

def isSpace (c : Char) : Bool :=
  c == ' ' || c == '\t' || c == '\r' || c == '\n'

def notNewline (c : Char) : Bool :=
  c != '\n'

structure Scanned where
  token : Token
  lexeme : List Char
  rest : List Char

/-- The value of a field line: the text before its comment, without the blanks around it. -/
def fieldValue (line : List Char) : String :=
  String.ofList (Text.trim (Text.unescape line))

/-- A field letter, a colon and the rest of the line. -/
def scanField? : List Char → Option Scanned
  | c :: ':' :: cs =>
    (FieldKind.ofChar? c).map fun kind =>
      let line := cs.takeWhile notNewline
      ⟨.field kind (fieldValue line), c :: ':' :: line, cs.dropWhile notNewline⟩
  | _ => none

/-- The digits after an opening parenthesis. -/
def scanTuplet (cs : List Char) : Except LexFault Scanned :=
  let run := cs.takeWhile Char.isDigit
  match Text.digits? run with
  | none => .error .unsizedTuplet
  | some n =>
    match Word.fit32 n with
    | none => .error .tupletTooLarge
    | some size => .ok ⟨.tuplet size, '(' :: run, cs.dropWhile Char.isDigit⟩

/-- A run of one accidental sign, each worth `step` semitones. -/
def scanAccidental (sign : Char) (step : Int) (fault : LexFault) (cs : List Char) :
    Except LexFault Scanned :=
  let run := cs.takeWhile (· == sign)
  if 2 < run.length then .error fault
  else .ok ⟨.accidental (Int8.ofInt (step * run.length)), run, cs.dropWhile (· == sign)⟩

/-- A run of one octave mark, each worth `step` octaves. -/
def scanOctave (mark opposite : Char) (step : Int) (cs : List Char) : Except LexFault Scanned :=
  let run := cs.takeWhile (· == mark)
  let rest := cs.dropWhile (· == mark)
  if rest.head? = some opposite then .error .mixedOctaveMarks
  else if 127 < run.length then .error .tooManyOctaveMarks
  else .ok ⟨.octave (Int8.ofInt (step * run.length)), run, rest⟩

def scanDigits (cs : List Char) : Except LexFault Scanned :=
  let run := cs.takeWhile Char.isDigit
  match Word.fit32 (Nat.ofDigitChars 10 run 0) with
  | none => .error .numberTooLarge
  | some n => .ok ⟨.digits n, run, cs.dropWhile Char.isDigit⟩

def scanMusic : List Char → Except LexFault Scanned
  | '[' :: '1' :: cs => .ok ⟨.ending .first, ['[', '1'], cs⟩
  | '[' :: '2' :: cs => .ok ⟨.ending .second, ['[', '2'], cs⟩
  | '[' :: '|' :: cs => .ok ⟨.barline .thickThin, ['[', '|'], cs⟩
  | '[' :: cs => .ok ⟨.chordStart, ['['], cs⟩
  | '|' :: '|' :: cs => .ok ⟨.barline .double, ['|', '|'], cs⟩
  | '|' :: ']' :: cs => .ok ⟨.barline .thinThick, ['|', ']'], cs⟩
  | '|' :: ':' :: cs => .ok ⟨.barline .repeatStart, ['|', ':'], cs⟩
  | '|' :: cs => .ok ⟨.barline .single, ['|'], cs⟩
  | ':' :: '|' :: cs => .ok ⟨.barline .repeatEnd, [':', '|'], cs⟩
  | '(' :: cs => scanTuplet cs
  | '^' :: cs => scanAccidental '^' 1 .tooSharp ('^' :: cs)
  | '_' :: cs => scanAccidental '_' (-1) .tooFlat ('_' :: cs)
  | '=' :: cs => scanAccidental '=' 0 .tooManyNaturals ('=' :: cs)
  | '\'' :: cs => scanOctave '\'' ',' 1 ('\'' :: cs)
  | ',' :: cs => scanOctave ',' '\'' (-1) (',' :: cs)
  | '%' :: cs =>
    let line := cs.takeWhile notNewline
    .ok ⟨.comment (String.ofList line), '%' :: line, cs.dropWhile notNewline⟩
  | 'z' :: cs => .ok ⟨.rest, ['z'], cs⟩
  | '/' :: cs => .ok ⟨.fractionBar, ['/'], cs⟩
  | ']' :: cs => .ok ⟨.chordEnd, [']'], cs⟩
  | c :: cs =>
    match NoteLetter.ofChar? c with
    | some note => .ok ⟨.letter note, [c], cs⟩
    | none => if c.isDigit then scanDigits (c :: cs) else .error .unknown
  | [] => .error .unknown

/-- The first token. Fields are read only at the start of a line. -/
def scan (lineStart : Bool) (cs : List Char) : Except LexFault Scanned :=
  match lineStart, scanField? cs with
  | true, some scanned => .ok scanned
  | _, _ => scanMusic cs

/-- What a scan owes its caller: a lexeme of at least one character, and nothing lost. -/
def Scanned.Splits (s : Scanned) (cs : List Char) : Prop :=
  s.lexeme ≠ [] ∧ s.lexeme ++ s.rest = cs

theorem scanField?_splits {cs : List Char} {s : Scanned} (h : scanField? cs = some s) :
    s.Splits cs := by
  unfold scanField? at h
  split at h
  · obtain ⟨kind, _, rfl⟩ := Option.map_eq_some_iff.1 h
    simp [Scanned.Splits]
  · simp at h

theorem scanTuplet_splits {cs : List Char} {s : Scanned} (h : scanTuplet cs = .ok s) :
    s.Splits ('(' :: cs) := by
  unfold scanTuplet at h
  simp only at h
  split at h
  · simp at h
  · split at h
    · simp at h
    · simp only [Except.ok.injEq] at h
      subst h
      simp [Scanned.Splits]

theorem scanAccidental_splits {sign : Char} {step : Int} {fault : LexFault} {cs : List Char}
    {s : Scanned} (h : scanAccidental sign step fault (sign :: cs) = .ok s) :
    s.Splits (sign :: cs) := by
  unfold scanAccidental at h
  simp only at h
  split at h
  · simp at h
  · simp only [Except.ok.injEq] at h
    subst h
    exact ⟨by simp, List.takeWhile_append_dropWhile⟩

theorem scanOctave_splits {mark opposite : Char} {step : Int} {cs : List Char} {s : Scanned}
    (h : scanOctave mark opposite step (mark :: cs) = .ok s) : s.Splits (mark :: cs) := by
  unfold scanOctave at h
  simp only at h
  split at h
  · simp at h
  · split at h
    · simp at h
    · simp only [Except.ok.injEq] at h
      subst h
      exact ⟨by simp, List.takeWhile_append_dropWhile⟩

theorem scanDigits_splits {c : Char} {cs : List Char} {s : Scanned} (hc : c.isDigit)
    (h : scanDigits (c :: cs) = .ok s) : s.Splits (c :: cs) := by
  unfold scanDigits at h
  simp only at h
  split at h
  · simp at h
  · simp only [Except.ok.injEq] at h
    subst h
    exact ⟨by simp [hc], List.takeWhile_append_dropWhile⟩

theorem scanMusic_splits {cs : List Char} {s : Scanned} (h : scanMusic cs = .ok s) :
    s.Splits cs := by
  unfold scanMusic at h
  split at h
  case h_10 => exact scanTuplet_splits h
  case h_11 | h_12 | h_13 => exact scanAccidental_splits h
  case h_14 | h_15 => exact scanOctave_splits h
  case h_20 =>
    split at h
    · simp only [Except.ok.injEq] at h
      subst h
      simp [Scanned.Splits]
    · split at h
      · exact scanDigits_splits ‹_› h
      · simp at h
  all_goals
    simp only [Except.ok.injEq, reduceCtorEq] at h
    try subst h
    try simp [Scanned.Splits]

theorem scan_splits {lineStart : Bool} {cs : List Char} {s : Scanned}
    (h : scan lineStart cs = .ok s) : s.Splits cs := by
  unfold scan at h
  split at h
  · simp only [Except.ok.injEq] at h
    subst h
    exact scanField?_splits ‹_›
  · exact scanMusic_splits h

theorem Scanned.Splits.rest_length_lt {s : Scanned} {cs : List Char} (h : s.Splits cs) :
    s.rest.length < cs.length := by
  have := List.length_pos_iff.2 h.1
  rw [← h.2, List.length_append]
  omega

end Token

/-- The tokens of a text, and the error that ended them if there was one. -/
structure Lexed where
  tokens : List PlacedToken
  failure : Option LexError

namespace Lexed

def push (t : PlacedToken) (l : Lexed) : Lexed :=
  { l with tokens := t :: l.tokens }

/-- Scans from `place` on. A field may follow if a line starts here or in the blanks ahead. -/
def scanFrom (place : Place) (lineStart : Bool) (cs : List Char) : Lexed :=
  let blanks := cs.takeWhile Token.isSpace
  let text := cs.dropWhile Token.isSpace
  let start := place.advanceAll blanks
  if text.isEmpty then ⟨[], none⟩
  else
    match h : Token.scan (lineStart || blanks.contains '\n') text with
    | .error fault => ⟨[], some ⟨fault, LexError.preview text, start.position⟩⟩
    | .ok s =>
      have : s.rest.length < cs.length :=
        Nat.lt_of_lt_of_le (Token.scan_splits h).rest_length_lt
          (List.dropWhile_suffix Token.isSpace).length_le
      push ⟨s.token, s.lexeme, start⟩ (scanFrom (start.advanceAll s.lexeme) false s.rest)
termination_by cs.length

def ofText (text : String) : Lexed :=
  scanFrom .first true text.toList

end Lexed

end Tunebook
