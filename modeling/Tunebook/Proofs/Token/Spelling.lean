import Mathlib.Tactic.SplitIfs
import Tunebook.Proofs.Text
import Tunebook.Token.Scan

namespace Tunebook.Token

/-- What holds of every token that was read from a text. -/
def Scannable : Token → Prop
  | field _ value => '\n' ∉ value.toList ∧ Text.trim value.toList = value.toList
  | comment text => '\n' ∉ text.toList
  | accidental shift => -2 ≤ shift.toInt ∧ shift.toInt ≤ 2
  | octave marks => marks.toInt ≠ 0 ∧ -127 ≤ marks.toInt
  | _ => True

/-- All but fields and comments, which run to the end of their line. -/
def IsMusic : Token → Prop
  | field .. | comment _ => False
  | _ => True

/-- Whether `c`, written after the token, would be read as part of it. -/
def extendedBy : Token → Char → Bool
  | barline .single, c => c == '|' || c == ']' || c == ':'
  | tuplet _, c | digits _, c => c.isDigit
  | accidental _, c => c == '^' || c == '_' || c == '='
  | octave _, c => c == '\'' || c == ','
  | letter _, c => c == ':'
  | chordStart, c => c == '1' || c == '2' || c == '|'
  | field .., c | comment _, c => c != '\n'
  | _, _ => false

theorem extendedBy_accidental (shift : Int8) (c : Char) :
    (accidental shift).extendedBy c = (c == '^' || c == '_' || c == '=') := rfl

theorem extendedBy_octave (marks : Int8) (c : Char) :
    (octave marks).extendedBy c = (c == '\'' || c == ',') := rfl

theorem extendedBy_chordStart (c : Char) :
    chordStart.extendedBy c = (c == '1' || c == '2' || c == '|') := rfl

/-- The rest of a text starts with nothing that belongs to the token. -/
def Apart (t : Token) (rest : List Char) : Prop :=
  ∀ c ∈ rest.head?, t.extendedBy c = false

theorem apart_nil (t : Token) : t.Apart [] := by
  intro c hc
  simp at hc

theorem apart_cons (t : Token) (c : Char) (cs : List Char) :
    t.Apart (c :: cs) ↔ t.extendedBy c = false := by
  simp [Apart]

theorem takeWhile_append_eq (p : Char → Bool) (run rest : List Char)
    (hrun : ∀ c ∈ run, p c = true) (hrest : ∀ c ∈ rest.head?, p c = false) :
    (run ++ rest).takeWhile p = run ∧ (run ++ rest).dropWhile p = rest := by
  rw [List.takeWhile_append_of_pos hrun, List.dropWhile_append_of_pos hrun]
  cases rest with
  | nil => simp
  | cons c cs =>
    have hc : p c = false := hrest c (by simp)
    simp [hc]

theorem scanTuplet_decimal (size : UInt32) (rest : List Char)
    (h : ∀ c ∈ rest.head?, c.isDigit = false) :
    scanTuplet (Text.decimal size.toNat ++ rest) =
      .ok ⟨.tuplet size, '(' :: Text.decimal size.toNat, rest⟩ := by
  obtain ⟨ht, hd⟩ := takeWhile_append_eq Char.isDigit (Text.decimal size.toNat) rest
    (Text.isDigit_of_mem_decimal _) h
  simp only [scanTuplet, ht, hd, Text.digits?_decimal, Word.fit32_toNat]

theorem scanDigits_decimal (value : UInt32) (rest : List Char)
    (h : ∀ c ∈ rest.head?, c.isDigit = false) :
    scanDigits (Text.decimal value.toNat ++ rest) =
      .ok ⟨.digits value, Text.decimal value.toNat, rest⟩ := by
  obtain ⟨ht, hd⟩ := takeWhile_append_eq Char.isDigit (Text.decimal value.toNat) rest
    (Text.isDigit_of_mem_decimal _) h
  have hv : Nat.ofDigitChars 10 (Text.decimal value.toNat) 0 = value.toNat :=
    Nat.ofDigitChars_ten_toDigits
  simp only [scanDigits, ht, hd, hv, Word.fit32_toNat]

theorem scanAccidental_run (sign : Char) (step : Int) (fault : LexFault) (n : Nat)
    (rest : List Char) (hn : n ≤ 2) (h : ∀ c ∈ rest.head?, (c == sign) = false) :
    scanAccidental sign step fault (List.replicate n sign ++ rest) =
      .ok ⟨.accidental (Int8.ofInt (step * n)), List.replicate n sign, rest⟩ := by
  obtain ⟨ht, hd⟩ := takeWhile_append_eq (· == sign) (List.replicate n sign) rest
    (by simp [List.mem_replicate]) h
  have hl : ¬2 < n := by omega
  simp only [scanAccidental, ht, hd, List.length_replicate, hl, if_false]

theorem scanOctave_run (mark opposite : Char) (step : Int) (n : Nat) (rest : List Char)
    (h : ∀ c ∈ rest.head?, (c == mark) = false) (ho : rest.head? ≠ some opposite) :
    scanOctave mark opposite step (List.replicate n mark ++ rest) =
      if 127 < n then .error .tooManyOctaveMarks
      else .ok ⟨.octave (Int8.ofInt (step * n)), List.replicate n mark, rest⟩ := by
  obtain ⟨ht, hd⟩ := takeWhile_append_eq (· == mark) (List.replicate n mark) rest
    (by simp [List.mem_replicate]) h
  simp only [scanOctave, ht, hd, ho, if_false, List.length_replicate]

theorem scanMusic_barline (line : Barline) (rest : List Char) (h : (barline line).Apart rest) :
    scanMusic (line.chars ++ rest) = .ok ⟨.barline line, line.chars, rest⟩ := by
  cases line with
  | single =>
    cases rest with
    | nil => rfl
    | cons c cs =>
      have hc : ((c == '|' || c == ']') || c == ':') = false := (apart_cons _ c cs).1 h
      simp only [Bool.or_eq_false_iff, beq_eq_false_iff_ne] at hc
      simp [Barline.chars, scanMusic, hc.1.1, hc.1.2, hc.2]
  | double => rfl
  | thickThin => rfl
  | thinThick => rfl
  | repeatStart => rfl
  | repeatEnd => rfl

theorem scanMusic_chordStart (rest : List Char) (h : chordStart.Apart rest) :
    scanMusic ('[' :: rest) = .ok ⟨.chordStart, ['['], rest⟩ := by
  cases rest with
  | nil => rfl
  | cons c cs =>
    have hc : ((c == '1' || c == '2') || c == '|') = false := (apart_cons _ c cs).1 h
    simp only [Bool.or_eq_false_iff, beq_eq_false_iff_ne] at hc
    simp [scanMusic, hc.1.1, hc.1.2, hc.2]

theorem scanMusic_letter (note : NoteLetter) (rest : List Char) :
    scanMusic (note.char :: rest) = .ok ⟨.letter note, [note.char], rest⟩ := by
  obtain ⟨letter, raised⟩ := note
  cases letter <;> cases raised <;> rfl

theorem mem_of_isDigit (c : Char) (hc : c.isDigit = true) :
    c ∈ ['0', '1', '2', '3', '4', '5', '6', '7', '8', '9'] := by
  have h : 48 ≤ c.toNat ∧ c.toNat ≤ 57 := by
    simpa [Char.isDigit, UInt32.le_iff_toNat_le] using hc
  rw [← Char.ofNat_toNat c]
  obtain ⟨n, hn⟩ : ∃ n, c.toNat = 48 + n := ⟨c.toNat - 48, by omega⟩
  have hd : ∀ k < 10, Char.ofNat (48 + k) ∈ ['0', '1', '2', '3', '4', '5', '6', '7', '8', '9'] := by
    decide
  rw [hn]
  exact hd n (by omega)

theorem scanMusic_isDigit (c : Char) (cs : List Char) (hc : c.isDigit = true) :
    scanMusic (c :: cs) = scanDigits (c :: cs) := by
  have hm := mem_of_isDigit c hc
  simp only [List.mem_cons, List.not_mem_nil, or_false] at hm
  rcases hm with rfl | rfl | rfl | rfl | rfl | rfl | rfl | rfl | rfl | rfl <;> rfl

theorem scanMusic_digits (value : UInt32) (rest : List Char)
    (h : ∀ c ∈ rest.head?, c.isDigit = false) :
    scanMusic (Text.decimal value.toNat ++ rest) =
      .ok ⟨.digits value, Text.decimal value.toNat, rest⟩ := by
  have hs := scanDigits_decimal value rest h
  cases hd : Text.decimal value.toNat with
  | nil => exact absurd hd (Text.decimal_ne_nil _)
  | cons c cs =>
    have hc : c.isDigit = true := Text.isDigit_of_mem_decimal value.toNat c (by rw [hd]; simp)
    rw [hd, List.cons_append] at hs
    rw [List.cons_append, scanMusic_isDigit c _ hc, hs]

theorem scanMusic_accidental (shift : Int8) (rest : List Char)
    (hs : -2 ≤ shift.toInt ∧ shift.toInt ≤ 2) (h : (accidental shift).Apart rest) :
    scanMusic (accidentalChars shift ++ rest) =
      .ok ⟨.accidental shift, accidentalChars shift, rest⟩ := by
  have hr : ∀ sign ∈ ['^', '_', '='], ∀ c ∈ rest.head?, (c == sign) = false := by
    intro sign hsign c hc
    have he : ((c == '^' || c == '_') || c == '=') = false := h c hc
    simp only [Bool.or_eq_false_iff] at he
    simp only [List.mem_cons, List.not_mem_nil, or_false] at hsign
    rcases hsign with rfl | rfl | rfl
    · exact he.1.1
    · exact he.1.2
    · exact he.2
  have hv : shift.toInt = -2 ∨ shift.toInt = -1 ∨ shift.toInt = 0 ∨ shift.toInt = 1 ∨
      shift.toInt = 2 := by omega
  rw [← Int8.ofInt_toInt shift]
  rcases hv with hv | hv | hv | hv | hv <;> rw [hv]
  · exact scanAccidental_run '_' (-1) .tooFlat 2 rest (by omega) (hr '_' (by simp))
  · exact scanAccidental_run '_' (-1) .tooFlat 1 rest (by omega) (hr '_' (by simp))
  · exact scanAccidental_run '=' 0 .tooManyNaturals 1 rest (by omega) (hr '=' (by simp))
  · exact scanAccidental_run '^' 1 .tooSharp 1 rest (by omega) (hr '^' (by simp))
  · exact scanAccidental_run '^' 1 .tooSharp 2 rest (by omega) (hr '^' (by simp))

/-- One mark more than a signed byte can count is a fault; every other run is read. -/
theorem scanMusic_octave (marks : Int8) (rest : List Char) (hm : marks.toInt ≠ 0)
    (h : (octave marks).Apart rest) :
    scanMusic (octaveChars marks ++ rest) =
      if marks.toInt = -128 then .error .tooManyOctaveMarks
      else .ok ⟨.octave marks, octaveChars marks, rest⟩ := by
  have hr : ∀ mark ∈ ['\'', ','], ∀ c ∈ rest.head?, (c == mark) = false := by
    intro mark hmark c hc
    have he : (c == '\'' || c == ',') = false := h c hc
    simp only [Bool.or_eq_false_iff] at he
    simp only [List.mem_cons, List.not_mem_nil, or_false] at hmark
    rcases hmark with rfl | rfl
    · exact he.1
    · exact he.2
  have hne : ∀ mark ∈ ['\'', ','], rest.head? ≠ some mark := by
    intro mark hmark hh
    have hf := hr mark hmark mark hh
    simp at hf
  obtain ⟨n, hn⟩ : ∃ n, marks.toInt.natAbs = n + 1 := ⟨marks.toInt.natAbs - 1, by omega⟩
  have hlt := marks.toInt_lt
  have hle := marks.le_toInt
  by_cases hpos : 0 < marks
  · have hp : 0 < marks.toInt := Int8.lt_iff_toInt_lt.1 hpos
    have hc : octaveChars marks = List.replicate (n + 1) '\'' := by
      rw [octaveChars, if_pos hpos, hn]
    have hi : Int8.ofInt (1 * ((n + 1 : Nat) : Int)) = marks := by
      rw [show (1 : Int) * ((n + 1 : Nat) : Int) = marks.toInt by omega, Int8.ofInt_toInt]
    have hs := scanOctave_run '\'' ',' 1 (n + 1) rest (hr '\'' (by simp)) (hne ',' (by simp))
    rw [if_neg (by omega), hi] at hs
    rw [if_neg (by omega), hc]
    exact hs
  · have hp : marks.toInt < 0 := by
      have := fun h0 => hpos (Int8.lt_iff_toInt_lt.2 h0)
      change ¬0 < marks.toInt at this
      omega
    have hc : octaveChars marks = List.replicate (n + 1) ',' := by
      rw [octaveChars, if_neg hpos, hn]
    have hi : Int8.ofInt (-1 * ((n + 1 : Nat) : Int)) = marks := by
      rw [show (-1 : Int) * ((n + 1 : Nat) : Int) = marks.toInt by omega, Int8.ofInt_toInt]
    have hs := scanOctave_run ',' '\'' (-1) (n + 1) rest (hr ',' (by simp)) (hne '\'' (by simp))
    rw [hi] at hs
    rw [hc]
    by_cases hb : marks.toInt = -128
    · rw [if_pos (by omega)] at hs
      rw [if_pos hb]
      exact hs
    · rw [if_neg (by omega)] at hs
      rw [if_neg hb]
      exact hs

theorem scanMusic_chars (t : Token) (rest : List Char) (hm : t.IsMusic) (hs : t.Scannable)
    (h : t.Apart rest) : scanMusic (t.chars ++ rest) = .ok ⟨t, t.chars, rest⟩ := by
  cases t with
  | field kind value => exact hm.elim
  | comment text => exact hm.elim
  | barline line => exact scanMusic_barline line rest h
  | ending which => cases which <;> rfl
  | tuplet size => exact scanTuplet_decimal size rest h
  | accidental shift => exact scanMusic_accidental shift rest hs h
  | octave marks =>
    have hb : marks.toInt ≠ -128 := by
      have := hs.2
      omega
    have ho := scanMusic_octave marks rest hs.1 h
    rwa [if_neg hb] at ho
  | letter note => exact scanMusic_letter note rest
  | rest => rfl
  | digits value => exact scanMusic_digits value rest h
  | fractionBar => rfl
  | chordStart => exact scanMusic_chordStart rest h
  | chordEnd => rfl

/-- The first two characters tell whether a field starts. -/
theorem scanField?_eq_none (c : Char) (cs : List Char)
    (h : FieldKind.ofChar? c = none ∨ cs.head? ≠ some ':') : scanField? (c :: cs) = none := by
  rw [scanField?.eq_def]
  split
  · rename_i heq
    cases heq
    rcases h with h | h
    · rw [h]
      rfl
    · exact absurd rfl h
  · rfl

theorem ofChar?_of_isDigit (c : Char) (hc : c.isDigit = true) : FieldKind.ofChar? c = none := by
  have hm := mem_of_isDigit c hc
  simp only [List.mem_cons, List.not_mem_nil, or_false] at hm
  rcases hm with rfl | rfl | rfl | rfl | rfl | rfl | rfl | rfl | rfl | rfl <;> rfl

/-- How a token of music starts: not with a blank, and like a field at most if it is a letter, which
a colon would carry on. -/
theorem chars_head (t : Token) (hm : t.IsMusic) (hs : ∀ m, t = octave m → m.toInt ≠ 0) :
    ∃ c cs, t.chars = c :: cs ∧ isSpace c = false ∧
      (FieldKind.ofChar? c = none ∨ cs = [] ∧ t.extendedBy ':' = true) := by
  cases t with
  | field kind value => exact hm.elim
  | comment text => exact hm.elim
  | barline line => cases line <;> exact ⟨_, _, rfl, rfl, Or.inl rfl⟩
  | ending which => cases which <;> exact ⟨_, _, rfl, rfl, Or.inl rfl⟩
  | accidental shift =>
    simp only [chars, accidentalChars, Pitch.sharpsAndFlats]
    split_ifs <;> exact ⟨_, _, rfl, rfl, Or.inl rfl⟩
  | octave marks =>
    obtain ⟨n, hn⟩ : ∃ n, marks.toInt.natAbs = n + 1 :=
      ⟨marks.toInt.natAbs - 1, by have := hs marks rfl; omega⟩
    simp only [chars, octaveChars, hn, List.replicate_succ]
    split_ifs <;> exact ⟨_, _, rfl, rfl, Or.inl rfl⟩
  | letter note =>
    obtain ⟨letter, raised⟩ := note
    cases letter <;> cases raised <;> exact ⟨_, _, rfl, rfl, Or.inr ⟨rfl, rfl⟩⟩
  | digits value =>
    cases hd : Text.decimal value.toNat with
    | nil => exact absurd hd (Text.decimal_ne_nil _)
    | cons c cs =>
      have hc : c.isDigit = true := Text.isDigit_of_mem_decimal value.toNat c (by rw [hd]; simp)
      have hm := mem_of_isDigit c hc
      refine ⟨c, cs, hd, ?_, Or.inl (ofChar?_of_isDigit c hc)⟩
      simp only [List.mem_cons, List.not_mem_nil, or_false] at hm
      rcases hm with rfl | rfl | rfl | rfl | rfl | rfl | rfl | rfl | rfl | rfl <;> rfl
  | tuplet size => exact ⟨_, _, rfl, rfl, Or.inl rfl⟩
  | rest => exact ⟨_, _, rfl, rfl, Or.inl rfl⟩
  | fractionBar => exact ⟨_, _, rfl, rfl, Or.inl rfl⟩
  | chordStart => exact ⟨_, _, rfl, rfl, Or.inl rfl⟩
  | chordEnd => exact ⟨_, _, rfl, rfl, Or.inl rfl⟩

/-- Where music stands, no field is read, even at the start of a line. -/
theorem scan_eq_scanMusic (lineStart : Bool) (t : Token) (rest : List Char) (hm : t.IsMusic)
    (hs : ∀ m, t = octave m → m.toInt ≠ 0) (h : t.Apart rest) :
    scan lineStart (t.chars ++ rest) = scanMusic (t.chars ++ rest) := by
  obtain ⟨c, cs, hc, -, hf⟩ := chars_head t hm hs
  have hn : scanField? (t.chars ++ rest) = none := by
    rw [hc, List.cons_append]
    apply scanField?_eq_none
    rcases hf with hf | ⟨rfl, hx⟩
    · exact Or.inl hf
    · refine Or.inr fun hh => ?_
      rw [List.nil_append] at hh
      have := h ':' hh
      rw [hx] at this
      exact Bool.noConfusion this
  unfold scan
  rw [hn]
  cases lineStart <;> rfl

theorem scan_chars (lineStart : Bool) (t : Token) (rest : List Char) (hm : t.IsMusic)
    (hs : t.Scannable) (h : t.Apart rest) :
    scan lineStart (t.chars ++ rest) = .ok ⟨t, t.chars, rest⟩ := by
  have ho : ∀ m, t = octave m → m.toInt ≠ 0 := by
    rintro m rfl
    exact hs.1
  rw [scan_eq_scanMusic lineStart t rest hm ho h, scanMusic_chars t rest hm hs h]

/-- What runs to the end of its line stops there, or at the end of the text. -/
theorem takeWhile_line (line rest : List Char) (hl : '\n' ∉ line)
    (hr : ∀ c ∈ rest.head?, notNewline c = false) :
    (line ++ rest).takeWhile notNewline = line ∧ (line ++ rest).dropWhile notNewline = rest := by
  refine takeWhile_append_eq notNewline line rest ?_ hr
  intro c hc
  have hne : c ≠ '\n' := fun he => hl (he ▸ hc)
  simpa [notNewline] using hne

theorem scan_field (kind : FieldKind) (line rest : List Char) (hl : '\n' ∉ line)
    (hr : ∀ c ∈ rest.head?, notNewline c = false) :
    scan true (kind.char :: ':' :: line ++ rest) =
      .ok ⟨.field kind (fieldValue line), kind.char :: ':' :: line, rest⟩ := by
  have hk : FieldKind.ofChar? kind.char = some kind := by cases kind <;> rfl
  obtain ⟨ht, hd⟩ := takeWhile_line line rest hl hr
  have hf : scanField? (kind.char :: ':' :: line ++ rest) =
      some ⟨.field kind (fieldValue line), kind.char :: ':' :: line, rest⟩ := by
    simp only [List.cons_append, scanField?, hk, Option.map_some, ht, hd]
  simp only [scan, hf]

theorem scan_comment (lineStart : Bool) (text : String) (rest : List Char)
    (ht : '\n' ∉ text.toList) (hr : ∀ c ∈ rest.head?, notNewline c = false) :
    scan lineStart ('%' :: text.toList ++ rest) =
      .ok ⟨.comment text, '%' :: text.toList, rest⟩ := by
  obtain ⟨htake, hdrop⟩ := takeWhile_line text.toList rest ht hr
  have hf : scanField? ('%' :: text.toList ++ rest) = none :=
    scanField?_eq_none '%' _ (Or.inl rfl)
  have hm : scanMusic ('%' :: text.toList ++ rest) =
      .ok ⟨.comment text, '%' :: text.toList, rest⟩ := by
    simp only [List.cons_append, scanMusic, htake, hdrop, String.ofList_toList]
  unfold scan
  rw [hf, ← hm]
  cases lineStart <;> rfl

theorem fieldValue_scannable (kind : FieldKind) (line : List Char) (hl : '\n' ∉ line) :
    (field kind (fieldValue line)).Scannable := by
  rw [Scannable, fieldValue, String.toList_ofList]
  refine ⟨fun hn => hl ?_, Text.trim_trim _⟩
  exact Text.unescape_subset line ((Text.trim_sublist _).subset hn)

theorem newline_not_mem_takeWhile (cs : List Char) : '\n' ∉ cs.takeWhile notNewline := by
  intro hn
  have h := List.mem_takeWhile_imp hn
  simp [notNewline] at h

theorem scanField?_scannable (cs : List Char) (s : Scanned) (h : scanField? cs = some s) :
    s.token.Scannable := by
  unfold scanField? at h
  split at h
  · obtain ⟨kind, -, rfl⟩ := Option.map_eq_some_iff.1 h
    exact fieldValue_scannable kind _ (newline_not_mem_takeWhile _)
  · simp at h

theorem scanAccidental_scannable (sign : Char) (step : Int) (fault : LexFault) (cs : List Char)
    (s : Scanned) (hstep : -1 ≤ step ∧ step ≤ 1) (h : scanAccidental sign step fault cs = .ok s) :
    s.token.Scannable := by
  unfold scanAccidental at h
  simp only at h
  split at h
  · simp at h
  · rename_i hl
    simp only [Except.ok.injEq] at h
    subst h
    have hv : step = -1 ∨ step = 0 ∨ step = 1 := by omega
    have hi : (Int8.ofInt (step * (cs.takeWhile (· == sign)).length)).toInt =
        step * (cs.takeWhile (· == sign)).length := by
      apply Int8.toInt_ofInt_of_le <;> rcases hv with rfl | rfl | rfl <;> omega
    change -2 ≤ (Int8.ofInt _).toInt ∧ (Int8.ofInt _).toInt ≤ 2
    rw [hi]
    rcases hv with rfl | rfl | rfl <;> omega

theorem scanOctave_scannable (mark opposite : Char) (step : Int) (cs : List Char) (s : Scanned)
    (hstep : step = 1 ∨ step = -1) (h : scanOctave mark opposite step (mark :: cs) = .ok s) :
    s.token.Scannable := by
  unfold scanOctave at h
  simp only at h
  split at h
  · simp at h
  · split at h
    · simp at h
    · rename_i hl
      simp only [Except.ok.injEq] at h
      subst h
      have hp : 0 < ((mark :: cs).takeWhile (· == mark)).length := by simp
      have hi : (Int8.ofInt (step * ((mark :: cs).takeWhile (· == mark)).length)).toInt =
          step * ((mark :: cs).takeWhile (· == mark)).length := by
        apply Int8.toInt_ofInt_of_le <;> rcases hstep with rfl | rfl <;> omega
      change (Int8.ofInt _).toInt ≠ 0 ∧ -127 ≤ (Int8.ofInt _).toInt
      rw [hi]
      rcases hstep with rfl | rfl <;> omega

theorem scanTuplet_scannable (cs : List Char) (s : Scanned) (h : scanTuplet cs = .ok s) :
    s.token.Scannable := by
  unfold scanTuplet at h
  simp only at h
  split at h
  · simp at h
  · split at h
    · simp at h
    · simp only [Except.ok.injEq] at h
      subst h
      trivial

theorem scanDigits_scannable (cs : List Char) (s : Scanned) (h : scanDigits cs = .ok s) :
    s.token.Scannable := by
  unfold scanDigits at h
  simp only at h
  split at h
  · simp at h
  · simp only [Except.ok.injEq] at h
    subst h
    trivial

theorem scanMusic_scannable (cs : List Char) (s : Scanned) (h : scanMusic cs = .ok s) :
    s.token.Scannable := by
  unfold scanMusic at h
  split at h
  case h_10 => exact scanTuplet_scannable _ s h
  case h_11 | h_12 | h_13 => exact scanAccidental_scannable _ _ _ _ s (by omega) h
  case h_14 | h_15 => exact scanOctave_scannable _ _ _ _ s (by simp) h
  case h_16 =>
    simp only [Except.ok.injEq] at h
    subst h
    rw [Scannable, String.toList_ofList]
    exact newline_not_mem_takeWhile _
  case h_20 =>
    split at h
    · simp only [Except.ok.injEq] at h
      subst h
      trivial
    · split at h
      · exact scanDigits_scannable _ s h
      · simp at h
  all_goals
    simp only [Except.ok.injEq, reduceCtorEq] at h
    try subst h
    try trivial

theorem scan_scannable (lineStart : Bool) (cs : List Char) (s : Scanned)
    (h : scan lineStart cs = .ok s) : s.token.Scannable := by
  unfold scan at h
  split at h
  · simp only [Except.ok.injEq] at h
    subst h
    exact scanField?_scannable cs _ ‹_›
  · exact scanMusic_scannable cs s h

end Tunebook.Token
