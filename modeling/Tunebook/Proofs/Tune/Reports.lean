import Tunebook.Proofs.Token.Coverage
import Tunebook.Proofs.Tune.Kinds

namespace Tunebook

/-- How many octaves the token is worth, downwards below zero. -/
def PlacedToken.marks (t : PlacedToken) : Int :=
  match t.token with
  | .octave marks => marks.toInt
  | _ => 0

theorem PlacedToken.marks_of_octave {t : PlacedToken} {marks : Int8} (h : t.token = .octave marks) :
    t.marks = marks.toInt := by
  rw [PlacedToken.marks, h]

namespace Music

def octaveTotal : Tokens → Int
  | [] => 0
  | t :: ts => t.marks + octaveTotal ts

theorem octaveTotal_append_singleton (ts : Tokens) (t : PlacedToken) :
    octaveTotal (ts ++ [t]) = octaveTotal ts + t.marks := by
  induction ts with
  | nil => simp [octaveTotal]
  | cons u ts ih => simp only [List.cons_append, octaveTotal, ih, Int.add_assoc]

theorem addOctaves_toInt (a b : Int8) :
    (addOctaves a b).toInt = max (-128) (min 127 (a.toInt + b.toInt)) :=
  Int8.toInt_ofInt_of_le (by omega) (by omega)

/-- Octave marks that all go one way, and what they come to. The sum is held to a signed byte, so
it may fall short of the marks. -/
inductive Shifted : Int8 → Tokens → Prop
  | none : Shifted 0 []
  | up {shift : Int8} {marks : Tokens} (hm : ∀ m ∈ marks, 0 < m.marks) (hs : 0 < shift.toInt)
    (ht : shift.toInt ≤ octaveTotal marks) : Shifted shift marks
  | down {shift : Int8} {marks : Tokens} (hm : ∀ m ∈ marks, m.marks < 0) (hs : shift.toInt < 0)
    (ht : octaveTotal marks ≤ shift.toInt) : Shifted shift marks

end Music

namespace Lexed

open Music

/-- The tokens, or the fault after them, are a reason for the error. -/
inductive Explains (l : Lexed) : TuneError → Prop
  | lex {error : LexError} (h : l.failure = some error) : Explains l (.lex error)
  | unexpectedToken {t : PlacedToken} {expected : Expected} (ht : t ∈ l.tokens) :
    Explains l (.unexpectedToken t.token t.position expected)
  | unexpectedEnd {expected : Expected} (h : l.failure = none) :
    Explains l (.unexpectedEnd expected)
  | invalidField {t : PlacedToken} {kind : FieldKind} {written value : String}
    {fault : FieldFault} (ht : t ∈ l.tokens) (hk : t.token = .field kind written) :
    Explains l (.invalidField kind value fault)
  | invalidKey {t : PlacedToken} {written code : String} (ht : t ∈ l.tokens)
    (hk : t.token = .field .key written) : Explains l (.invalidKey code)
  | danglingAccidental {sign : PlacedToken} {shift : Int8} {before after : Tokens}
    (hl : l.tokens = before ++ sign :: after) (hs : sign.token = .accidental shift)
    (hend : after = [] → l.failure = none)
    (hnext : ∀ t ∈ after.head?, ∀ note, t.token ≠ .letter note) :
    Explains l (.danglingAccidental sign.position)
  | mixedOctave {earlier t : PlacedToken} {before after : Tokens}
    (hl : l.tokens = before ++ earlier :: t :: after)
    (hm : 0 < earlier.marks ∧ t.marks < 0 ∨ earlier.marks < 0 ∧ 0 < t.marks) :
    Explains l (.mixedOctave t.position)
  | lengthTooLong {start : PlacedToken} (ht : start ∈ l.tokens)
    (hs : start.token = .chordStart) : Explains l (.lengthTooLong start.position)
  | octaveTooHigh {t : PlacedToken} {note : NoteLetter} {before marks after : Tokens}
    (hl : l.tokens = before ++ t :: (marks ++ after)) (ht : t.token = .letter note)
    (hr : note.raised = true) (hm : ∀ m ∈ marks, 0 < m.marks)
    (htotal : 127 ≤ octaveTotal marks) : Explains l (.octaveTooHigh t.position)

def Justifies (l : Lexed) {α : Type} (x : Except TuneError α) : Prop :=
  ∀ e, x = .error e → l.Explains e

namespace Justifies

variable {l : Lexed} {α β : Type}

theorem ok (a : α) : l.Justifies (.ok a : Except TuneError α) := by
  intro e he
  cases he

theorem error {e : TuneError} (h : l.Explains e) : l.Justifies (.error e : Except TuneError α) := by
  intro e' he
  cases he
  exact h

theorem map {x : Except TuneError α} (h : l.Justifies x) (f : α → β) : l.Justifies (x.map f) := by
  cases x with
  | error e => exact .error (h e rfl)
  | ok a => exact .ok (f a)

theorem unexpected {t : PlacedToken} (ht : t ∈ l.tokens) (expected : Expected) :
    l.Justifies (Music.unexpected t expected : Except TuneError α) :=
  .error (.unexpectedToken ht)

theorem atEnd (a : α) : l.Justifies (Music.atEnd l.failure a) := by
  unfold Music.atEnd
  cases hf : l.failure with
  | none => exact .ok a
  | some error => exact .error (.lex hf)

theorem bind {x : Except TuneError α} {f : α → Except TuneError β} (hx : l.Justifies x)
    (hf : ∀ a, x = .ok a → l.Justifies (f a)) : l.Justifies (x.bind f) := by
  cases x with
  | error e => exact .error (hx e rfl)
  | ok a => exact hf a rfl

theorem andThen {f : Reader α} {g : α → Reader β} {ts : Tokens} (hf : l.Justifies (f ts))
    (hg : ∀ a rest, f ts = .ok (a, rest) → l.Justifies (g a rest)) :
    l.Justifies (Reader.andThen f g ts) := by
  unfold Reader.andThen
  rcases hr : f ts with e | ⟨a, rest⟩
  · exact .error (hf e hr)
  · exact hg a rest hr

end Justifies

end Lexed

namespace Music

open Lexed

/-- The test that octave marks are held to, in terms of which way they go. -/
theorem opposite_iff {shift marks : Int8} (hm : marks.toInt ≠ 0) :
    shift ≠ 0 ∧ shift.toInt.sign ≠ marks.toInt.sign ↔
      0 < shift.toInt ∧ marks.toInt < 0 ∨ shift.toInt < 0 ∧ 0 < marks.toInt := by
  have hzero : shift ≠ 0 ↔ shift.toInt ≠ 0 := by rw [ne_eq, ← Int8.toInt_inj, Int8.toInt_zero]
  rw [hzero]
  rcases lt_or_gt_of_ne hm with hneg | hpos
  · rw [Int.sign_eq_neg_one_of_neg hneg, ne_eq _ (-1), Int.sign_eq_neg_one_iff_neg]
    omega
  · rw [Int.sign_eq_one_of_pos hpos, ne_eq _ 1, Int.sign_eq_one_iff_pos]
    omega

theorem Shifted.push {shift marks : Int8} {taken : Tokens} {t : PlacedToken}
    (h : Shifted shift taken) (ht : t.token = .octave marks) (hne : marks.toInt ≠ 0)
    (hsame : ¬(shift ≠ 0 ∧ shift.toInt.sign ≠ marks.toInt.sign)) :
    Shifted (addOctaves shift marks) (taken ++ [t]) := by
  rw [opposite_iff hne] at hsame
  have hmarks := PlacedToken.marks_of_octave ht
  have htotal := octaveTotal_append_singleton taken t
  have hsum := addOctaves_toInt shift marks
  have hup : (∀ m ∈ taken, 0 < m.marks) → 0 ≤ shift.toInt → shift.toInt ≤ octaveTotal taken →
      0 < marks.toInt → Shifted (addOctaves shift marks) (taken ++ [t]) := by
    intro hm hs hle hpos
    refine .up ?_ (by omega) (by omega)
    simpa [or_imp, forall_and, hmarks] using ⟨hm, hpos⟩
  have hdown : (∀ m ∈ taken, m.marks < 0) → shift.toInt ≤ 0 → octaveTotal taken ≤ shift.toInt →
      marks.toInt < 0 → Shifted (addOctaves shift marks) (taken ++ [t]) := by
    intro hm hs hle hneg
    refine .down ?_ (by omega) (by omega)
    simpa [or_imp, forall_and, hmarks] using ⟨hm, hneg⟩
  cases h with
  | none =>
    rcases lt_or_gt_of_ne hne with hneg | hpos
    · exact hdown (by simp) (by simp) (by simp [octaveTotal]) hneg
    · exact hup (by simp) (by simp) (by simp [octaveTotal]) hpos
  | up hm hs hle => exact hup hm hs.le hle (by omega)
  | down hm hs hle => exact hdown hm hs.le hle (by omega)

theorem exists_last_of_octaveTotal {ts : Tokens} (h : octaveTotal ts ≠ 0) :
    ∃ earlier last, ts = earlier ++ [last] := by
  rcases List.eq_nil_or_concat ts with rfl | ⟨earlier, last, rfl⟩
  · exact absurd rfl h
  · exact ⟨earlier, last, List.concat_eq_append⟩

/-- Marks that do not go the way of the shift do not go the way of the token before them. -/
theorem Shifted.last_opposite {shift marks : Int8} {taken : Tokens} {t : PlacedToken}
    (h : Shifted shift taken) (ht : t.token = .octave marks) (hne : marks.toInt ≠ 0)
    (hopposite : shift ≠ 0 ∧ shift.toInt.sign ≠ marks.toInt.sign) :
    ∃ earlier last, taken = earlier ++ [last] ∧
      (0 < last.marks ∧ t.marks < 0 ∨ last.marks < 0 ∧ 0 < t.marks) := by
  rw [opposite_iff hne, ← PlacedToken.marks_of_octave ht] at hopposite
  cases h with
  | none => simp at hopposite
  | up hm hs hle =>
    obtain ⟨earlier, last, rfl⟩ := exists_last_of_octaveTotal (show octaveTotal taken ≠ 0 by omega)
    exact ⟨earlier, last, rfl, Or.inl ⟨hm last (by simp), by omega⟩⟩
  | down hm hs hle =>
    obtain ⟨earlier, last, rfl⟩ := exists_last_of_octaveTotal (show octaveTotal taken ≠ 0 by omega)
    exact ⟨earlier, last, rfl, Or.inr ⟨hm last (by simp), by omega⟩⟩

/-- The octave marks taken are the ones that the shift adds up. -/
theorem Shifted.octaves {failure : Option LexError} {shift : Int8} {taken ts : Tokens}
    {r : Int8 × Tokens} (h : Shifted shift taken) (hts : ∀ t ∈ ts, t.token.Scannable)
    (ho : Music.octaves failure shift ts = .ok r) :
    ∃ marks, ts = marks ++ r.2 ∧ Shifted r.1 (taken ++ marks) := by
  induction ts generalizing shift taken with
  | nil =>
    obtain ⟨-, rfl⟩ := atEnd_eq_ok ho
    exact ⟨[], rfl, by rwa [List.append_nil]⟩
  | cons t ts ih =>
    unfold Music.octaves at ho
    split at ho
    · rename_i marks ht
      split at ho
      · cases ho
      · rename_i hsame
        have hscan := hts t List.mem_cons_self
        rw [ht] at hscan
        have hrest : ∀ u ∈ ts, u.token.Scannable := fun u hu => hts u (List.mem_cons_of_mem t hu)
        obtain ⟨more, rfl, hmore⟩ := ih (h.push ht hscan.1 hsame) hrest ho
        exact ⟨t :: more, rfl, by rwa [List.append_assoc] at hmore⟩
    · cases ho
      exact ⟨[], rfl, by rwa [List.append_nil]⟩

theorem Shifted.up_of_pos {shift : Int8} {taken : Tokens} (h : Shifted shift taken)
    (hs : 0 < shift.toInt) : (∀ m ∈ taken, 0 < m.marks) ∧ shift.toInt ≤ octaveTotal taken := by
  cases h with
  | none => simp at hs
  | up hm _ ht => exact ⟨hm, ht⟩
  | down _ hneg _ => omega

/-- A letter stands for one of two octaves, and only the highest shift there is takes the upper one
out of range. -/
theorem shift_eq_of_shiftOctave?_eq_none {letter : NoteLetter} {shift : Int8}
    (h : Pitch.shiftOctave? ⟨letter.letter, letter.octave, 0⟩ shift = none) :
    letter.raised = true ∧ shift.toInt = 127 := by
  have hrange : ¬(-128 ≤ letter.octave.toInt + shift.toInt ∧
      letter.octave.toInt + shift.toInt ≤ 127) := by
    intro hin
    simp [Pitch.shiftOctave?, Word.fitSigned8, hin] at h
  have hlow := shift.le_toInt
  have hhigh := shift.toInt_lt
  cases hr : letter.raised with
  | false =>
    have hoctave : letter.octave.toInt = 0 := by rw [NoteLetter.octave, hr]; rfl
    omega
  | true =>
    have hoctave : letter.octave.toInt = 1 := by rw [NoteLetter.octave, hr]; rfl
    exact ⟨rfl, by omega⟩

section Readers

variable {l : Lexed}

theorem numerator_justified (ts : Tokens) : l.Justifies (numerator l.failure ts) := by
  unfold numerator
  split
  · exact .atEnd _
  · split <;> exact .ok _

theorem divisor_justified {ts : Tokens} (hs : ts <:+ l.tokens) :
    l.Justifies (divisor l.failure ts) := by
  unfold divisor
  split
  · exact .atEnd _
  · split
    · split
      · exact .unexpected (hs.subset List.mem_cons_self) _
      · exact .ok _
    · exact .ok _

theorem denominator_justified {ts : Tokens} (hs : ts <:+ l.tokens) :
    l.Justifies (denominator l.failure ts) := by
  unfold denominator
  split
  · exact .atEnd _
  · split
    · exact divisor_justified ((List.suffix_cons _ _).trans hs)
    · exact .ok _

theorem length_justified {ts : Tokens} (hs : ts <:+ l.tokens) :
    l.Justifies (length l.failure ts) := by
  rw [length_eq]
  refine .andThen (numerator_justified ts) fun num rest hn => ?_
  exact .andThen (denominator_justified ((numerator_suffix hn).trans hs)) fun den rest' _ => .ok _

variable (hl : ∀ u ∈ l.tokens, u.token.Scannable)

include hl

theorem octaves_justified {shift : Int8} {taken ts : Tokens} (h : Shifted shift taken)
    (hs : taken ++ ts <:+ l.tokens) : l.Justifies (octaves l.failure shift ts) := by
  induction ts generalizing shift taken with
  | nil => exact .atEnd _
  | cons t ts ih =>
    unfold octaves
    split
    · rename_i marks ht
      have hscan := hl t (hs.subset (by simp))
      rw [ht] at hscan
      split
      · rename_i hopposite
        obtain ⟨earlier, last, rfl, hm⟩ := h.last_opposite ht hscan.1 hopposite
        obtain ⟨before, hbefore⟩ := hs
        have hsplit : l.tokens = (before ++ earlier) ++ last :: t :: ts := by simp [← hbefore]
        exact .error (.mixedOctave hsplit hm)
      · rename_i hsame
        exact ih (h.push ht hscan.1 hsame) (by rwa [List.append_assoc])
    · exact .ok _

theorem note_justified {t : PlacedToken} {ts : Tokens} {letter : NoteLetter}
    (hs : t :: ts <:+ l.tokens) (ht : t.token = .letter letter) :
    l.Justifies (note l.failure letter t.position ts) := by
  have hts : ts <:+ l.tokens := (List.suffix_cons t ts).trans hs
  rw [note_eq]
  refine .andThen (octaves_justified hl .none hts) fun shift rest ho => ?_
  cases hp : Pitch.shiftOctave? ⟨letter.letter, letter.octave, 0⟩ shift with
  | none =>
    obtain ⟨before, hbefore⟩ := hs
    obtain ⟨hraised, hshift⟩ := shift_eq_of_shiftOctave?_eq_none hp
    have hscan : ∀ u ∈ ts, u.token.Scannable := fun u hu => hl u (hts.subset hu)
    obtain ⟨marks, rfl, hmarks⟩ := Shifted.none.octaves hscan ho
    obtain ⟨hup, htotal⟩ := hmarks.up_of_pos (by rw [hshift]; decide)
    exact .error (.octaveTooHigh hbefore.symm ht hraised hup (hshift ▸ htotal))
  | some pitch =>
    have hrest : rest <:+ l.tokens := (octaves_suffix ho).trans hts
    exact .andThen (length_justified hrest) fun duration rest' _ => .ok _

theorem alteredNote_justified {sign : PlacedToken} {ts : Tokens} {shift : Int8}
    (hs : sign :: ts <:+ l.tokens) (hsign : sign.token = .accidental shift) :
    l.Justifies (alteredNote l.failure sign ts) := by
  obtain ⟨before, hbefore⟩ := id hs
  unfold alteredNote
  split
  · refine .bind (.atEnd ()) fun _ hok => ?_
    exact .error (.danglingAccidental hbefore.symm hsign (fun _ => (atEnd_eq_ok hok).1) (by simp))
  · rename_i t ts
    split
    · rename_i letter ht
      exact note_justified hl ((List.suffix_cons sign (t :: ts)).trans hs) ht
    · rename_i hnot
      exact .error (.danglingAccidental hbefore.symm hsign (by simp) (by simpa using hnot))

theorem pushNote_justified {c : ChordNotes} {t : PlacedToken} {ts : Tokens}
    (hs : t :: ts <:+ l.tokens) : l.Justifies (pushNote l.failure c t ts) := by
  rw [pushNote_eq]
  cases ht : t.token with
  | letter letter => exact .andThen (note_justified hl hs ht) fun n rest _ => .ok _
  | accidental shift => exact .andThen (alteredNote_justified hl hs ht) fun n rest _ => .ok _
  | _ => exact .unexpected (hs.subset List.mem_cons_self) _

theorem chordNotes_justified {c : ChordNotes} {ts : Tokens} (hc : c.Sound)
    (hs : ts <:+ l.tokens) : l.Justifies (chordNotes l.failure c ts) := by
  fun_induction chordNotes l.failure c ts with
  | case1 c =>
    exact .bind (.atEnd ()) fun _ hok => .error (.unexpectedEnd (atEnd_eq_ok hok).1)
  | case2 c t ts => exact .unexpected (hs.subset List.mem_cons_self) _
  | case3 c t ts => exact .ok _
  | case4 c t ts _ e hp => exact .error (pushNote_justified hl hs e hp)
  | case5 c t ts _ c' rest hp _ ih =>
    have hspec := pushNote_spec hc (hl t (hs.subset List.mem_cons_self)) hp
    exact ih hspec.1 ((hspec.2.trans (List.suffix_cons t ts)).trans hs)

theorem chord_justified {start : PlacedToken} {ts : Tokens} (hs : start :: ts <:+ l.tokens)
    (hstart : start.token = .chordStart) : l.Justifies (chord l.failure start ts) := by
  have hts : ts <:+ l.tokens := (List.suffix_cons start ts).trans hs
  have hnone : ChordNotes.Sound ⟨[], []⟩ :=
    ⟨⟨[], rfl, Run.sound_nil, List.nil_sublist _⟩, by simp⟩
  rw [chord_eq]
  refine .andThen (chordNotes_justified hl hnone hts) fun c rest hc => ?_
  have hscan : ∀ t ∈ ts, t.token.Scannable := fun t ht => hl t (hts.subset ht)
  have hrest : rest <:+ l.tokens := (chordNotes_spec hnone hscan hc).2.2.trans hts
  refine .andThen (length_justified hrest) fun factor rest' _ => ?_
  unfold finishChord
  generalize (if startsLength rest = true then stretch? factor c.notes else some c.notes) = notes
  cases notes with
  | none => exact .error (.lengthTooLong (hs.subset List.mem_cons_self) hstart)
  | some notes => exact .ok _

theorem elements_justified {t : PlacedToken} {ts : Tokens} (hs : t :: ts <:+ l.tokens) :
    l.Justifies (elements l.failure t ts) := by
  rw [elements_eq]
  cases ht : t.token with
  | letter letter => exact .andThen (note_justified hl hs ht) fun n rest _ => .ok _
  | rest =>
    have hts : ts <:+ l.tokens := (List.suffix_cons t ts).trans hs
    exact .andThen (length_justified hts) fun d rest _ => .ok _
  | accidental shift => exact .andThen (alteredNote_justified hl hs ht) fun n rest _ => .ok _
  | chordStart => exact chord_justified hl hs ht
  | tuplet size => exact .ok _
  | _ => exact .unexpected (hs.subset List.mem_cons_self) _

end Readers

end Music

namespace Lexed.Justifies

variable {l : Lexed} {t : PlacedToken} (ht : t ∈ l.tokens)

include ht

theorem invalid {α : Type} {kind : FieldKind} {written : String}
    (hk : t.token = .field kind written) (value : List Char) (fault : FieldFault) :
    l.Justifies (Header.invalid kind value fault : Except TuneError α) :=
  .error (.invalidField ht hk)

theorem index {written : String} (hk : t.token = .field .index written) (value : List Char) :
    l.Justifies (Header.index value) := by
  unfold Header.index
  split
  · exact .ok _
  · exact invalid ht hk _ _

theorem fraction {kind : FieldKind} {written : String} (hk : t.token = .field kind written)
    (value : List Char) : l.Justifies (Header.fraction kind value) := by
  unfold Header.fraction
  split
  · exact invalid ht hk _ _
  · split
    · exact invalid ht hk _ _
    · exact invalid ht hk _ _
    · split
      · exact invalid ht hk _ _
      · exact .ok _

theorem meter {written : String} (hk : t.token = .field .meter written) (value : List Char) :
    l.Justifies (Header.meter value) := by
  unfold Header.meter
  split
  · exact .ok _
  · split
    · exact .ok _
    · split
      · exact invalid ht hk _ _
      · split
        · split
          · exact invalid ht hk _ _
          · exact .ok _
        · exact invalid ht hk _ _

theorem rate {written : String} (hk : t.token = .field .tempo written) (value : List Char) :
    l.Justifies (Header.rate value) := by
  unfold Header.rate
  split
  · split
    · exact .ok _
    · exact invalid ht hk _ _
  · split
    · rename_i e he
      exact .error (fraction ht hk _ e he)
    · split
      · exact invalid ht hk _ _
      · split
        · exact .ok _
        · exact invalid ht hk _ _

theorem tempo {written : String} (hk : t.token = .field .tempo written) (value : List Char) :
    l.Justifies (Header.tempo value) := by
  unfold Header.tempo
  split
  · rename_i e he
    exact .error (rate ht hk _ e he)
  · split
    · exact invalid ht hk _ _
    · exact .ok _

theorem voiceName {written : String} (hk : t.token = .field .voice written) (value : List Char) :
    l.Justifies (Header.voiceName value) := by
  unfold Header.voiceName
  split
  · exact invalid ht hk _ _
  · exact .ok _

theorem key {written : String} (hk : t.token = .field .key written) (value : List Char) :
    l.Justifies (Header.key value) := by
  unfold Header.key
  split
  · exact .ok _
  · exact .error (.invalidKey ht hk)

theorem apply {kind : FieldKind} {value : String} (hk : t.token = .field kind value) (tune : Tune) :
    l.Justifies (Header.apply tune kind value) := by
  unfold Header.apply
  cases kind with
  | index => exact (index ht hk _).map _
  | title => exact .ok _
  | composer => exact .ok _
  | key => exact (key ht hk _).map _
  | defaultLength => exact (fraction ht hk _).map _
  | meter => exact (meter ht hk _).map _
  | tempo => exact (tempo ht hk _).map _
  | voice => exact .ok _

theorem field {kind : FieldKind} {value : String} (hk : t.token = .field kind value)
    (r : Reading) : l.Justifies (r.field kind value) := by
  unfold Reading.field
  split
  · exact (voiceName ht hk _).map _
  · exact (apply ht hk _).map _

theorem music (r : Reading) (strokes : List Stroke) : l.Justifies (r.music t strokes) := by
  unfold Reading.music
  split
  · exact .unexpected ht _
  · exact .ok _

end Lexed.Justifies

namespace Reading

theorem step_justified {l : Lexed} (hl : ∀ u ∈ l.tokens, u.token.Scannable) {r : Reading}
    {t : PlacedToken} {ts : Music.Tokens} (hs : t :: ts <:+ l.tokens) :
    l.Justifies (r.step l.failure t ts) := by
  have ht : t ∈ l.tokens := hs.subset List.mem_cons_self
  rw [step_eq]
  cases hk : t.token with
  | field kind value => exact (Lexed.Justifies.field ht hk r).map _
  | comment text => exact .ok _
  | barline line => exact (Lexed.Justifies.music ht r _).map _
  | ending which => exact (Lexed.Justifies.music ht r _).map _
  | _ =>
    refine .andThen (Music.elements_justified hl hs) fun es rest _ => ?_
    exact (Lexed.Justifies.music ht r _).map _

/-- The readings that a run comes to, each with the tokens left to it. -/
inductive Reached (l : Lexed) : Reading → Music.Tokens → Prop
  | start : Reached l .start l.tokens
  | step {r : Reading} {t : PlacedToken} {ts : Music.Tokens} {next : Reading × Music.Tokens}
    (h : Reached l r (t :: ts)) (hs : r.step l.failure t ts = .ok next) :
    Reached l next.1 next.2

theorem Reached.sound {l : Lexed} {r : Reading} {ts : Music.Tokens} (h : Reached l r ts)
    (hl : ∀ u ∈ l.tokens, u.token.Scannable) : r.Sound ∧ ts <:+ l.tokens := by
  induction h with
  | start => exact ⟨sound_start, List.suffix_rfl⟩
  | @step r t ts next _ hs ih =>
    obtain ⟨hr, hts⟩ := ih
    obtain ⟨hnext, hsuffix⟩ := hr.step (fun u hu => hl u (hts.subset hu)) hs
    exact ⟨hnext, (hsuffix.trans (List.suffix_cons t ts)).trans hts⟩

theorem Reached.run {l : Lexed} {r : Reading} {ts : Music.Tokens} (h : Reached l r ts) :
    (∃ last t rest e, Reached l last (t :: rest) ∧ last.step l.failure t rest = .error e ∧
      r.run l.failure ts = .error e) ∨
    ∃ last, Reached l last [] ∧ r.run l.failure ts = Music.atEnd l.failure last := by
  -- a step may take several tokens, so the induction is on how many are left
  induction hn : ts.length using Nat.strong_induction_on generalizing r ts with
  | _ n ih =>
    cases ts with
    | nil => exact Or.inr ⟨r, h, by rw [Reading.run]⟩
    | cons t ts =>
      rw [run_cons]
      cases hs : r.step l.failure t ts with
      | error e => exact Or.inl ⟨r, t, ts, e, h, hs, rfl⟩
      | ok next =>
        have hlt : next.2.length < n := by
          rw [← hn]
          exact Nat.lt_succ_of_le (step_length hs)
        exact ih _ hlt (h.step hs) rfl

end Reading

namespace Tune

/-- Whatever the text, what is in it explains why it is not a tune. -/
theorem read_explains {text : String} {e : TuneError} (h : read text = .error e) :
    (Lexed.ofText text).Explains e := by
  have hl := Lexed.ofText_scannable text
  unfold read ofTokens at h
  rcases Reading.Reached.start.run with ⟨last, t, rest, e', hlast, hs, hrun⟩ | ⟨last, hlast, hrun⟩
  · rw [hrun] at h
    cases h
    exact Reading.step_justified hl (hlast.sound hl).2 e hs
  · rw [hrun] at h
    unfold Music.atEnd at h
    cases hf : (Lexed.ofText text).failure with
    | some error =>
      rw [hf] at h
      cases h
      exact .lex hf
    | none =>
      rw [hf] at h
      unfold Reading.finish at h
      dsimp only at h
      split at h
      · cases h
        exact .unexpectedEnd hf
      · cases h

end Tune

/-- The token stands in the text, and the position is that of its first character. -/
def PlacedToken.StartsAt (t : PlacedToken) (text : String) (position : Position) : Prop :=
  ∃ before after, text.toList = before ++ t.lexeme ++ after ∧
    t.place.offset = byteLength before ∧ Position.locate text.toList t.place.offset = position

theorem Lexed.startsAt_position {text : String} {t : PlacedToken}
    (ht : t ∈ (ofText text).tokens) : t.StartsAt text t.position := by
  have hcut : Cut [] text.toList (ofText text) := scanFrom_cut [] text.toList true
  obtain ⟨before, after, _, htext, hplace, -⟩ := hcut.span t ht
  refine ⟨before, after, htext, by rw [hplace]; rfl, ?_⟩
  rw [PlacedToken.position, hplace, List.nil_append, htext, List.append_assoc,
    Position.locate_append]

theorem PlacedToken.octave_of_marks {t : PlacedToken} (h : t.marks ≠ 0) :
    ∃ marks, t.token = .octave marks ∧ t.marks = marks.toInt := by
  unfold PlacedToken.marks at h
  split at h
  · rename_i marks ht
    exact ⟨marks, ht, marks_of_octave ht⟩
  · exact absurd rfl h

/-- What the error says of the text is so. -/
def TuneError.Faithful (text : String) : TuneError → Prop
  | lex error => (Lexed.ofText text).failure = some error
  | unexpectedToken found position expected =>
    ∃ t ∈ (Lexed.ofText text).tokens, t.token = found ∧ t.StartsAt text position ∧
      (unexpectedToken found position expected).message =
        "unexpected '" ++ t.token.text ++ "' at " ++ position.text ++ ": expected " ++ expected.text
  | unexpectedEnd _ => (Lexed.ofText text).failure = none
  | invalidField kind _ _ =>
    ∃ t ∈ (Lexed.ofText text).tokens, ∃ value, t.token = .field kind value
  | invalidKey _ => ∃ t ∈ (Lexed.ofText text).tokens, ∃ value, t.token = .field .key value
  | danglingAccidental position =>
    ∃ before sign after shift, (Lexed.ofText text).tokens = before ++ sign :: after ∧
      sign.token = .accidental shift ∧ sign.StartsAt text position ∧
      (after = [] ∧ (Lexed.ofText text).failure = none ∨
        ∃ next later, after = next :: later ∧ ∀ letter, next.token ≠ .letter letter)
  | mixedOctave position =>
    ∃ before earlier t after marks marks',
      (Lexed.ofText text).tokens = before ++ earlier :: t :: after ∧
      earlier.token = .octave marks ∧ t.token = .octave marks' ∧ t.StartsAt text position ∧
      (0 < marks.toInt ∧ marks'.toInt < 0 ∨ marks.toInt < 0 ∧ 0 < marks'.toInt)
  | lengthTooLong position =>
    ∃ t ∈ (Lexed.ofText text).tokens, t.token = .chordStart ∧ t.StartsAt text position
  | tooManyTicks => False
  | octaveTooHigh position =>
    ∃ t ∈ (Lexed.ofText text).tokens, ∃ letter, t.token = .letter letter ∧
      t.StartsAt text position

/-- A text that is not a tune is reported as what it is: the error is one of the text, and its
position is that of the token it is about. -/
theorem Tune.read_error_faithful (text : String) (e : TuneError) (h : read text = .error e) :
    e.Faithful text := by
  have hstarts : ∀ t ∈ (Lexed.ofText text).tokens, t.StartsAt text t.position :=
    fun _ => Lexed.startsAt_position
  cases read_explains h with
  | lex hf => exact hf
  | unexpectedToken ht => exact ⟨_, ht, rfl, hstarts _ ht, rfl⟩
  | unexpectedEnd hf => exact hf
  | invalidField ht hk => exact ⟨_, ht, _, hk⟩
  | invalidKey ht hk => exact ⟨_, ht, _, hk⟩
  | @danglingAccidental sign shift before after hsplit hs hend hnext =>
    refine ⟨before, sign, after, shift, hsplit, hs, hstarts sign (by simp [hsplit]), ?_⟩
    cases after with
    | nil => exact Or.inl ⟨rfl, hend rfl⟩
    | cons next later => exact Or.inr ⟨next, later, rfl, by simpa using hnext⟩
  | @mixedOctave earlier t before after hsplit hm =>
    obtain ⟨marks, hmarks, hvalue⟩ := earlier.octave_of_marks (by omega)
    obtain ⟨marks', hmarks', hvalue'⟩ := t.octave_of_marks (by omega)
    rw [hvalue, hvalue'] at hm
    exact ⟨before, earlier, t, after, marks, marks', hsplit, hmarks, hmarks',
      hstarts t (by simp [hsplit]), hm⟩
  | lengthTooLong ht hs => exact ⟨_, ht, hs, hstarts _ ht⟩
  | @octaveTooHigh t _ _ _ _ hsplit ht =>
    have hmem : t ∈ (Lexed.ofText text).tokens := by simp [hsplit]
    exact ⟨t, hmem, _, ht, hstarts t hmem⟩

/-- One text for each way to go wrong at a token, and one that is no text of tokens. -/
theorem Tune.read_error_faithful_texts :
    (TuneError.unexpectedToken (.octave 1) ⟨2, 3⟩ .music).Faithful "K:C\nC|'" ∧
    (TuneError.danglingAccidental ⟨1, 3⟩).Faithful "C ^|" ∧
    (TuneError.mixedOctave ⟨1, 5⟩).Faithful "[C' ,]" ∧
    (TuneError.lengthTooLong ⟨1, 2⟩).Faithful "z[C4294967295]2" ∧
    (TuneError.lex ⟨.unknown, ['&', 'D'], ⟨1, 3⟩⟩).Faithful "C &D" := by
  refine ⟨read_error_faithful _ _ ?_, read_error_faithful _ _ ?_, read_error_faithful _ _ ?_,
    read_error_faithful _ _ ?_, read_error_faithful _ _ ?_⟩ <;> with_unfolding_all rfl

end Tunebook
