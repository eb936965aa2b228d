import Tunebook.Proofs.Tune.Reading

namespace Tunebook

/-- The error as it is for tokens that have no places. -/
def TuneError.unplaced : TuneError → TuneError
  | unexpectedToken found _ expected => unexpectedToken found .first expected
  | danglingAccidental _ => danglingAccidental .first
  | mixedOctave _ => mixedOctave .first
  | lengthTooLong _ => lengthTooLong .first
  | octaveTooHigh _ => octaveTooHigh .first
  | e => e

theorem TuneError.unplaced_eq_ok {α : Type} {x : Except TuneError α} {a : α} :
    x.mapError unplaced = .ok a ↔ x = .ok a := by
  cases x <;> simp [Except.mapError]

namespace Music

abbrev Reader (α : Type) := Tokens → Except TuneError (α × Tokens)

namespace Reader

def give {α : Type} (a : α) : Reader α :=
  fun ts => .ok (a, ts)

def fail {α : Type} (e : TuneError) : Reader α :=
  fun _ => .error e

def lift {α : Type} (x : Except TuneError α) : Reader α :=
  fun ts => x.map fun a => (a, ts)

def andThen {α β : Type} (f : Reader α) (g : α → Reader β) : Reader β :=
  fun ts =>
    match f ts with
    | .error e => .error e
    | .ok (a, rest) => g a rest

end Reader

open Reader

theorem andThen_eq_ok {α β : Type} {f : Reader α} {g : α → Reader β} {ts : Tokens}
    {r : β × Tokens} (h : andThen f g ts = .ok r) :
    ∃ a rest, f ts = .ok (a, rest) ∧ g a rest = .ok r := by
  unfold andThen at h
  rcases hf : f ts with e | ⟨a, rest⟩ <;> rw [hf] at h
  · cases h
  · exact ⟨a, rest, rfl, h⟩

theorem length_eq (failure : Option LexError) :
    length failure = andThen (numerator failure) fun num =>
      andThen (denominator failure) fun den => give ⟨num, den⟩ := by
  funext ts
  unfold length andThen
  rcases numerator failure ts with e | ⟨num, rest⟩
  · rfl
  · dsimp only
    rcases denominator failure rest with e | ⟨den, rest⟩ <;> rfl

theorem note_eq (failure : Option LexError) (letter : NoteLetter) (position : Position) :
    note failure letter position = andThen (octaves failure 0) fun shift =>
      match Pitch.shiftOctave? ⟨letter.letter, letter.octave, 0⟩ shift with
      | none => fail (.octaveTooHigh position)
      | some pitch => andThen (length failure) fun duration => give ⟨pitch, duration⟩ := by
  funext ts
  unfold note andThen
  rcases octaves failure 0 ts with e | ⟨shift, rest⟩
  · rfl
  · dsimp only
    cases Pitch.shiftOctave? ⟨letter.letter, letter.octave, 0⟩ shift with
    | none => rfl
    | some pitch =>
      dsimp only
      rcases length failure rest with e | ⟨duration, rest⟩ <;> rfl

theorem pushNote_eq (failure : Option LexError) (c : ChordNotes) (t : PlacedToken) :
    pushNote failure c t =
      match t.token with
      | .letter l => andThen (note failure l t.position) fun n => give (c.push n)
      | .accidental shift => andThen (alteredNote failure t) fun n => give (c.pushAltered shift n)
      | _ => lift (unexpected t .noteOrChordEnd) := by
  funext ts
  unfold pushNote andThen
  cases t.token with
  | letter l =>
    dsimp only
    rcases note failure l t.position ts with e | ⟨n, rest⟩ <;> rfl
  | accidental shift =>
    dsimp only
    rcases alteredNote failure t ts with e | ⟨n, rest⟩ <;> rfl
  | _ => rfl

theorem chordNotes_step (failure : Option LexError) (c : ChordNotes) (t : PlacedToken)
    (ts : Tokens) (h : t.token ≠ .chordEnd) :
    chordNotes failure c (t :: ts) = andThen (pushNote failure c t) (chordNotes failure) ts := by
  rw [chordNotes, if_neg h]
  unfold andThen
  split <;> rename_i hp <;> simp only [hp]

/-- The chord as it is, or with its notes multiplied by the length after the bracket. -/
def finishChord (start : PlacedToken) (c : ChordNotes) (stretched : Bool) (factor : Duration) :
    Reader (List Element) :=
  match if stretched then stretch? factor c.notes else some c.notes with
  | none => fail (.lengthTooLong start.position)
  | some notes => give (c.accidentals ++ [.chord notes])

/-- The end of a chord after its closing bracket. -/
def closing (failure : Option LexError) (start : PlacedToken) (c : ChordNotes) :
    Reader (List Element) :=
  fun ts => andThen (length failure) (finishChord start c (startsLength ts)) ts

theorem chord_eq (failure : Option LexError) (start : PlacedToken) :
    chord failure start = andThen (chordNotes failure ⟨[], []⟩) (closing failure start) := by
  funext ts
  unfold chord closing finishChord andThen
  rcases chordNotes failure ⟨[], []⟩ ts with e | ⟨c, rest⟩
  · rfl
  · dsimp only
    rcases length failure rest with e | ⟨factor, rest'⟩
    · rfl
    · dsimp only
      cases startsLength rest with
      | false => rfl
      | true => cases stretch? factor c.notes <;> rfl

theorem elements_eq (failure : Option LexError) (t : PlacedToken) :
    elements failure t =
      match t.token with
      | .letter l => andThen (note failure l t.position) fun n => give [.note n]
      | .rest => andThen (length failure) fun d => give [.rest d]
      | .accidental shift =>
        andThen (alteredNote failure t) fun n => give [.accidental n.pitch shift, .note n]
      | .chordStart => chord failure t
      | .tuplet size => give [(Tuplet.empty size).toElement]
      | _ => lift (unexpected t .music) := by
  funext ts
  unfold elements andThen
  cases t.token with
  | letter l =>
    dsimp only
    rcases note failure l t.position ts with e | ⟨n, rest⟩ <;> rfl
  | rest =>
    dsimp only
    rcases length failure ts with e | ⟨d, rest⟩ <;> rfl
  | accidental shift =>
    dsimp only
    rcases alteredNote failure t ts with e | ⟨n, rest⟩ <;> rfl
  | _ => rfl

def seen {α : Type} : Except TuneError (α × Tokens) → Except TuneError (α × List Token)
  | .error e => .error e.unplaced
  | .ok (a, ts) => .ok (a, ts.map PlacedToken.token)

/-- On tokens of the same kinds the readers cannot be told apart. -/
def Alike {α : Type} (f f' : Reader α) : Prop :=
  ∀ ts ts', ts.map PlacedToken.token = ts'.map PlacedToken.token → seen (f ts) = seen (f' ts')

theorem seen_andThen {α β : Type} {f f' : Reader α} {g g' : α → Reader β} {ts ts' : Tokens}
    (hf : seen (f ts) = seen (f' ts'))
    (hg : ∀ a rest rest', f ts = .ok (a, rest) →
      rest.map PlacedToken.token = rest'.map PlacedToken.token →
      seen (g a rest) = seen (g' a rest')) :
    seen (andThen f g ts) = seen (andThen f' g' ts') := by
  unfold andThen
  rcases hr : f ts with e | ⟨a, rest⟩ <;> rcases hr' : f' ts' with e' | ⟨a', rest'⟩ <;>
    rw [hr, hr'] at hf <;> simp only [seen, Except.ok.injEq, Except.error.injEq, Prod.mk.injEq,
      reduceCtorEq] at hf
  · simp only [seen, hf]
  · obtain ⟨rfl, hrest⟩ := hf
    exact hg a rest rest' hr hrest

namespace Alike

theorem give {α : Type} (a : α) : Alike (Reader.give a) (Reader.give a) := by
  intro ts ts' h
  simp only [Reader.give, seen, h]

theorem fail {α : Type} {e e' : TuneError} (h : e.unplaced = e'.unplaced) :
    Alike (Reader.fail e : Reader α) (Reader.fail e') := by
  intro ts ts' _
  simp only [Reader.fail, seen, h]

theorem lift {α : Type} {x x' : Except TuneError α}
    (h : x.mapError TuneError.unplaced = x'.mapError TuneError.unplaced) :
    Alike (Reader.lift x) (Reader.lift x') := by
  intro ts ts' hts
  cases x <;> cases x' <;>
    simp only [Except.mapError, Except.ok.injEq, Except.error.injEq, reduceCtorEq] at h <;>
    simp only [Reader.lift, Except.map, seen, h, hts]

theorem andThen {α β : Type} {f f' : Reader α} {g g' : α → Reader β} (hf : Alike f f')
    (hg : ∀ a, Alike (g a) (g' a)) : Alike (Reader.andThen f g) (Reader.andThen f' g') :=
  fun ts ts' h => seen_andThen (hf ts ts' h) fun a rest rest' _ hrest => hg a rest rest' hrest

theorem of_cons {α : Type} {f f' : Reader α} (hnil : seen (f []) = seen (f' []))
    (hcons : ∀ k lexeme lexeme' place place' ts ts',
      ts.map PlacedToken.token = ts'.map PlacedToken.token →
      seen (f (⟨k, lexeme, place⟩ :: ts)) = seen (f' (⟨k, lexeme', place'⟩ :: ts'))) :
    Alike f f' := by
  intro ts ts' h
  cases ts with
  | nil =>
    obtain rfl : ts' = [] := by simpa using h.symm
    exact hnil
  | cons t ts =>
    obtain ⟨⟨k, lexeme', place'⟩, us, rfl, rfl, hus⟩ := List.map_eq_cons_iff.1 h.symm
    exact hcons _ _ _ _ _ _ _ hus.symm

end Alike

theorem octaves_alike (shift : Int8) : Alike (octaves none shift) (octaves none shift) := by
  intro ts
  induction ts generalizing shift with
  | nil =>
    intro ts' h
    obtain rfl : ts' = [] := by simpa using h.symm
    rfl
  | cons t ts ih =>
    intro ts' h
    obtain ⟨t', us, rfl, ht, hus⟩ := List.map_eq_cons_iff.1 h.symm
    rw [octaves, octaves, ht]
    cases hk : t.token with
    | octave marks =>
      dsimp only
      by_cases hmixed : shift ≠ 0 ∧ shift.toInt.sign ≠ marks.toInt.sign
      · rw [if_pos hmixed, if_pos hmixed]
        rfl
      · rw [if_neg hmixed, if_neg hmixed]
        exact ih _ us hus.symm
    | _ => exact congrArg (fun ks => Except.ok (shift, ks)) h

theorem numerator_alike : Alike (numerator none) (numerator none) := by
  refine .of_cons rfl ?_
  intro k _ _ _ _ ts ts' h
  cases k with
  | digits n => exact congrArg (fun ks => Except.ok (n, ks)) h
  | _ => exact congrArg (fun ks => Except.ok (1, _ :: ks)) h

theorem divisor_alike : Alike (divisor none) (divisor none) := by
  refine .of_cons rfl ?_
  intro k _ _ _ _ ts ts' h
  cases k with
  | digits n =>
    simp only [divisor]
    by_cases hn : n = 0
    · rw [if_pos hn, if_pos hn]
      rfl
    · rw [if_neg hn, if_neg hn]
      exact congrArg (fun ks => Except.ok (n, ks)) h
  | _ => exact congrArg (fun ks => Except.ok (2, _ :: ks)) h

theorem denominator_alike : Alike (denominator none) (denominator none) := by
  refine .of_cons rfl ?_
  intro k _ _ _ _ ts ts' h
  cases k with
  | fractionBar => exact divisor_alike ts ts' h
  | _ => exact congrArg (fun ks => Except.ok (1, _ :: ks)) h

theorem length_alike : Alike (length none) (length none) := by
  rw [length_eq]
  exact numerator_alike.andThen fun num => denominator_alike.andThen fun den => .give _

theorem note_alike (letter : NoteLetter) (position position' : Position) :
    Alike (note none letter position) (note none letter position') := by
  rw [note_eq, note_eq]
  refine (octaves_alike 0).andThen fun shift => ?_
  cases Pitch.shiftOctave? ⟨letter.letter, letter.octave, 0⟩ shift with
  | none => exact .fail rfl
  | some pitch => exact length_alike.andThen fun duration => .give _

theorem alteredNote_alike (sign sign' : PlacedToken) :
    Alike (alteredNote none sign) (alteredNote none sign') := by
  refine .of_cons rfl ?_
  intro k _ _ _ _ ts ts' h
  cases k with
  | letter l => exact note_alike l _ _ ts ts' h
  | _ => rfl

theorem unexpected_unplaced {α : Type} {t t' : PlacedToken} (ht : t.token = t'.token)
    (expected : Expected) :
    (unexpected t expected : Except TuneError α).mapError TuneError.unplaced =
      (unexpected t' expected).mapError TuneError.unplaced := by
  simp only [unexpected, Except.mapError, TuneError.unplaced, ht]

theorem pushNote_alike (c : ChordNotes) {t t' : PlacedToken} (ht : t.token = t'.token) :
    Alike (pushNote none c t) (pushNote none c t') := by
  rw [pushNote_eq, pushNote_eq, ht]
  cases t'.token with
  | letter l => exact (note_alike l _ _).andThen fun n => .give _
  | accidental shift => exact (alteredNote_alike t t').andThen fun n => .give _
  | _ => exact .lift (unexpected_unplaced ht _)

theorem chordNotes_alike (c : ChordNotes) : Alike (chordNotes none c) (chordNotes none c) := by
  intro ts
  induction hn : ts.length using Nat.strong_induction_on generalizing c ts with
  | _ n ih =>
    intro ts' h
    cases ts with
    | nil =>
      obtain rfl : ts' = [] := by simpa using h.symm
      rfl
    | cons t ts =>
      obtain ⟨t', us, rfl, ht, hus⟩ := List.map_eq_cons_iff.1 h.symm
      by_cases hend : t.token = .chordEnd
      · rw [chordNotes, chordNotes, if_pos hend, if_pos (ht.trans hend)]
        split
        · simp only [unexpected, seen, TuneError.unplaced, ht]
        · exact congrArg (fun ks => Except.ok (c, ks)) hus.symm
      · rw [chordNotes_step _ _ _ _ hend, chordNotes_step _ _ _ _ (ht ▸ hend)]
        refine seen_andThen (pushNote_alike c ht.symm ts us hus.symm) ?_
        intro c' rest rest' hpush hrest
        have hlt : rest.length < n := by
          rw [← hn]
          exact Nat.lt_succ_of_le (pushNote_length hpush)
        exact ih _ hlt c' rest rfl rest' hrest

theorem startsLength_alike {ts ts' : Tokens}
    (h : ts.map PlacedToken.token = ts'.map PlacedToken.token) :
    startsLength ts = startsLength ts' := by
  cases ts with
  | nil =>
    obtain rfl : ts' = [] := by simpa using h.symm
    rfl
  | cons t ts =>
    obtain ⟨⟨k, lexeme', place'⟩, us, rfl, rfl, -⟩ := List.map_eq_cons_iff.1 h.symm
    rfl

theorem closing_alike (start start' : PlacedToken) (c : ChordNotes) :
    Alike (closing none start c) (closing none start' c) := by
  intro ts ts' h
  unfold closing
  rw [startsLength_alike h]
  refine length_alike.andThen (fun factor => ?_) ts ts' h
  unfold finishChord
  split
  · exact .fail rfl
  · exact .give _

theorem elements_alike {t t' : PlacedToken} (ht : t.token = t'.token) :
    Alike (elements none t) (elements none t') := by
  rw [elements_eq, elements_eq, ht]
  cases t'.token with
  | letter l => exact (note_alike l _ _).andThen fun n => .give _
  | rest => exact length_alike.andThen fun d => .give _
  | accidental shift => exact (alteredNote_alike t t').andThen fun n => .give _
  | chordStart =>
    dsimp only
    rw [chord_eq, chord_eq]
    exact (chordNotes_alike _).andThen fun c => closing_alike t t' c
  | tuplet size => exact .give _
  | _ => exact .lift (unexpected_unplaced ht _)

end Music

namespace Reading

open Music Reader

theorem step_eq (failure : Option LexError) (r : Reading) (t : PlacedToken) :
    r.step failure t =
      match t.token with
      | .field kind value => lift (r.field kind value)
      | .comment _ => give r
      | .barline line => lift (r.music t [.barline line])
      | .ending which => lift (r.music t [.ending which])
      | _ => andThen (elements failure t) fun es => lift (r.music t (es.map .element)) := by
  funext ts
  unfold step andThen
  cases t.token with
  | field | comment | barline | ending => rfl
  | _ =>
    dsimp only
    rcases elements failure t ts with e | ⟨es, rest⟩ <;> rfl

theorem music_unplaced (r : Reading) {t t' : PlacedToken} (ht : t.token = t'.token)
    (strokes : List Stroke) :
    (r.music t strokes).mapError TuneError.unplaced =
      (r.music t' strokes).mapError TuneError.unplaced := by
  unfold music
  split
  · exact unexpected_unplaced ht _
  · rfl

theorem step_alike (r : Reading) {t t' : PlacedToken} (ht : t.token = t'.token) :
    Alike (r.step none t) (r.step none t') := by
  have hmusic := music_unplaced r ht
  rw [step_eq, step_eq, ht]
  cases t'.token with
  | field kind value => exact .lift rfl
  | comment text => exact .give r
  | barline line => exact .lift (hmusic _)
  | ending which => exact .lift (hmusic _)
  | _ => exact (elements_alike ht).andThen fun es => .lift (hmusic _)

theorem run_unplaced (r : Reading) (ts ts' : Tokens)
    (h : ts.map PlacedToken.token = ts'.map PlacedToken.token) :
    (r.run none ts).mapError TuneError.unplaced = (r.run none ts').mapError TuneError.unplaced := by
  induction hn : ts.length using Nat.strong_induction_on generalizing r ts ts' with
  | _ n ih =>
    cases ts with
    | nil =>
      obtain rfl : ts' = [] := by simpa using h.symm
      rfl
    | cons t ts =>
      obtain ⟨t', us, rfl, ht, hus⟩ := List.map_eq_cons_iff.1 h.symm
      have hstep := step_alike r ht.symm ts us hus.symm
      rw [run_cons, run_cons]
      rcases hs : r.step none t ts with e | ⟨next, rest⟩ <;>
        rcases hs' : r.step none t' us with e' | ⟨next', rest'⟩ <;>
        rw [hs, hs'] at hstep <;>
        simp only [seen, Except.ok.injEq, Except.error.injEq, Prod.mk.injEq, reduceCtorEq] at hstep
      · simp only [Except.mapError, hstep]
      · obtain ⟨rfl, hrest⟩ := hstep
        have hlt : rest.length < n := by
          rw [← hn]
          exact Nat.lt_succ_of_le (step_length hs)
        exact ih _ hlt next rest rest' hrest rfl

end Reading

namespace Tune

theorem ofTokens_unplaced (ts ts' : Music.Tokens)
    (h : ts.map PlacedToken.token = ts'.map PlacedToken.token) :
    (ofTokens ⟨ts, none⟩).mapError TuneError.unplaced =
      (ofTokens ⟨ts', none⟩).mapError TuneError.unplaced := by
  have hrun := Reading.run_unplaced .start ts ts' h
  unfold ofTokens
  rcases hr : Reading.start.run none ts with e | r <;>
    rcases hr' : Reading.start.run none ts' with e' | r' <;>
    rw [hr, hr'] at hrun <;>
    simp only [Except.mapError, Except.ok.injEq, Except.error.injEq, reduceCtorEq] at hrun
  · simp only [Except.mapError, hrun]
  · rw [hrun]

end Tune

end Tunebook
