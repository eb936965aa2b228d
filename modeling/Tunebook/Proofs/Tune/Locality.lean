import Tunebook.Proofs.Tune.FigureReading
import Tunebook.Proofs.Tune.Kinds

namespace Tunebook

namespace Music

open Reader

/-- A reader that stopped before `rest` would have stopped before `rest'`: the next token is the
same, or it carries on nothing. -/
def Follows (rest rest' : Tokens) : Prop :=
  Clear rest' ∨ rest'.head? = rest.head?

theorem Follows.of_append {rest rest' : Tokens} (h : Follows rest rest') (taken : Tokens) :
    Follows (taken ++ rest) (taken ++ rest') := by
  cases taken with
  | nil => exact h
  | cons t taken => exact Or.inr rfl

/-- From these tokens the reader takes music, and what follows is of no account to it. -/
def LocalAt {α : Type} (f : Reader α) (ts : Tokens) : Prop :=
  ∀ a rest, f ts = .ok (a, rest) → ∃ taken, ts = taken ++ rest ∧
    (∀ t ∈ taken, t.token.IsMusic) ∧
      ∀ rest', Follows rest rest' → f (taken ++ rest') = .ok (a, rest')

def Local {α : Type} (f : Reader α) : Prop :=
  ∀ ts, LocalAt f ts

theorem LocalAt.of_untouched {α : Type} {f : Reader α} {ts : Tokens} {a : α}
    (h : ∀ rest, Follows ts rest → f rest = .ok (a, rest)) : LocalAt f ts := by
  intro b rest hb
  rw [h ts (Or.inr rfl)] at hb
  cases hb
  exact ⟨[], rfl, by simp, h⟩

theorem LocalAt.of_error {α : Type} {f : Reader α} {ts : Tokens} {e : TuneError}
    (h : f ts = .error e) : LocalAt f ts := by
  intro a rest ha
  rw [h] at ha
  cases ha

theorem LocalAt.cons {α : Type} {f g : Reader α} {t : PlacedToken} {ts : Tokens}
    (hf : ∀ us, f (t :: us) = g us) (ht : ∀ r, g ts = .ok r → t.token.IsMusic)
    (hg : LocalAt g ts) : LocalAt f (t :: ts) := by
  intro a rest ha
  rw [hf] at ha
  have hmusic := ht _ ha
  obtain ⟨taken, rfl, htaken, hrest⟩ := hg a rest ha
  refine ⟨t :: taken, rfl, List.forall_mem_cons.2 ⟨hmusic, htaken⟩, ?_⟩
  intro rest' hfollows
  rw [List.cons_append, hf]
  exact hrest rest' hfollows

theorem LocalAt.andThen {α β : Type} {f : Reader α} {g : α → Reader β} {ts : Tokens}
    (hf : LocalAt f ts) (hg : ∀ a rest, f ts = .ok (a, rest) → LocalAt (g a) rest) :
    LocalAt (Reader.andThen f g) ts := by
  intro b rest hb
  obtain ⟨a, mid, ha, hmid⟩ := andThen_eq_ok hb
  obtain ⟨taken, rfl, hmusic, hfirst⟩ := hf a mid ha
  obtain ⟨taken', rfl, hmusic', hsecond⟩ := hg a mid ha b rest hmid
  refine ⟨taken ++ taken', by rw [List.append_assoc], ?_, ?_⟩
  · intro t ht
    rcases List.mem_append.1 ht with ht | ht
    · exact hmusic t ht
    · exact hmusic' t ht
  · -- the first reader stopped before what the second one takes
    intro rest' hfollows
    have ha' := hfirst _ (hfollows.of_append taken')
    rw [List.append_assoc]
    simp only [Reader.andThen, ha']
    exact hsecond rest' hfollows

namespace Local

theorem give {α : Type} (a : α) : Local (Reader.give a) :=
  fun _ => .of_untouched fun _ _ => rfl

theorem fail {α : Type} (e : TuneError) : Local (Reader.fail e : Reader α) :=
  fun _ => .of_error rfl

theorem lift {α : Type} (x : Except TuneError α) : Local (Reader.lift x) := by
  intro ts
  cases x with
  | error e => exact .of_error rfl
  | ok a => exact .of_untouched fun _ _ => rfl

theorem andThen {α β : Type} {f : Reader α} {g : α → Reader β} (hf : Local f)
    (hg : ∀ a, Local (g a)) : Local (Reader.andThen f g) :=
  fun ts => (hf ts).andThen fun a rest _ => hg a rest

end Local

/-- A reader that stops at once, unless it is given a token that carries something on. -/
theorem LocalAt.of_stop {α : Type} {f : Reader α} {ts : Tokens} (p : Token → Prop) (a : α)
    (hp : ∀ k, p k → k.continues = true)
    (hstop : ∀ us, (∀ t ∈ us.head?, ¬p t.token) → f us = .ok (a, us))
    (htake : ∀ t us, ts = t :: us → p t.token → LocalAt f ts) : LocalAt f ts := by
  by_cases hhead : ∃ t ∈ ts.head?, p t.token
  · obtain ⟨t, ht, htp⟩ := hhead
    obtain ⟨us, rfl⟩ := List.head?_eq_some_iff.1 ht
    exact htake t us rfl htp
  · refine .of_untouched fun rest hfollows => hstop rest ?_
    intro t ht htp
    rcases hfollows with hclear | hsame
    · have hc := hclear t ht
      rw [hp _ htp] at hc
      cases hc
    · rw [hsame] at ht
      exact hhead ⟨t, ht, htp⟩

theorem octaves_local (shift : Int8) : Local (octaves none shift) := by
  have hcontinues : ∀ k, (∃ marks, k = Token.octave marks) → k.continues = true := by
    rintro k ⟨marks, rfl⟩
    rfl
  have hstop : ∀ shift us, (∀ t ∈ us.head?, ¬∃ marks, t.token = .octave marks) →
      octaves none shift us = .ok (shift, us) :=
    fun shift us hus => octaves_stop shift us fun t ht marks hm => hus t ht ⟨marks, hm⟩
  intro ts
  induction ts generalizing shift with
  | nil => exact .of_stop _ shift hcontinues (hstop shift) (by simp)
  | cons t ts ih =>
    refine .of_stop _ shift hcontinues (hstop shift) ?_
    rintro t us ⟨⟩ ⟨marks, hk⟩
    by_cases hmixed : shift ≠ 0 ∧ shift.toInt.sign ≠ marks.toInt.sign
    · refine .of_error (e := .mixedOctave t.position) ?_
      rw [octaves, hk]
      exact if_pos hmixed
    · refine .cons (fun us => ?_) (fun _ _ => by rw [hk]; trivial) (ih (addOctaves shift marks))
      rw [octaves, hk]
      exact if_neg hmixed

theorem numerator_local : Local (numerator none) := by
  intro ts
  refine .of_stop (fun k => ∃ n, k = .digits n) 1 ?_ ?_ ?_
  · rintro k ⟨n, rfl⟩
    rfl
  · exact fun us hus => numerator_stop us fun t ht n hn => hus t ht ⟨n, hn⟩
  · rintro t us rfl ⟨n, hk⟩
    refine .cons (g := give n) (fun vs => ?_) (fun _ _ => by rw [hk]; trivial) (Local.give n us)
    rw [numerator, hk]
    rfl

theorem divisor_local : Local (divisor none) := by
  intro ts
  refine .of_stop (fun k => ∃ n, k = .digits n) 2 ?_ ?_ ?_
  · rintro k ⟨n, rfl⟩
    rfl
  · intro us hus
    cases us with
    | nil => rfl
    | cons t us =>
      have ht : ∀ n, t.token ≠ .digits n := fun n hn => hus t rfl ⟨n, hn⟩
      simp only [divisor]
  · rintro t us rfl ⟨n, hk⟩
    by_cases hn : n = 0
    · refine .of_error (e := .unexpectedToken t.token t.position .nonZeroDenominator) ?_
      simp only [divisor, hk]
      rw [if_pos hn, unexpected, hk]
    · refine .cons (g := give n) (fun vs => ?_) (fun _ _ => by rw [hk]; trivial) (Local.give n us)
      simp only [divisor, hk]
      exact if_neg hn

theorem denominator_local : Local (denominator none) := by
  intro ts
  refine .of_stop (· = .fractionBar) 1 ?_ ?_ ?_
  · rintro k rfl
    rfl
  · exact fun us hus => denominator_stop us hus
  · rintro t us rfl hk
    refine .cons (fun vs => ?_) (fun _ _ => by rw [hk]; trivial) (divisor_local us)
    rw [denominator, hk]

theorem length_local : Local (length none) := by
  rw [length_eq]
  exact numerator_local.andThen fun num => denominator_local.andThen fun den => .give _

theorem note_local (letter : NoteLetter) (position : Position) :
    Local (note none letter position) := by
  rw [note_eq]
  refine (octaves_local 0).andThen fun shift => ?_
  cases Pitch.shiftOctave? ⟨letter.letter, letter.octave, 0⟩ shift with
  | none => exact .fail _
  | some pitch => exact length_local.andThen fun duration => .give _

theorem alteredNote_local (sign : PlacedToken) : Local (alteredNote none sign) := by
  intro ts
  cases ts with
  | nil => exact .of_error rfl
  | cons t ts =>
    by_cases hk : ∃ l, t.token = .letter l
    · obtain ⟨l, hk⟩ := hk
      refine .cons (fun us => ?_) (fun _ _ => by rw [hk]; trivial) (note_local l t.position ts)
      rw [alteredNote, hk]
    · refine .of_error (e := .danglingAccidental sign.position) ?_
      have ht : ∀ l, t.token ≠ .letter l := not_exists.1 hk
      simp only [alteredNote]

theorem pushNote_isMusic {c : ChordNotes} {t : PlacedToken} {ts : Tokens}
    {r : ChordNotes × Tokens} (h : pushNote none c t ts = .ok r) : t.token.IsMusic := by
  rw [pushNote_eq] at h
  cases hk : t.token with
  | field | comment =>
    rw [hk] at h
    cases h
  | _ => trivial

theorem pushNote_local (c : ChordNotes) (t : PlacedToken) : Local (pushNote none c t) := by
  rw [pushNote_eq]
  cases t.token with
  | letter l => exact (note_local l _).andThen fun n => .give _
  | accidental shift => exact (alteredNote_local t).andThen fun n => .give _
  | _ => exact .lift _

theorem chordNotes_local (c : ChordNotes) : Local (chordNotes none c) := by
  intro ts
  induction hn : ts.length using Nat.strong_induction_on generalizing c ts with
  | _ n ih =>
    cases ts with
    | nil =>
      refine .of_error (e := .unexpectedEnd .chordEnd) ?_
      rw [chordNotes]
      rfl
    | cons t ts =>
      by_cases hend : t.token = .chordEnd
      · by_cases hempty : c.notes.isEmpty = true
        · refine .of_error (e := .unexpectedToken t.token t.position .chordNote) ?_
          rw [chordNotes, if_pos hend, if_pos hempty]
          rfl
        · refine .cons (g := give c) (fun us => ?_) (fun _ _ => by rw [hend]; trivial)
            (Local.give c ts)
          rw [chordNotes, if_pos hend, if_neg hempty]
          rfl
      · refine .cons (fun us => chordNotes_step none c t us hend) ?_ ?_
        · intro r hr
          obtain ⟨c', rest, hpush, -⟩ := andThen_eq_ok hr
          exact pushNote_isMusic hpush
        · refine (pushNote_local c t ts).andThen fun c' rest hpush => ih _ ?_ c' rest rfl
          rw [← hn]
          exact Nat.lt_succ_of_le (pushNote_length hpush)

theorem length_takes {ts rest : Tokens} {d : Duration} (hs : startsLength ts = true)
    (h : length none ts = .ok (d, rest)) : rest.length < ts.length := by
  cases ts with
  | nil => cases hs
  | cons t ts =>
    rw [length_eq] at h
    obtain ⟨num, mid, hnum, h⟩ := andThen_eq_ok h
    obtain ⟨den, rest', hden, h⟩ := andThen_eq_ok h
    cases h
    obtain ⟨k, lexeme, place⟩ := t
    cases k with
    | digits n =>
      cases hnum
      exact Nat.lt_succ_of_le (denominator_length hden)
    | fractionBar =>
      cases hnum
      exact Nat.lt_succ_of_le (divisor_length hden)
    | _ => cases hs

theorem startsLength_of_head {ts ts' : Tokens} (h : ts'.head? = ts.head?) :
    startsLength ts' = startsLength ts := by
  cases ts with
  | nil => rw [List.head?_eq_none_iff.1 h]
  | cons t ts =>
    obtain ⟨us, rfl⟩ := List.head?_eq_some_iff.1 h
    rfl

theorem finishChord_local (start : PlacedToken) (c : ChordNotes) (stretched : Bool)
    (factor : Duration) : Local (finishChord start c stretched factor) := by
  unfold finishChord
  split
  · exact .fail _
  · exact .give _

theorem finishChord_rest {start : PlacedToken} {c : ChordNotes} {stretched : Bool}
    {factor : Duration} {ts rest : Tokens} {es : List Element}
    (h : finishChord start c stretched factor ts = .ok (es, rest)) : rest = ts := by
  unfold finishChord at h
  cases hn : if stretched = true then stretch? factor c.notes else some c.notes <;>
    rw [hn] at h <;> cases h
  rfl

/-- Whether the chord is multiplied is seen from the token after the bracket: a length if one is
taken, and else the token that follows the chord. -/
theorem closing_local (start : PlacedToken) (c : ChordNotes) : Local (closing none start c) := by
  intro ts es rest h
  have hlocal := length_local.andThen (finishChord_local start c (startsLength ts))
  obtain ⟨factor, mid, hlength, hfinish⟩ := andThen_eq_ok h
  obtain ⟨taken, rfl, hmusic, hrest⟩ := hlocal ts es rest h
  refine ⟨taken, rfl, hmusic, ?_⟩
  intro rest' hfollows
  have hstarts : startsLength (taken ++ rest') = startsLength (taken ++ rest) := by
    cases taken with
    | cons t taken => rfl
    | nil =>
      rcases hfollows with hclear | hsame
      · have hnone : startsLength rest = false := by
          apply Bool.eq_false_of_not_eq_true
          intro hs
          have hlt := length_takes hs hlength
          rw [finishChord_rest hfinish] at hlt
          exact Nat.lt_irrefl _ hlt
        rw [List.nil_append, List.nil_append, hclear.startsLength, hnone]
      · exact startsLength_of_head hsame
  rw [closing, hstarts]
  exact hrest rest' hfollows

theorem elements_local (t : PlacedToken) : Local (elements none t) := by
  rw [elements_eq]
  cases t.token with
  | letter l => exact (note_local l _).andThen fun n => .give _
  | rest => exact length_local.andThen fun d => .give _
  | accidental shift => exact (alteredNote_local t).andThen fun n => .give _
  | chordStart =>
    dsimp only
    rw [chord_eq]
    exact (chordNotes_local _).andThen fun c => closing_local t c
  | tuplet size => exact .give _
  | _ => exact .lift _

end Music

namespace Reading

open Music Reader

theorem step_local (r : Reading) (t : PlacedToken) : Local (r.step none t) := by
  rw [step_eq]
  cases t.token with
  | field kind value => exact .lift _
  | comment text => exact .give r
  | barline line => exact .lift _
  | ending which => exact .lift _
  | _ => exact (elements_local t).andThen fun es => .lift _

end Reading

end Tunebook
