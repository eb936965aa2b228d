import Tunebook.Proofs.Tune.RepeatGrammar
import Tunebook.Proofs.Tune.Reports

namespace Tunebook

namespace Token

/-- The value of a run of marks is their number, so that no byte was too small for it. -/
def Counts (lexeme : List Char) : Token → Prop
  | octave marks => marks.toInt.natAbs = lexeme.length ∧ lexeme.length ≤ 127
  | accidental shift =>
    (shift.toInt.natAbs = lexeme.length ∨ shift.toInt = 0) ∧ lexeme.length ≤ 2
  | _ => True

theorem toInt_ofInt_run {step : Int} {n : Nat} (hstep : step = 1 ∨ step = -1 ∨ step = 0)
    (hn : n ≤ 127) : (Int8.ofInt (step * n)).toInt = step * n := by
  apply Int8.toInt_ofInt_of_le <;> rcases hstep with rfl | rfl | rfl <;> omega

theorem scanAccidental_counts {sign : Char} {step : Int} {fault : LexFault} {cs : List Char}
    {s : Scanned} (hstep : step = 1 ∨ step = -1 ∨ step = 0)
    (h : scanAccidental sign step fault cs = .ok s) : s.token.Counts s.lexeme := by
  unfold scanAccidental at h
  dsimp only at h
  split at h
  · cases h
  · rename_i hlength
    cases h
    have hvalue := toInt_ofInt_run hstep (show (cs.takeWhile (· == sign)).length ≤ 127 by omega)
    simp only [Counts, hvalue]
    rcases hstep with rfl | rfl | rfl <;> omega

theorem scanOctave_counts {mark opposite : Char} {step : Int} {cs : List Char} {s : Scanned}
    (hstep : step = 1 ∨ step = -1) (h : scanOctave mark opposite step cs = .ok s) :
    s.token.Counts s.lexeme := by
  unfold scanOctave at h
  dsimp only at h
  split at h
  · cases h
  · split at h
    · cases h
    · rename_i hlength
      cases h
      have hle : (cs.takeWhile (· == mark)).length ≤ 127 := Nat.le_of_not_lt hlength
      have hvalue := toInt_ofInt_run (hstep.imp_right Or.inl) hle
      simp only [Counts, hvalue]
      rcases hstep with rfl | rfl <;> omega

theorem scanMusic_counts {cs : List Char} {s : Scanned} (h : scanMusic cs = .ok s) :
    s.token.Counts s.lexeme := by
  unfold scanMusic at h
  split at h
  case h_11 | h_12 | h_13 => exact scanAccidental_counts (by simp) h
  case h_14 | h_15 => exact scanOctave_counts (by simp) h
  case h_10 =>
    unfold scanTuplet at h
    dsimp only at h
    split at h
    · cases h
    · split at h <;> cases h
      trivial
  case h_20 =>
    split at h
    · cases h
      trivial
    · split at h
      · unfold scanDigits at h
        dsimp only at h
        split at h <;> cases h
        trivial
      · cases h
  all_goals
    cases h
    try trivial

theorem scan_counts {lineStart : Bool} {cs : List Char} {s : Scanned}
    (h : scan lineStart cs = .ok s) : s.token.Counts s.lexeme := by
  unfold scan at h
  split at h
  · rename_i hfield
    cases h
    unfold scanField? at hfield
    split at hfield
    · obtain ⟨kind, -, rfl⟩ := Option.map_eq_some_iff.1 hfield
      trivial
    · cases hfield
  · exact scanMusic_counts h

end Token

namespace Draft

theorem unfilled_of_none {d : Draft} (h : d.tuplet = none) : d.Unfilled := by
  intro t ht
  rw [h] at ht
  cases ht

theorem fillTuplet_unfilled (d : Draft) (t : Tuplet) (e : Element) :
    (d.fillTuplet t e).Unfilled := by
  unfold fillTuplet
  dsimp only
  split
  · exact unfilled_of_none rfl
  · rename_i hfull
    rintro t' ⟨⟩
    exact Nat.lt_of_not_le fun hle => hfull (decide_eq_true hle)

theorem element_unfilled {d d' : Draft} {e : Element} (h : d.element e = .ok d') :
    d'.Unfilled := by
  unfold element at h
  dsimp only at h
  split at h
  · cases h
  · obtain rfl := Except.ok.inj h
    exact fillTuplet_unfilled _ _ _
  · rename_i hnone
    split at h
    · rename_i hlt
      obtain rfl := Except.ok.inj h
      rintro t ⟨⟩
      exact hlt
    · obtain rfl := Except.ok.inj h
      exact unfilled_of_none hnone
  · rename_i hnone _
    obtain rfl := Except.ok.inj h
    exact unfilled_of_none hnone

/-- No stroke leaves an open tuplet that has all its notes. -/
theorem write_unfilled {d d' : Draft} {stroke : Stroke} (h : d.write stroke = .ok d') :
    d'.Unfilled := by
  cases stroke with
  | element e => exact element_unfilled h
  | barline line =>
    obtain ⟨hnone, hturn⟩ := barline_eq_ok h
    obtain ⟨next, hnext, -, htuplet, -⟩ :=
      turn_ok _ line fun hline => turn_start_eq_ok (hline ▸ hturn)
    obtain rfl := Except.ok.inj (hturn.symm.trans hnext)
    exact unfilled_of_none (htuplet.trans (d.settled_frame.2.1.trans hnone))
  | ending which =>
    cases which with
    | first =>
      obtain ⟨-, hnone, rfl⟩ := ending_first_eq_ok h
      exact unfilled_of_none (d.settled_frame.2.1.trans hnone)
    | second =>
      obtain ⟨r, -, hnone, rfl⟩ := ending_second_eq_ok h
      exact unfilled_of_none ((closed_frame _).2.2.1.trans hnone)

theorem Unfilled.writeAll {d d' : Draft} {strokes : List Stroke} (h : d.Unfilled)
    (hw : d.writeAll strokes = .ok d') : d'.Unfilled := by
  induction strokes generalizing d with
  | nil =>
    cases hw
    exact h
  | cons stroke strokes ih =>
    change (d.write stroke >>= fun d => d.writeAll strokes) = .ok d' at hw
    cases hs : d.write stroke with
    | error e =>
      rw [hs] at hw
      cases hw
    | ok next =>
      rw [hs] at hw
      exact ih (write_unfilled hs) hw

end Draft

/-- A small letter, and after it at once octave marks that all raise it, 127 of them or more. -/
def Lexed.RaisedTooHigh (l : Lexed) : Prop :=
  ∃ before t marks after letter, l.tokens = before ++ t :: (marks ++ after) ∧
    t.token = .letter letter ∧ letter.raised = true ∧ (∀ m ∈ marks, 0 < m.marks) ∧
    127 ≤ Music.octaveTotal marks

namespace Tune

/-- What is counted, looked up or cut out of the text while it is read is in range. -/
structure ReadInRange (text : String) : Prop where
  /-- A token has the value of its marks, and is cut out between characters. -/
  tokens : ∀ t ∈ (Lexed.ofText text).tokens,
    t.token.Counts t.lexeme ∧ t.StartsAt text t.position
  voices : ∀ r ts, Reading.Reached (.ofText text) r ts →
    ∀ i, r.drafts.current = some i → i < r.drafts.drafts.length
  /-- A tuplet that takes one more note has fewer than its size, also while the strokes of one token
  are written. -/
  tuplets : ∀ r ts, Reading.Reached (.ofText text) r ts →
    ∀ d ∈ r.drafts.drafts, ∀ strokes d', d.writeAll strokes = .ok d' →
      ∀ t, d'.tuplet = some t → t.notes < t.size.toNat

theorem readInRange (text : String) : ReadInRange text := by
  have hscan := Lexed.ofText_scannable text
  refine ⟨?_, ?_, ?_⟩
  · intro t ht
    have hcut : Lexed.Cut [] text.toList (.ofText text) := Lexed.scanFrom_cut [] text.toList true
    obtain ⟨_, _, _, -, -, hs⟩ := hcut.span t ht
    exact ⟨Token.scan_counts hs, Lexed.startsAt_position ht⟩
  · intro r ts hr i hi
    exact (hr.sound hscan).1.drafts.current i hi
  · intro r ts hr d hd strokes d' hw
    exact ((hr.sound hscan).1.drafts.drafts d hd).unfilled.writeAll hw

/-- Reading any text comes to a tune or to an error, with all that it counts in range, unless a
small letter is raised too high. -/
theorem read_overflow (text : String) :
    (∀ position, read text = .error (.octaveTooHigh position) →
      (Lexed.ofText text).RaisedTooHigh) ∧
    (¬(Lexed.ofText text).RaisedTooHigh → (∃ t, read text = .ok t) ∨
      ∃ e, read text = .error e ∧ ∀ position, e ≠ .octaveTooHigh position) ∧
    ReadInRange text := by
  have hraised : ∀ position, read text = .error (.octaveTooHigh position) →
      (Lexed.ofText text).RaisedTooHigh := by
    intro position h
    cases read_explains h with
    | octaveTooHigh hsplit ht hr hm htotal => exact ⟨_, _, _, _, _, hsplit, ht, hr, hm, htotal⟩
  refine ⟨hraised, ?_, readInRange text⟩
  intro hlow
  cases h : read text with
  | ok t => exact Or.inl ⟨t, rfl⟩
  | error e =>
    refine Or.inr ⟨e, rfl, ?_⟩
    rintro position rfl
    exact hlow (hraised position h)

/-- The marks stand in two tokens, of which neither alone raises the letter too high. -/
def highText : String :=
  String.ofList ("^c".toList ++ List.replicate 100 '\'' ++ [' '] ++ List.replicate 27 '\'')

-- the text is evaluated character by character
set_option maxRecDepth 4000 in
theorem read_highText : read highText = .error (.octaveTooHigh ⟨1, 2⟩) := by
  with_unfolding_all rfl

theorem read_overflow_highText :
    read highText = .error (.octaveTooHigh ⟨1, 2⟩) ∧
      (Lexed.ofText highText).RaisedTooHigh :=
  ⟨read_highText, (read_overflow highText).1 ⟨1, 2⟩ read_highText⟩

end Tune

end Tunebook
