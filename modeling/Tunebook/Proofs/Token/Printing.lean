import Tunebook.Proofs.Token.Lexing

namespace Tunebook

namespace Token

instance : DecidablePred Scannable
  | field _ value =>
    inferInstanceAs (Decidable ('\n' ∉ value.toList ∧ Text.trim value.toList = value.toList))
  | comment text => inferInstanceAs (Decidable ('\n' ∉ text.toList))
  | accidental shift => inferInstanceAs (Decidable (-2 ≤ shift.toInt ∧ shift.toInt ≤ 2))
  | octave marks => inferInstanceAs (Decidable (marks.toInt ≠ 0 ∧ -127 ≤ marks.toInt))
  | barline _ | ending _ | tuplet _ | letter _ | rest | digits _ | fractionBar | chordStart
  | chordEnd => .isTrue trivial

theorem extendedBy_newline (t : Token) : t.extendedBy '\n' = false := by
  cases t with
  | barline line => cases line <;> rfl
  | _ => rfl

theorem chars_start (t : Token) (hs : t.Scannable) :
    ∃ c cs, t.chars = c :: cs ∧ isSpace c = false := by
  have hmusic : t.IsMusic → ∃ c cs, t.chars = c :: cs ∧ isSpace c = false := by
    intro hm
    have ho : ∀ marks, t = octave marks → marks.toInt ≠ 0 := by
      rintro marks rfl
      exact hs.1
    obtain ⟨c, cs, hc, hsp, -⟩ := chars_head t hm ho
    exact ⟨c, cs, hc, hsp⟩
  cases t with
  | field kind value => exact ⟨kind.char, _, rfl, by cases kind <;> rfl⟩
  | comment text => exact ⟨'%', _, rfl, rfl⟩
  | _ => exact hmusic trivial

theorem scan_line (t : Token) (rest : List Char) (hs : t.Scannable)
    (hp : ∀ kind value, t = field kind value → '%' ∉ value.toList)
    (hr : ∀ c ∈ rest.head?, c = '\n') : scan true (t.chars ++ rest) = .ok ⟨t, t.chars, rest⟩ := by
  have hline : ∀ c ∈ rest.head?, notNewline c = false := by
    intro c hc
    rw [hr c hc]
    rfl
  have hapart : t.Apart rest := by
    intro c hc
    rw [hr c hc]
    exact t.extendedBy_newline
  cases t with
  | field kind value =>
    have hvalue : fieldValue value.toList = value := by
      rw [fieldValue, Text.unescape_of_not_mem _ (hp kind value rfl), hs.2, String.ofList_toList]
    have hscan := scan_field kind value.toList rest hs.1 hline
    rw [hvalue] at hscan
    exact hscan
  | comment text => exact scan_comment true text rest hs hline
  | _ => exact scan_chars true _ rest trivial hs hapart

end Token

namespace Lexed

theorem spells_printed (t : Token) (rest : List Char) (hs : t.Scannable)
    (hp : ∀ kind value, t = .field kind value → '%' ∉ value.toList)
    (hr : ∀ c ∈ rest.head?, c = '\n') : Spells true t.chars [t] false rest := by
  obtain ⟨c, cs, hc, hsp⟩ := t.chars_start hs
  have hhead : ∀ x ∈ t.chars.head?, Token.isSpace x = false := by
    intro x hx
    rw [hc] at hx
    obtain rfl : c = x := by simpa using hx
    exact hsp
  exact spells_of_scan true t.chars rest t hhead (by simp [hc]) hs (t.scan_line rest hs hp hr)

/-- Each line break makes a new start, so the tokens are spelled line by line. -/
theorem spells_lines (ts : List Token) (hs : ∀ t ∈ ts, t.Scannable)
    (hp : ∀ kind value, .field kind value ∈ ts → '%' ∉ value.toList) :
    ∃ next, Spells true (['\n'].intercalate (ts.map Token.chars)) ts next [] := by
  induction ts with
  | nil => exact ⟨true, Spells.nil true []⟩
  | cons t ts ih =>
    have ht : t.Scannable := hs t List.mem_cons_self
    have hvalue : ∀ kind value, t = .field kind value → '%' ∉ value.toList := by
      rintro kind value rfl
      exact hp kind value List.mem_cons_self
    cases ts with
    | nil =>
      have hlast := spells_printed t [] ht hvalue (by simp)
      exact ⟨false, by simpa using hlast⟩
    | cons u us =>
      obtain ⟨next, hrest⟩ := ih (fun v hv => hs v (List.mem_cons_of_mem t hv))
        (fun kind value hv => hp kind value (List.mem_cons_of_mem t hv))
      let lines := ['\n'].intercalate ((u :: us).map Token.chars)
      have hbreak : Spells false ['\n'] [] true (lines ++ []) :=
        spells_space '\n' false _ (by decide)
      have hfirst : Spells true t.chars [t] false (['\n'] ++ lines ++ []) :=
        spells_printed t _ ht hvalue (by simp)
      refine ⟨next, ?_⟩
      rw [List.map_cons, List.map_cons, List.intercalate_cons_cons, List.append_assoc]
      exact hfirst.append (hbreak.append hrest)

/-- Any tokens in any order, if each can be written at all and no comment starts in a field. -/
theorem ofText_printed (ts : List Token) (hs : ∀ t ∈ ts, t.Scannable)
    (hp : ∀ kind value, .field kind value ∈ ts → '%' ∉ value.toList) :
    (ofText ("\n".intercalate (ts.map Token.text))).kinds = ts ∧
      (ofText ("\n".intercalate (ts.map Token.text))).failure = none := by
  obtain ⟨next, hspells⟩ := spells_lines ts hs hp
  have htext : "\n".intercalate (ts.map Token.text) =
      String.ofList (['\n'].intercalate (ts.map Token.chars)) := by
    have hchars : String.toList ∘ Token.text = Token.chars :=
      funext fun _ => String.toList_ofList
    apply String.toList_inj.1
    rw [String.toList_intercalate, List.map_map, hchars]
    exact String.toList_ofList.symm
  rw [htext]
  exact hspells.whole_text.1 hs

/-- Neighbours that would run together on one line, and lines that look like fields or comments. -/
def crowdedTokens : List Token :=
  [.letter ⟨.c, false⟩, .barline .repeatEnd, .field .composer ": \\ |", .chordStart, .digits 1,
    .digits 20, .chordStart, .barline .single, .barline .single, .chordEnd, .octave 2,
    .octave (-127), .accidental 2, .accidental 0, .accidental (-1), .comment "% C:", .comment "",
    .tuplet 0, .digits 4294967295, .field .voice "", .ending .second, .fractionBar, .rest]

theorem ofText_printed_crowded :
    (ofText ("\n".intercalate (crowdedTokens.map Token.text))).kinds = crowdedTokens ∧
      (ofText ("\n".intercalate (crowdedTokens.map Token.text))).failure = none := by
  refine ofText_printed crowdedTokens (by decide +kernel) ?_
  intro kind value hm
  simp only [crowdedTokens, List.mem_cons, Token.field.injEq, reduceCtorEq, List.not_mem_nil,
    false_or, or_false] at hm
  rcases hm with ⟨-, rfl⟩ | ⟨-, rfl⟩ <;> decide +kernel

end Lexed

end Tunebook
