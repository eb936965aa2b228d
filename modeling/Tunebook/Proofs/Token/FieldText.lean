import Tunebook.Proofs.Text
import Tunebook.Token.Scan

namespace Tunebook

namespace Text

/-- What is left of a text without the blanks around it. -/
structure Trimmed (text value : List Char) : Prop where
  blanks : ∃ before after, text = before ++ (value ++ after) ∧
    (∀ c ∈ before, isBlank c = true) ∧ ∀ c ∈ after, isBlank c = true
  head : ∀ c ∈ value.head?, isBlank c = false
  last : ∀ c ∈ value.getLast?, isBlank c = false

theorem trimLeft_append {before : List Char} (rest : List Char)
    (h : ∀ c ∈ before, isBlank c = true) : trimLeft (before ++ rest) = trimLeft rest :=
  List.dropWhile_append_of_pos h

theorem trimRight_append {after : List Char} (text : List Char)
    (h : ∀ c ∈ after, isBlank c = true) : trimRight (text ++ after) = trimRight text := by
  change (trimLeft (text ++ after).reverse).reverse = (trimLeft text.reverse).reverse
  rw [List.reverse_append, trimLeft_append _ fun c hc => h c (List.mem_reverse.1 hc)]

theorem Trimmed.eq_trim {text value : List Char} (h : Trimmed text value) : value = trim text := by
  obtain ⟨before, after, rfl, hbefore, hafter⟩ := h.blanks
  rw [trim, trimLeft_append _ hbefore]
  cases value with
  | nil =>
    -- all is blank, and goes already from the left
    have hnone : trimLeft after = [] := List.dropWhile_eq_nil_iff.2 hafter
    rw [List.nil_append, hnone]
    rfl
  | cons c cs =>
    have hleft : trimLeft (c :: cs ++ after) = c :: cs ++ after := trimLeft_eq_self _ h.head
    rw [hleft, trimRight_append _ hafter, trimRight_eq_self _ h.last]

theorem trimmed_trim (text : List Char) : Trimmed text (trim text) where
  blanks := by
    have hleft : text.takeWhile isBlank ++ trimLeft text = text := List.takeWhile_append_dropWhile
    have hright : trimRight (trimLeft text) ++
        ((trimLeft text).reverse.takeWhile isBlank).reverse = trimLeft text := by
      rw [trimRight, ← List.reverse_append, List.takeWhile_append_dropWhile, List.reverse_reverse]
    refine ⟨text.takeWhile isBlank, ((trimLeft text).reverse.takeWhile isBlank).reverse, ?_,
      fun c hc => List.mem_takeWhile_imp hc,
      fun c hc => List.mem_takeWhile_imp (List.mem_reverse.1 hc)⟩
    rw [trim, hright, hleft]
  head := trimRight_head? _ (trimLeft_head? text)
  last := trimRight_getLast? _

theorem Trimmed.append_blanks {text value more : List Char} (h : Trimmed text value)
    (hmore : ∀ c ∈ more, isBlank c = true) : Trimmed (text ++ more) value := by
  obtain ⟨before, after, htext, hbefore, hafter⟩ := h.blanks
  refine ⟨⟨before, after ++ more, ?_, hbefore, fun c hc => ?_⟩, h.head, h.last⟩
  · rw [← List.append_assoc value, ← List.append_assoc before, ← htext]
  · rcases List.mem_append.1 hc with hc | hc
    · exact hafter c hc
    · exact hmore c hc

theorem trimmed_iff {text value : List Char} : Trimmed text value ↔ value = trim text := by
  constructor
  · exact Trimmed.eq_trim
  · rintro rfl
    exact trimmed_trim text

end Text

namespace Token

/-- A comment that stands apart from the text is left out. -/
theorem fieldValue_comment (text comment : List Char) :
    fieldValue (Text.escape text ++ ' ' :: '%' :: comment) = String.ofList (Text.trim text) := by
  have hspace : (' ' :: '%' :: comment).head? ≠ some '%' := by simp
  have hcut : Text.unescape (' ' :: '%' :: comment) = [' '] := by simp [Text.unescape]
  have hblank : ∀ c ∈ [' '], Text.isBlank c = true := by simp [Text.isBlank]
  have htrimmed := (Text.trimmed_trim text).append_blanks hblank
  rw [fieldValue, Text.unescape_escape_append _ hspace, hcut, ← htrimmed.eq_trim]

-- right after a backslash of the text, the percent sign of the comment would count as escaped
example : fieldValue (Text.escape ['\\'] ++ ['%']) = "%" := by decide

/-- Reading undoes escaping, but for the blanks around the text. The percent signs of the text start
no comment, and those after it still do. -/
theorem fieldValue_escape_trimmed (text : String) :
    fieldValue (Text.escape text.toList) = String.ofList (Text.trim text.toList) ∧
    (∀ value, Text.Trimmed text.toList value ↔
      (fieldValue (Text.escape text.toList)).toList = value) ∧
    ∀ comment, fieldValue (Text.escape text.toList ++ ' ' :: '%' :: comment) =
      fieldValue (Text.escape text.toList) := by
  have hread : fieldValue (Text.escape text.toList) = String.ofList (Text.trim text.toList) := by
    rw [fieldValue, Text.unescape_escape]
  refine ⟨hread, fun value => ?_, fun comment => ?_⟩
  · rw [hread, String.toList_ofList, Text.trimmed_iff]
    exact eq_comm
  · rw [hread, fieldValue_comment]

end Token

end Tunebook
