import Mathlib.Data.List.Induction
import Tunebook.Proofs.Token.Coverage

namespace Tunebook

theorem utf8ByteSize_ofList (cs : List Char) : (String.ofList cs).utf8ByteSize = byteLength cs := by
  induction cs with
  | nil => simp
  | cons c cs ih =>
    rw [String.ofList_cons, String.utf8ByteSize_append, String.utf8ByteSize_singleton, ih,
      byteLength_cons]

theorem byteLength_toList (s : String) : byteLength s.toList = s.utf8ByteSize := by
  rw [← utf8ByteSize_ofList, String.ofList_toList]

namespace Position

def Before (p q : Position) : Prop :=
  p.line < q.line ∨ p.line = q.line ∧ p.column < q.column

variable {p q r : Position}

theorem Before.trans (h : p.Before q) (h' : q.Before r) : p.Before r := by
  unfold Before at *
  omega

theorem Before.asymm (h : p.Before q) : ¬ q.Before p := by
  unfold Before at *
  omega

theorem Before.ne (h : p.Before q) : p ≠ q := by
  rintro rfl
  exact h.asymm h

theorem before_advance (p : Position) (c : Char) : p.Before (p.advance c) := by
  by_cases hc : c = '\n'
  · rw [advance, if_pos hc]
    exact .inl (Nat.lt_succ_self p.line)
  · rw [advance, if_neg hc]
    exact .inr ⟨rfl, Nat.lt_succ_self p.column⟩

theorem before_foldl_advance (p : Position) (c : Char) (cs : List Char) :
    p.Before ((c :: cs).foldl advance p) := by
  induction cs generalizing p c with
  | nil => exact p.before_advance c
  | cons d cs ih => exact (p.before_advance c).trans (ih (p.advance c) d)

theorem after_before_append {more : List Char} (text : List Char) (h : more ≠ []) :
    (after text).Before (after (text ++ more)) := by
  obtain ⟨c, cs, rfl⟩ := List.exists_cons_of_ne_nil h
  rw [after, after, List.foldl_append]
  exact before_foldl_advance _ c cs

def lastLine (text : List Char) : List Char :=
  (text.reverse.takeWhile Token.notNewline).reverse

theorem lastLine_concat (text : List Char) (c : Char) :
    lastLine (text ++ [c]) = if c = '\n' then [] else lastLine text ++ [c] := by
  by_cases hc : c = '\n'
  · simp [lastLine, Token.notNewline, hc]
  · have hkept : Token.notNewline c = true := by simpa [Token.notNewline] using hc
    simp [lastLine, hkept, hc]

theorem after_eq (text : List Char) :
    after text = ⟨text.count '\n' + 1, (lastLine text).length + 1⟩ := by
  induction text using List.reverseRecOn with
  | nil => rfl
  | append_singleton text c ih =>
    have hstep : after (text ++ [c]) = (after text).advance c := by
      rw [after, List.foldl_append]
      rfl
    rw [hstep, ih, advance, lastLine_concat, List.count_append]
    by_cases hc : c = '\n'
    · simp [hc]
    · simp [hc]

/-- Lines are told by the newlines before the place, columns by the characters since the last. -/
theorem locate_utf8ByteSize (before rest : String) :
    locate (before ++ rest).toList before.utf8ByteSize =
      ⟨before.toList.count '\n' + 1, (lastLine before.toList).length + 1⟩ := by
  rw [String.toList_append, ← byteLength_toList, locate_append, after_eq]

variable {source : String} {o₁ o₂ : source.Pos}

theorem locate_of_splits {before rest : String} {o : source.Pos} (h : o.Splits before rest) :
    locate source.toList o.offset.byteIdx = after before.toList := by
  have hoffset : o.offset.byteIdx = byteLength before.toList := by
    rw [h.offset_eq_rawEndPos, String.byteIdx_rawEndPos, byteLength_toList]
  rw [hoffset, h.eq_append, String.toList_append, locate_append]

theorem locate_before_of_lt (h : o₁ < o₂) :
    (locate source.toList o₁.offset.byteIdx).Before
      (locate source.toList o₂.offset.byteIdx) := by
  have h₁ := o₁.splits
  have h₂ := o₂.splits
  have hsplit := congrArg String.toList (h₁.eq_append.symm.trans h₂.eq_append)
  have hbytes : byteLength (source.sliceTo o₁).copy.toList <
      byteLength (source.sliceTo o₂).copy.toList := by
    rw [byteLength_toList, byteLength_toList, ← String.byteIdx_rawEndPos,
      ← String.byteIdx_rawEndPos, ← h₁.offset_eq_rawEndPos, ← h₂.offset_eq_rawEndPos]
    exact h
  rw [String.toList_append, String.toList_append] at hsplit
  rw [locate_of_splits h₁, locate_of_splits h₂]
  -- one of the two texts before goes on where the other ends, and it is the longer one
  rcases List.append_eq_append_iff.1 hsplit with ⟨more, hmore, -⟩ | ⟨more, hmore, -⟩
  · rw [hmore]
    apply after_before_append
    rintro rfl
    rw [hmore, List.append_nil] at hbytes
    exact Nat.lt_irrefl _ hbytes
  · rw [hmore, byteLength_append] at hbytes
    omega

/-- Offsets and positions are in the same order, so that a position stands for one offset. It counts
what stands before the offset, whatever follows. -/
theorem locate_before_iff (source : String) (o₁ o₂ : source.Pos) :
    ((locate source.toList o₁.offset.byteIdx).Before
        (locate source.toList o₂.offset.byteIdx) ↔ o₁ < o₂) ∧
    (locate source.toList o₁.offset.byteIdx = locate source.toList o₂.offset.byteIdx ↔
      o₁ = o₂) ∧
    (∀ before rest rest' : String,
      locate (before ++ rest).toList before.utf8ByteSize =
        locate (before ++ rest').toList before.utf8ByteSize) ∧
    ∀ before rest : String,
      locate (before ++ rest).toList before.utf8ByteSize =
        ⟨before.toList.count '\n' + 1, (lastLine before.toList).length + 1⟩ := by
  refine ⟨⟨fun h => ?_, locate_before_of_lt⟩, ⟨fun h => ?_, fun h => by rw [h]⟩, ?_,
    locate_utf8ByteSize⟩
  · rcases Std.lt_trichotomy o₁ o₂ with hlt | rfl | hlt
    · exact hlt
    · exact absurd rfl h.ne
    · exact absurd (locate_before_of_lt hlt) h.asymm
  · rcases Std.lt_trichotomy o₁ o₂ with hlt | heq | hlt
    · exact absurd h (locate_before_of_lt hlt).ne
    · exact heq
    · exact absurd h.symm (locate_before_of_lt hlt).ne
  · intro before rest rest'
    rw [locate_utf8ByteSize, locate_utf8ByteSize]

end Position

end Tunebook
