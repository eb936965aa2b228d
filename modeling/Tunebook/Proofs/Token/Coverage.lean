import Tunebook.Proofs.Lists
import Tunebook.Proofs.Token.Lexing

namespace Tunebook

def byteLength : List Char → Nat
  | [] => 0
  | c :: cs => c.utf8Size + byteLength cs

@[simp] theorem byteLength_nil : byteLength [] = 0 := rfl

@[simp] theorem byteLength_cons (c : Char) (cs : List Char) :
    byteLength (c :: cs) = c.utf8Size + byteLength cs := rfl

@[simp] theorem byteLength_append (as bs : List Char) :
    byteLength (as ++ bs) = byteLength as + byteLength bs := by
  induction as with
  | nil => simp
  | cons a as ih => simp [ih, Nat.add_assoc]

theorem takeBytes_append (before rest : List Char) :
    takeBytes (byteLength before) (before ++ rest) = before := by
  induction before with
  | nil => simp [takeBytes]
  | cons c before ih =>
    -- a character has at least one byte, so the count is not yet used up
    obtain ⟨n, hn⟩ : ∃ n, c.utf8Size + byteLength before = n + 1 :=
      ⟨c.utf8Size + byteLength before - 1, by have := c.utf8Size_pos; omega⟩
    have hrest : n + 1 - c.utf8Size = byteLength before := by omega
    rw [byteLength_cons, hn, List.cons_append, takeBytes, hrest, ih]
    exact Nat.succ_ne_zero n

theorem Position.locate_append (before rest : List Char) :
    locate (before ++ rest) (byteLength before) = after before := by
  rw [locate, takeBytes_append]

namespace Place

theorem advanceAll_append (p : Place) (as bs : List Char) :
    p.advanceAll (as ++ bs) = (p.advanceAll as).advanceAll bs :=
  List.foldl_append

theorem advanceAll_eq (p : Place) (cs : List Char) :
    p.advanceAll cs = ⟨p.offset + byteLength cs, cs.foldl Position.advance p.position⟩ := by
  induction cs generalizing p with
  | nil => rfl
  | cons c cs ih =>
    have hstep : p.advanceAll (c :: cs) = (p.advance c).advanceAll cs := rfl
    rw [hstep, ih, advance, byteLength_cons, Nat.add_assoc]
    rfl

theorem advanceAll_first (before : List Char) :
    first.advanceAll before = ⟨byteLength before, Position.after before⟩ := by
  have hoffset : first.offset + byteLength before = byteLength before := Nat.zero_add _
  rw [advanceAll_eq, hoffset]
  rfl

end Place

theorem LexError.preview_eq (cs : List Char) :
    preview cs = if cs.length ≤ previewLength then cs
      else cs.take previewLength ++ ['.', '.', '.'] := by
  unfold preview
  split
  · rename_i hdrop
    rw [if_pos (List.drop_eq_nil_iff.1 hdrop)]
  · rename_i hdrop
    rw [if_neg fun hle => hdrop (List.drop_eq_nil_iff.2 hle)]

namespace PlacedToken

def finish (t : PlacedToken) : Nat :=
  t.place.offset + byteLength t.lexeme

def Covers (t : PlacedToken) (offset : Nat) : Prop :=
  t.place.offset ≤ offset ∧ offset < t.finish

end PlacedToken

namespace Lexed

/-- How the text that follows `before` comes apart. A lexeme is what the scan takes there, and a
fault is what the scan meets. -/
inductive Cut : List Char → List Char → Lexed → Prop
  | done {before blanks : List Char} (hb : ∀ c ∈ blanks, Token.isSpace c = true) :
    Cut before blanks ⟨[], none⟩
  | fault {before blanks rest : List Char} {lineStart : Bool} {fault : LexFault}
    (hb : ∀ c ∈ blanks, Token.isSpace c = true) (hne : rest ≠ [])
    (hs : Token.scan lineStart rest = .error fault) :
    Cut before (blanks ++ rest)
      ⟨[], some ⟨fault, LexError.preview rest, Position.after (before ++ blanks)⟩⟩
  | token {before blanks rest : List Char} {lineStart : Bool} {t : PlacedToken} {l : Lexed}
    (hb : ∀ c ∈ blanks, Token.isSpace c = true)
    (hs : Token.scan lineStart (t.lexeme ++ rest) = .ok ⟨t.token, t.lexeme, rest⟩)
    (hp : t.place = ⟨byteLength (before ++ blanks), Position.after (before ++ blanks)⟩)
    (h : Cut (before ++ blanks ++ t.lexeme) rest l) :
    Cut before (blanks ++ t.lexeme ++ rest) (l.push t)

theorem scanFrom_cut (before cs : List Char) (lineStart : Bool) :
    Cut before cs (scanFrom (Place.first.advanceAll before) lineStart cs) := by
  induction hn : cs.length using Nat.strong_induction_on generalizing before cs lineStart with
  | _ n ih =>
    subst hn
    have hblank : ∀ c ∈ cs.takeWhile Token.isSpace, Token.isSpace c = true :=
      fun c hc => List.mem_takeWhile_imp hc
    have hcut : cs.takeWhile Token.isSpace ++ cs.dropWhile Token.isSpace = cs :=
      List.takeWhile_append_dropWhile
    have hstart := Place.advanceAll_first (before ++ cs.takeWhile Token.isSpace)
    rw [Place.advanceAll_append] at hstart
    rw [scanFrom_eq]
    dsimp only
    split
    · rename_i hend
      rw [List.isEmpty_iff.1 hend, List.append_nil] at hcut
      rw [hcut] at hblank
      exact .done hblank
    · rename_i hne
      have hrest : cs.dropWhile Token.isSpace ≠ [] := by simpa using hne
      split
      · rename_i fault hs
        have h : Cut before _ _ := .fault hblank hrest hs
        rw [hcut] at h
        rw [hstart]
        exact h
      · rename_i s hs
        obtain ⟨-, hlexeme⟩ := Token.scan_splits hs
        have hshorter : s.rest.length < cs.length :=
          (Token.scan_splits hs).rest_length_lt.trans_le
            (List.dropWhile_suffix Token.isSpace).length_le
        have hnext := ih _ hshorter (before ++ cs.takeWhile Token.isSpace ++ s.lexeme) s.rest
          false rfl
        rw [Place.advanceAll_append, Place.advanceAll_append] at hnext
        have h := Cut.token (t := ⟨s.token, s.lexeme, _⟩) hblank (by rwa [hlexeme]) hstart hnext
        rw [List.append_assoc, hlexeme, hcut] at h
        exact h

theorem Cut.length_le {before text : List Char} {l : Lexed} (h : Cut before text l) :
    l.tokens.length + l.failure.toList.length ≤ text.length := by
  induction h with
  | done => simp
  | fault _ hne _ =>
    have hpos := List.length_pos_iff.2 hne
    simp only [Option.toList_some, List.length_nil, List.length_singleton, List.length_append]
    omega
  | @token _ _ _ _ t l _ hs _ _ ih =>
    have hpos : 0 < t.lexeme.length := List.length_pos_iff.2 (Token.scan_splits hs).1
    have hlength : (l.push t).tokens.length = l.tokens.length + 1 := rfl
    have hfailure : (l.push t).failure = l.failure := rfl
    rw [hlength, hfailure]
    simp only [List.length_append]
    omega

theorem Cut.offset_le {before text : List Char} {l : Lexed} (h : Cut before text l) :
    ∀ t ∈ l.tokens, byteLength before ≤ t.place.offset := by
  induction h with
  | done => simp
  | fault => simp
  | token _ _ hp _ ih =>
    intro u hu
    rcases List.mem_cons.1 hu with rfl | hu
    · rw [hp, byteLength_append]
      exact Nat.le_add_right _ _
    · have hle := ih u hu
      simp only [byteLength_append] at hle
      omega

theorem Cut.ordered {before text : List Char} {l : Lexed} (h : Cut before text l) :
    l.tokens.Pairwise fun t u => t.finish ≤ u.place.offset := by
  induction h with
  | done => exact List.Pairwise.nil
  | fault => exact List.Pairwise.nil
  | token _ _ hp hrest ih =>
    refine List.pairwise_cons.2 ⟨?_, ih⟩
    intro u hu
    have hle := hrest.offset_le u hu
    rw [byteLength_append] at hle
    rw [PlacedToken.finish, hp]
    exact hle

/-- Each token stands in the text where its place says, and is what the scan takes there. -/
theorem Cut.span {before text : List Char} {l : Lexed} (h : Cut before text l) :
    ∀ t ∈ l.tokens, ∃ read rest lineStart, text = read ++ t.lexeme ++ rest ∧
      t.place = ⟨byteLength (before ++ read), Position.after (before ++ read)⟩ ∧
      Token.scan lineStart (t.lexeme ++ rest) = .ok ⟨t.token, t.lexeme, rest⟩ := by
  induction h with
  | done => simp
  | fault => simp
  | @token before blanks rest lineStart t l _ hs hp _ ih =>
    intro u hu
    rcases List.mem_cons.1 hu with rfl | hu
    · exact ⟨blanks, rest, lineStart, rfl, hp, hs⟩
    · obtain ⟨read, rest', start, rfl, hplace, hscan⟩ := ih u hu
      refine ⟨blanks ++ t.lexeme ++ read, rest', start, ?_, ?_, hscan⟩
      · simp only [List.append_assoc]
      · simpa only [List.append_assoc] using hplace

/-- Of what is read after `before`, only blanks are not covered. -/
def BlankBetween (before : List Char) (ts : List PlacedToken) (read : List Char) : Prop :=
  ∀ earlier c later, read = earlier ++ c :: later →
    (∀ t ∈ ts, ¬t.Covers (byteLength (before ++ earlier))) → Token.isSpace c = true

theorem BlankBetween.of_blanks {before blanks : List Char} {ts : List PlacedToken}
    (hb : ∀ c ∈ blanks, Token.isSpace c = true) : BlankBetween before ts blanks := by
  rintro earlier c later rfl -
  exact hb c (by simp)

theorem BlankBetween.token {before blanks read : List Char} {t : PlacedToken}
    {ts : List PlacedToken} (hb : ∀ c ∈ blanks, Token.isSpace c = true)
    (hp : t.place.offset = byteLength (before ++ blanks))
    (h : BlankBetween (before ++ blanks ++ t.lexeme) ts read) :
    BlankBetween before (t :: ts) (blanks ++ t.lexeme ++ read) := by
  intro earlier c later hsplit hfree
  rw [List.append_assoc] at hsplit
  rcases exists_of_append_eq_append_cons hsplit with ⟨after, rfl⟩ | ⟨inside, rfl, hinside⟩
  · exact hb c (by simp)
  rcases exists_of_append_eq_append_cons hinside with ⟨after, hlexeme⟩ | ⟨beyond, rfl, hread⟩
  · -- a character of the lexeme is covered by its token
    exfalso
    apply hfree t List.mem_cons_self
    have hpos := c.utf8Size_pos
    simp only [PlacedToken.Covers, PlacedToken.finish, hp, hlexeme, byteLength_append,
      byteLength_cons]
    omega
  · refine h beyond c later hread ?_
    intro u hu
    have hu' := hfree u (List.mem_cons_of_mem t hu)
    simpa only [List.append_assoc] using hu'

/-- What is read before the fault, or before the end, and what the fault reports. -/
theorem Cut.read {before text : List Char} {l : Lexed} (h : Cut before text l) :
    ∃ read rest, text = read ++ rest ∧ BlankBetween before l.tokens read ∧
      (∀ t ∈ l.tokens, t.finish ≤ byteLength (before ++ read)) ∧
      (l.failure = none → rest = []) ∧
      ∀ e, l.failure = some e → rest ≠ [] ∧ e.position = Position.after (before ++ read) ∧
        e.remainder = LexError.preview rest ∧
        ∃ lineStart, Token.scan lineStart rest = .error e.fault := by
  induction h with
  | @done before blanks hb =>
    refine ⟨blanks, [], (List.append_nil _).symm, .of_blanks hb, by simp, fun _ => rfl, ?_⟩
    intro e he
    cases he
  | @fault before blanks rest lineStart _ hb hne hs =>
    refine ⟨blanks, rest, rfl, .of_blanks hb, by simp, ?_, ?_⟩
    · intro hf
      cases hf
    · rintro e ⟨⟩
      exact ⟨hne, rfl, rfl, lineStart, hs⟩
  | @token before blanks _ _ t l hb _ hp _ ih =>
    obtain ⟨read, rest, rfl, hblank, hfinish, hdone, hfault⟩ := ih
    have hoffset : t.place.offset = byteLength (before ++ blanks) := by rw [hp]
    refine ⟨blanks ++ t.lexeme ++ read, rest, ?_, .token hb hoffset hblank, ?_, hdone, ?_⟩
    · simp only [List.append_assoc]
    · intro u hu
      rcases List.mem_cons.1 hu with rfl | hu
      · simp only [PlacedToken.finish, hoffset, byteLength_append]
        omega
      · simpa only [List.append_assoc] using hfinish u hu
    · intro e he
      simpa only [List.append_assoc] using hfault e he

structure Accounts (l : Lexed) (text : List Char) : Prop where
  /-- There are no more tokens and faults than characters. -/
  items : l.tokens.length + l.failure.toList.length ≤ text.length
  /-- A token covers a part of the text, which starts at its offset and is what the scan takes. -/
  span : ∀ t ∈ l.tokens, t.lexeme ≠ [] ∧ ∃ before after lineStart,
    text = before ++ t.lexeme ++ after ∧
    t.place = ⟨byteLength before, Position.locate text (byteLength before)⟩ ∧
    Token.scan lineStart (t.lexeme ++ after) = .ok ⟨t.token, t.lexeme, after⟩
  ordered : l.tokens.Pairwise fun t u => t.finish ≤ u.place.offset
  /-- Without a fault, all that no token covers is blank. -/
  blank : l.failure = none → BlankBetween [] l.tokens text
  /-- A fault starts after the tokens, nothing but blanks is left out before it, and its report
  gives its position and up to 32 characters from there on. -/
  fault : ∀ e, l.failure = some e → ∃ before rest, text = before ++ rest ∧ rest ≠ [] ∧
    (∀ t ∈ l.tokens, t.finish ≤ byteLength before) ∧ BlankBetween [] l.tokens before ∧
    (∃ lineStart, Token.scan lineStart rest = .error e.fault) ∧
    e.position = Position.locate text (byteLength before) ∧
    e.remainder = if rest.length ≤ 32 then rest else rest.take 32 ++ ['.', '.', '.']

/-- Whatever the text: nothing of it is lost, and scanning ends. -/
theorem ofText_accounts (text : String) : (ofText text).Accounts text.toList := by
  have hcut : Cut [] text.toList (ofText text) := scanFrom_cut [] text.toList true
  obtain ⟨read, rest, htext, hblank, hfinish, hdone, hfault⟩ := hcut.read
  refine ⟨hcut.length_le, ?_, hcut.ordered, ?_, ?_⟩
  · intro t ht
    obtain ⟨before, after, lineStart, hsplit, hplace, hs⟩ := hcut.span t ht
    refine ⟨(Token.scan_splits hs).1, before, after, lineStart, hsplit, ?_, hs⟩
    rw [hplace, hsplit, List.append_assoc, Position.locate_append, List.nil_append]
  · intro hf
    rw [hdone hf, List.append_nil] at htext
    rw [htext]
    exact hblank
  · intro e he
    obtain ⟨hne, hposition, hremainder, hscan⟩ := hfault e he
    refine ⟨read, rest, htext, hne, hfinish, hblank, hscan, ?_, ?_⟩
    · rw [hposition, htext, Position.locate_append, List.nil_append]
    · rw [hremainder, LexError.preview_eq]
      rfl

end Lexed

end Tunebook
