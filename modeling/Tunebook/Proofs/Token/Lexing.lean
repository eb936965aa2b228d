import Mathlib.Tactic.Push
import Tunebook.Proofs.Token.Spelling
import Tunebook.Tune.Canonical

namespace Tunebook.Lexed

def kinds (l : Lexed) : List Token :=
  l.tokens.map PlacedToken.token

/-- Scanning `cs` gives the tokens `ks` and goes on with the rest. A line starts there if `next`
is set. -/
def Yields (lineStart : Bool) (cs : List Char) (ks : List Token) (next : Bool)
    (rest : List Char) : Prop :=
  ∀ place, ∃ place', (scanFrom place lineStart (cs ++ rest)).kinds =
      ks ++ (scanFrom place' next rest).kinds ∧
    (scanFrom place lineStart (cs ++ rest)).failure = (scanFrom place' next rest).failure

def Fails (lineStart : Bool) (cs rest : List Char) : Prop :=
  ∀ place, (scanFrom place lineStart (cs ++ rest)).failure ≠ none

/-- `cs` is how the tokens `ks` are written: they are read from it, up to the first of them that
cannot be read. -/
structure Spells (lineStart : Bool) (cs : List Char) (ks : List Token) (next : Bool)
    (rest : List Char) : Prop where
  yields : (∀ t ∈ ks, t.Scannable) → Yields lineStart cs ks next rest
  fails : (∃ t ∈ ks, ¬t.Scannable) → Fails lineStart cs rest

/-- One round of scanning, without the proof that the rest is shorter. -/
theorem scanFrom_eq (place : Place) (lineStart : Bool) (cs : List Char) :
    scanFrom place lineStart cs =
      let blanks := cs.takeWhile Token.isSpace
      let text := cs.dropWhile Token.isSpace
      let start := place.advanceAll blanks
      if text.isEmpty then ⟨[], none⟩
      else
        match Token.scan (lineStart || blanks.contains '\n') text with
        | .error fault => ⟨[], some ⟨fault, LexError.preview text, start.position⟩⟩
        | .ok s =>
          push ⟨s.token, s.lexeme, start⟩ (scanFrom (start.advanceAll s.lexeme) false s.rest) := by
  rw [scanFrom]
  dsimp only
  split
  · rfl
  · split <;> rename_i he <;> rw [he]

theorem scanFrom_space (place : Place) (lineStart : Bool) (c : Char) (cs : List Char)
    (hc : Token.isSpace c = true) :
    scanFrom place lineStart (c :: cs) =
      scanFrom (place.advance c) (lineStart || c == '\n') cs := by
  have hb : (lineStart || (c :: cs.takeWhile Token.isSpace).contains '\n') =
      ((lineStart || c == '\n') || (cs.takeWhile Token.isSpace).contains '\n') := by
    rw [List.contains_cons, Bool.or_assoc, Bool.beq_comm]
  rw [scanFrom_eq, scanFrom_eq]
  simp only [List.takeWhile_cons_of_pos hc, List.dropWhile_cons_of_pos hc, hb]
  rfl

theorem scanFrom_of_head (place : Place) (lineStart : Bool) (cs : List Char)
    (hc : ∀ c ∈ cs.head?, Token.isSpace c = false) (hne : cs ≠ []) :
    scanFrom place lineStart cs =
      match Token.scan lineStart cs with
      | .error fault => ⟨[], some ⟨fault, LexError.preview cs, place.position⟩⟩
      | .ok s =>
        push ⟨s.token, s.lexeme, place⟩ (scanFrom (place.advanceAll s.lexeme) false s.rest) := by
  cases cs with
  | nil => exact absurd rfl hne
  | cons c cs =>
    have hn : Token.isSpace c = false := hc c (by simp)
    have ht : (c :: cs).takeWhile Token.isSpace = [] := by simp [hn]
    have hd : (c :: cs).dropWhile Token.isSpace = c :: cs := by simp [hn]
    rw [scanFrom_eq]
    simp only [ht, hd, List.contains_nil, Bool.or_false]
    rw [if_neg (by simp)]
    rfl

theorem Spells.nil (lineStart : Bool) (rest : List Char) :
    Spells lineStart [] [] lineStart rest := by
  refine ⟨fun _ place => ⟨place, rfl, rfl⟩, ?_⟩
  rintro ⟨t, ht, -⟩
  simp at ht

theorem Spells.append {a b c : Bool} {cs ds rest : List Char} {ks js : List Token}
    (h : Spells a cs ks b (ds ++ rest)) (h' : Spells b ds js c rest) :
    Spells a (cs ++ ds) (ks ++ js) c rest := by
  constructor
  · intro hall place
    have hk : ∀ t ∈ ks, t.Scannable := fun t ht => hall t (List.mem_append_left _ ht)
    have hj : ∀ t ∈ js, t.Scannable := fun t ht => hall t (List.mem_append_right _ ht)
    obtain ⟨p, hp, hf⟩ := h.yields hk place
    obtain ⟨q, hq, hg⟩ := h'.yields hj p
    refine ⟨q, ?_, ?_⟩
    · rw [List.append_assoc, hp, hq, List.append_assoc]
    · rw [List.append_assoc, hf, hg]
  · rintro ⟨t, ht, hn⟩ place
    rw [List.append_assoc]
    by_cases hk : ∀ t ∈ ks, t.Scannable
    · obtain ⟨p, -, hf⟩ := h.yields hk place
      rw [hf]
      rcases List.mem_append.1 ht with ht | ht
      · exact absurd (hk t ht) hn
      · exact h'.fails ⟨t, ht, hn⟩ p
    · push Not at hk
      exact h.fails hk place

theorem spells_space (c : Char) (lineStart : Bool) (rest : List Char)
    (hc : Token.isSpace c = true) :
    Spells lineStart [c] [] (lineStart || c == '\n') rest := by
  refine ⟨fun _ place => ⟨place.advance c, ?_, ?_⟩, ?_⟩
  · rw [List.singleton_append, scanFrom_space place lineStart c rest hc]
    rfl
  · rw [List.singleton_append, scanFrom_space place lineStart c rest hc]
  · rintro ⟨t, ht, -⟩
    simp at ht

theorem head?_append_of_ne_nil (cs rest : List Char) (hne : cs ≠ []) :
    (cs ++ rest).head? = cs.head? := by
  cases cs with
  | nil => exact absurd rfl hne
  | cons c cs => rfl

theorem spells_of_scan (lineStart : Bool) (cs rest : List Char) (t : Token)
    (hc : ∀ c ∈ cs.head?, Token.isSpace c = false) (hne : cs ≠ []) (ht : t.Scannable)
    (hs : Token.scan lineStart (cs ++ rest) = .ok ⟨t, cs, rest⟩) :
    Spells lineStart cs [t] false rest := by
  have hh : ∀ c ∈ (cs ++ rest).head?, Token.isSpace c = false := by
    rwa [head?_append_of_ne_nil cs rest hne]
  constructor
  · intro _ place
    have he := scanFrom_of_head place lineStart (cs ++ rest) hh (by simp [hne])
    rw [hs] at he
    refine ⟨place.advanceAll cs, ?_, ?_⟩
    · rw [he]
      rfl
    · rw [he]
      rfl
  · rintro ⟨u, hu, hn⟩
    rw [List.mem_singleton.1 hu] at hn
    exact absurd ht hn

theorem fails_of_scan (lineStart : Bool) (cs rest : List Char) (fault : LexFault)
    (hc : ∀ c ∈ cs.head?, Token.isSpace c = false) (hne : cs ≠ [])
    (hs : Token.scan lineStart (cs ++ rest) = .error fault) : Fails lineStart cs rest := by
  have hh : ∀ c ∈ (cs ++ rest).head?, Token.isSpace c = false := by
    rwa [head?_append_of_ne_nil cs rest hne]
  intro place
  rw [scanFrom_of_head place lineStart (cs ++ rest) hh (by simp [hne]), hs]
  simp

theorem scanFrom_scannable (place : Place) (lineStart : Bool) (cs : List Char) :
    ∀ t ∈ (scanFrom place lineStart cs).tokens, t.token.Scannable := by
  induction hn : cs.length using Nat.strong_induction_on generalizing place lineStart cs with
  | _ n ih =>
    subst hn
    rw [scanFrom_eq]
    dsimp only
    split
    · simp
    · split
      · simp
      · rename_i s hs
        have hl : s.rest.length < cs.length :=
          (Token.scan_splits hs).rest_length_lt.trans_le
            (List.dropWhile_suffix Token.isSpace).length_le
        intro t ht
        rcases List.mem_cons.1 ht with rfl | ht
        · exact Token.scan_scannable _ _ s hs
        · exact ih _ hl _ _ _ rfl t ht

theorem ofText_scannable (text : String) : ∀ t ∈ (ofText text).tokens, t.token.Scannable :=
  scanFrom_scannable _ _ _

/-- The only token of printed music that cannot be read back is one octave mark too many. -/
def Drawn (t : Token) : Prop :=
  t.IsMusic ∧ (t.Scannable ∨ t = .octave (-128))

theorem Drawn.octave_ne_zero {t : Token} (h : Drawn t) : ∀ m, t = .octave m → m.toInt ≠ 0 := by
  rintro m rfl
  rcases h.2 with hs | hb
  · exact hs.1
  · cases hb
    decide

theorem spells_token (lineStart : Bool) (t : Token) (rest : List Char) (hd : Drawn t)
    (ha : t.Apart rest) : Spells lineStart t.chars [t] false rest := by
  obtain ⟨c, cs, hc, hsp, -⟩ := Token.chars_head t hd.1 hd.octave_ne_zero
  have hh : ∀ x ∈ t.chars.head?, Token.isSpace x = false := by
    rw [hc]
    simpa using hsp
  have hne : t.chars ≠ [] := by simp [hc]
  rcases hd.2 with hs | hb
  · exact spells_of_scan lineStart _ rest t hh hne hs (Token.scan_chars lineStart t rest hd.1 hs ha)
  · have hn : ¬t.Scannable := by
      rw [hb]
      exact fun hx => absurd hx.2 (by decide)
    have hf : Fails lineStart t.chars rest := by
      refine fails_of_scan lineStart _ rest .tooManyOctaveMarks hh hne ?_
      rw [Token.scan_eq_scanMusic lineStart t rest hd.1 hd.octave_ne_zero ha]
      subst hb
      have ho := Token.scanMusic_octave (-128) rest (by decide) ha
      rwa [if_pos (by decide)] at ho
    exact ⟨fun hall => absurd (hall t (by simp)) hn, fun _ => hf⟩

def spelled (ts : List Token) : List Char :=
  ts.flatMap Token.chars

theorem spelled_append (ts us : List Token) : spelled (ts ++ us) = spelled ts ++ spelled us :=
  List.flatMap_append

/-- No token of the word is carried on by what stands after it. -/
def Tight : List Token → List Char → Prop
  | [], _ => True
  | t :: ts, rest => Drawn t ∧ t.Apart (spelled ts ++ rest) ∧ Tight ts rest

theorem tight_append (ts us : List Token) (rest : List Char) :
    Tight (ts ++ us) rest ↔ Tight ts (spelled us ++ rest) ∧ Tight us rest := by
  induction ts with
  | nil => simp [Tight]
  | cons t ts ih =>
    simp only [List.cons_append, Tight, ih, spelled_append, List.append_assoc, and_assoc]

theorem spells_tight (ts : List Token) (rest : List Char) (h : Tight ts rest) :
    Spells false (spelled ts) ts false rest := by
  induction ts with
  | nil => exact Spells.nil false rest
  | cons t ts ih =>
    have hf := spells_token false t (spelled ts ++ rest) h.1 h.2.1
    exact hf.append (ih h.2.2)

theorem spells_tight_cons (lineStart : Bool) (t : Token) (ts : List Token) (rest : List Char)
    (h : Tight (t :: ts) rest) : Spells lineStart (spelled (t :: ts)) (t :: ts) false rest :=
  (spells_token lineStart t (spelled ts ++ rest) h.1 h.2.1).append (spells_tight ts rest h.2.2)

theorem not_extendedBy_space (t : Token) (c : Char) (hm : t.IsMusic)
    (hc : Token.isSpace c = true) : t.extendedBy c = false := by
  have hv : ((c = ' ' ∨ c = '\t') ∨ c = '\r') ∨ c = '\n' := by
    simpa [Token.isSpace] using hc
  cases t with
  | field kind value => exact hm.elim
  | comment text => exact hm.elim
  | barline line => cases line <;> rcases hv with ((rfl | rfl) | rfl) | rfl <;> rfl
  | _ => rcases hv with ((rfl | rfl) | rfl) | rfl <;> rfl

theorem tight_space (ts : List Token) (c : Char) (rest : List Char) (h : Tight ts [])
    (hc : Token.isSpace c = true) : Tight ts (c :: rest) := by
  induction ts with
  | nil => trivial
  | cons t ts ih =>
    refine ⟨h.1, ?_, ih h.2.2⟩
    cases ts with
    | nil => exact (Token.apart_cons t c rest).2 (not_extendedBy_space t c h.1.1 hc)
    | cons u us =>
      obtain ⟨d, ds, hd, -⟩ := Token.chars_head u h.2.2.1.1 h.2.2.1.octave_ne_zero
      have ha := h.2.1
      simp only [spelled, List.flatMap_cons, hd, List.cons_append, Token.apart_cons] at ha ⊢
      exact ha

open Canonical in
theorem unwords_cons_cons (w v : List Char) (ws : List (List Char)) :
    unwords (w :: v :: ws) = w ++ ' ' :: unwords (v :: ws) := by
  simp [unwords, List.intercalate_cons_cons]

/-- Words with spaces between them and a blank at the end. -/
theorem spells_unwords (lineStart : Bool) (ws : List (List Token)) (c : Char) (rest : List Char)
    (hne : ws ≠ []) (hw : ∀ w ∈ ws, w ≠ [] ∧ Tight w []) (hc : Token.isSpace c = true) :
    Spells lineStart (Canonical.unwords (ws.map spelled)) ws.flatten false (c :: rest) := by
  induction ws generalizing lineStart with
  | nil => exact absurd rfl hne
  | cons w ws ih =>
    obtain ⟨t, ts, rfl⟩ := List.exists_cons_of_ne_nil (hw w (by simp)).1
    have ht : Tight (t :: ts) [] := (hw _ (by simp)).2
    cases ws with
    | nil =>
      have h := spells_tight_cons lineStart t ts (c :: rest) (tight_space _ c rest ht hc)
      simpa [Canonical.unwords] using h
    | cons v vs =>
      let line := Canonical.unwords ((v :: vs).map spelled)
      have hv : Spells false line (v :: vs).flatten false (c :: rest) :=
        ih false (by simp) (fun u hu => hw u (List.mem_cons_of_mem _ hu))
      have hs : Spells false ([' '] ++ line) (v :: vs).flatten false (c :: rest) :=
        (spells_space ' ' false (line ++ c :: rest) (by decide)).append hv
      have h := spells_tight_cons lineStart t ts (' ' :: (line ++ c :: rest))
        (tight_space _ ' ' _ ht (by decide))
      rw [List.map_cons, List.map_cons, unwords_cons_cons]
      exact h.append hs

theorem spells_line (ws : List (List Token)) (rest : List Char) (hne : ws ≠ [])
    (hw : ∀ w ∈ ws, w ≠ [] ∧ Tight w []) :
    Spells true (Canonical.line (Canonical.unwords (ws.map spelled))) ws.flatten true rest := by
  have h := spells_unwords true ws '\n' rest hne hw (by decide)
  have hn := h.append (spells_space '\n' false rest (by decide))
  rw [List.append_nil] at hn
  exact hn

theorem spells_field (kind : FieldKind) (value rest : List Char) (hv : '\n' ∉ value) :
    Spells true (Canonical.field kind value) [.field kind (Token.fieldValue value)] true rest := by
  have hc : ∀ c ∈ (kind.char :: ':' :: value).head?, Token.isSpace c = false := by
    cases kind <;> simp [FieldKind.char, Token.isSpace]
  have h := spells_of_scan true (kind.char :: ':' :: value) ('\n' :: rest)
    (.field kind (Token.fieldValue value)) hc (by simp) (Token.fieldValue_scannable kind value hv)
    (Token.scan_field kind value ('\n' :: rest) hv (by simp [Token.notNewline]))
  exact h.append (spells_space '\n' false rest (by decide))

theorem Spells.whole_text {cs : List Char} {ks : List Token} {next : Bool}
    (h : Spells true cs ks next []) :
    ((∀ t ∈ ks, t.Scannable) →
      (ofText (String.ofList cs)).kinds = ks ∧ (ofText (String.ofList cs)).failure = none) ∧
    ((∃ t ∈ ks, ¬t.Scannable) → (ofText (String.ofList cs)).failure ≠ none) := by
  have hnil : ∀ place, scanFrom place next [] = ⟨[], none⟩ := fun place => by
    rw [scanFrom_eq]
    rfl
  have ht : ofText (String.ofList cs) = scanFrom .first true (cs ++ []) := by
    rw [ofText, String.toList_ofList, List.append_nil]
  rw [ht]
  constructor
  · intro hall
    obtain ⟨place, hk, hf⟩ := h.yields hall .first
    rw [hnil] at hk hf
    exact ⟨by rw [hk]; exact List.append_nil ks, hf⟩
  · exact fun hx => h.fails hx .first

end Tunebook.Lexed
