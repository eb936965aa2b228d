import Mathlib.Tactic.SplitIfs
import Mathlib.Tactic.Tauto
import Tunebook.Proofs.Duration
import Tunebook.Proofs.Token.Lexing
import Tunebook.Proofs.Tune.Notation
import Tunebook.Tune.Draft

namespace Tunebook

open Element Lexed

def Note.reduced (n : Note) : Note :=
  ⟨n.pitch, n.duration.reduced⟩

/-- The letter a pitch is written with: lower case from the first octave up. -/
def Pitch.noteLetter (p : Pitch) : NoteLetter :=
  ⟨p.letter, decide (1 ≤ p.octave.toInt)⟩

def Pitch.marks (p : Pitch) : Int8 :=
  Int8.ofInt (if 1 ≤ p.octave.toInt then p.octave.toInt - 1 else p.octave.toInt)

def Pitch.markTokens (p : Pitch) : List Token :=
  if p.marks = 0 then [] else [.octave p.marks]

def Duration.tokens (d : Duration) : List Token :=
  let num := Token.digits d.reduced.num
  let den := Token.digits d.reduced.den
  if d.reduced.num = 1 ∧ d.reduced.den = 1 then []
  else if d.reduced.den = 1 then [num]
  else if d.reduced.num = 1 then [.fractionBar, den]
  else [num, .fractionBar, den]

/-- A note with the accidental that is written before it. -/
structure SignedNote where
  sign : Option Int8
  note : Note

namespace SignedNote

def tokens (n : SignedNote) : List Token :=
  n.sign.toList.map Token.accidental ++ .letter n.note.pitch.noteLetter ::
    (n.note.pitch.markTokens ++ n.note.duration.tokens)

def run (ns : List SignedNote) : Run :=
  ns.filterMap fun n => n.sign.map fun value => (n.note.pitch, value)

structure Sound (n : SignedNote) : Prop where
  note : n.note.Sound
  sign : ∀ value ∈ n.sign, -2 ≤ value.toInt ∧ value.toInt ≤ 2

end SignedNote

inductive Figure where
  | note (n : SignedNote)
  | rest (d : Duration)
  | chord (ns : List SignedNote)
  | mark (size : UInt32)
  | barline (line : Barline)
  | ending (which : Ending)

namespace Figure

def tokens : Figure → List Token
  | note n => n.tokens
  | rest d => .rest :: d.tokens
  | chord ns => .chordStart :: (ns.flatMap SignedNote.tokens ++ [.chordEnd])
  | mark size => [.tuplet size]
  | barline line => [.barline line]
  | ending which => [.ending which]

def word (f : Figure) : List Char :=
  spelled f.tokens

def elements : Figure → List Element
  | note n => (SignedNote.run [n]).elements ++ [.note n.note.reduced]
  | rest d => [.rest d.reduced]
  | chord ns => (SignedNote.run ns).elements ++ [.chord (ns.map fun n => n.note.reduced)]
  | mark size => [(Tuplet.empty size).toElement]
  | barline _ | ending _ => []

def strokes : Figure → List Stroke
  | barline line => [.barline line]
  | ending which => [.ending which]
  | figure => figure.elements.map .element

def Sound : Figure → Prop
  | note n => n.Sound
  | rest d => d.den ≠ 0
  | chord ns => ns ≠ [] ∧ ∀ n ∈ ns, n.Sound
  | _ => True

def notes : Figure → List Note
  | note n => [n.note]
  | chord ns => ns.map SignedNote.note
  | _ => []

end Figure

theorem Duration.spelled_tokens (d : Duration) : spelled d.tokens = Canonical.suffix d := by
  unfold Duration.tokens Canonical.suffix
  dsimp only
  split
  · rfl
  · split
    · simp [spelled, Token.chars]
    · split
      · simp [spelled, Token.chars]
      · simp [spelled, Token.chars]

namespace Pitch

theorem marks_toInt (p : Pitch) :
    p.marks.toInt = if 1 ≤ p.octave.toInt then p.octave.toInt - 1 else p.octave.toInt := by
  have hl := p.octave.le_toInt
  have hu := p.octave.toInt_lt
  apply Int8.toInt_ofInt_of_le <;> split_ifs <;> omega

theorem marks_eq_zero_iff (p : Pitch) : p.marks = 0 ↔ p.marks.toInt = 0 :=
  Int8.toInt_inj.symm

theorem spelled_markTokens (p : Pitch) : spelled p.markTokens = Token.octaveChars p.marks := by
  unfold markTokens
  split
  · rename_i h
    rw [h]
    rfl
  · simp [spelled, Token.chars]

theorem spelled_letter (p : Pitch) (h : p.accidental = 0) :
    p.noteLetter.char :: spelled p.markTokens = p.chars := by
  have hm := p.marks_toInt
  have hp : 0 < p.marks ↔ 0 < p.marks.toInt := Int8.lt_iff_toInt_lt
  rw [spelled_markTokens, Token.octaveChars, chars, h, marked]
  by_cases ho : 1 ≤ p.octave.toInt
  · rw [if_pos ho] at hm
    have hn : p.noteLetter.char = p.letter.lower := by simp [noteLetter, NoteLetter.char, ho]
    have ha : p.marks.toInt.natAbs = (p.octave.toInt - 1).toNat := by omega
    rw [hn, ha]
    simp only [ho, if_true]
    by_cases h0 : p.octave.toInt - 1 = 0
    · simp [h0, sharpsAndFlats]
    · rw [if_pos (hp.2 (by omega))]
      rfl
  · rw [if_neg ho] at hm
    have hn : p.noteLetter.char = p.letter.upper := by simp [noteLetter, NoteLetter.char, ho]
    have ha : p.marks.toInt.natAbs = (-p.octave.toInt).toNat := by omega
    rw [hn, ha, if_neg (fun h0 => by have := hp.1 h0; omega)]
    simp only [ho, if_false]
    rfl

end Pitch

/-- What may stand right after a note: nothing that its letter, marks or length would take in. -/
def Ends (rest : List Char) : Prop :=
  ∀ c ∈ rest.head?, c.isDigit = false ∧ c ≠ ':' ∧ c ≠ '\'' ∧ c ≠ ','

theorem ends_nil : Ends [] := by
  intro c hc
  simp at hc

theorem drawn_of_scannable {t : Token} (hm : t.IsMusic) (hs : t.Scannable) : Drawn t :=
  ⟨hm, Or.inl hs⟩

theorem head?_decimal (n : Nat) (rest : List Char) :
    ∀ c ∈ (Text.decimal n ++ rest).head?, c.isDigit = true := by
  intro c hc
  rw [head?_append_of_ne_nil _ _ (Text.decimal_ne_nil n)] at hc
  exact Text.isDigit_of_mem_decimal n c (List.mem_of_head? hc)

namespace Duration

theorem head?_tokens (d : Duration) (rest : List Char) :
    ∀ c ∈ (spelled d.tokens ++ rest).head?, c.isDigit = true ∨ c = '/' ∨ c ∈ rest.head? := by
  intro c hc
  unfold Duration.tokens at hc
  dsimp only at hc
  split at hc
  · exact Or.inr (Or.inr hc)
  · split at hc
    · refine Or.inl (head?_decimal d.reduced.num.toNat rest c ?_)
      simpa [spelled, Token.chars] using hc
    · split at hc
      · refine Or.inr (Or.inl ?_)
        simpa [spelled, Token.chars, eq_comm] using hc
      · let den := Text.decimal d.reduced.den.toNat
        refine Or.inl (head?_decimal d.reduced.num.toNat ('/' :: (den ++ rest)) c ?_)
        simpa [spelled, Token.chars] using hc

theorem tight_digits (n : UInt32) (rest : List Char) (h : Ends rest) : Tight [.digits n] rest :=
  ⟨drawn_of_scannable trivial trivial, fun c hc => (h c hc).1, trivial⟩

theorem tight_fraction (n : UInt32) (rest : List Char) (h : Ends rest) :
    Tight [.fractionBar, .digits n] rest :=
  ⟨drawn_of_scannable trivial trivial, fun _ _ => rfl, tight_digits n rest h⟩

theorem tight_tokens (d : Duration) (rest : List Char) (h : Ends rest) :
    Tight d.tokens rest := by
  unfold Duration.tokens
  dsimp only
  split
  · trivial
  · split
    · exact tight_digits _ rest h
    · split
      · exact tight_fraction _ rest h
      · refine ⟨drawn_of_scannable trivial trivial, ?_, tight_fraction _ rest h⟩
        exact (Token.apart_cons _ _ _).2 rfl

end Duration

namespace Pitch

theorem head?_markTokens (p : Pitch) (rest : List Char) :
    ∀ c ∈ (spelled p.markTokens ++ rest).head?, c = '\'' ∨ c = ',' ∨ c ∈ rest.head? := by
  intro c hc
  rw [spelled_markTokens] at hc
  by_cases h : Token.octaveChars p.marks = []
  · rw [h] at hc
    exact Or.inr (Or.inr hc)
  · rw [head?_append_of_ne_nil _ _ h] at hc
    have hm := (List.mem_replicate.1 (List.mem_of_head? hc)).2
    split_ifs at hm
    · exact Or.inl hm
    · exact Or.inr (Or.inl hm)

theorem drawn_marks (p : Pitch) (h : p.marks ≠ 0) : Drawn (.octave p.marks) := by
  refine ⟨trivial, ?_⟩
  have hl := p.marks.le_toInt
  by_cases hb : p.marks.toInt = -128
  · right
    rw [show p.marks = -128 from Int8.toInt_inj.1 hb]
  · left
    refine ⟨fun h0 => h ((marks_eq_zero_iff p).2 h0), ?_⟩
    omega

theorem tight_markTokens (p : Pitch) (rest : List Char)
    (h : ∀ c ∈ rest.head?, c ≠ '\'' ∧ c ≠ ',') : Tight p.markTokens rest := by
  unfold markTokens
  split
  · trivial
  · rename_i h0
    refine ⟨drawn_marks p h0, ?_, trivial⟩
    intro c hc
    rw [Token.extendedBy_octave, Bool.or_eq_false_iff, beq_eq_false_iff_ne, beq_eq_false_iff_ne]
    exact h c hc

end Pitch

theorem NoteLetter.char_ne (l : NoteLetter) :
    l.char ∉ ['^', '_', '=', '1', '2', '|', ':', '\'', ','] ∧ l.char.isDigit = false := by
  obtain ⟨letter, raised⟩ := l
  cases letter <;> cases raised <;> decide

theorem accidentalChars_ne_nil (value : Int8) : Token.accidentalChars value ≠ [] := by
  unfold Token.accidentalChars
  split
  · simp
  · assumption

theorem mem_accidentalChars (value : Int8) (c : Char) (hc : c ∈ Token.accidentalChars value) :
    c ∈ ['^', '_', '='] := by
  unfold Token.accidentalChars Pitch.sharpsAndFlats at hc
  split_ifs at hc <;> simp_all

namespace SignedNote

theorem tight_tokens (n : SignedNote) (rest : List Char) (h : Ends rest) (hn : n.Sound) :
    Tight n.tokens rest := by
  have hl := NoteLetter.char_ne n.note.pitch.noteLetter
  have hd : Tight n.note.duration.tokens rest := Duration.tight_tokens _ rest h
  have hm : Tight n.note.pitch.markTokens (spelled n.note.duration.tokens ++ rest) := by
    apply Pitch.tight_markTokens
    intro c hc
    rcases Duration.head?_tokens _ _ c hc with hc | rfl | hc
    · constructor <;> rintro rfl <;> exact absurd hc (by decide)
    · decide
    · exact (h c hc).2.2
  have hletter : Tight (.letter n.note.pitch.noteLetter ::
      (n.note.pitch.markTokens ++ n.note.duration.tokens)) rest := by
    refine ⟨drawn_of_scannable trivial trivial, ?_, (tight_append _ _ _).2 ⟨hm, hd⟩⟩
    intro c hc
    rw [spelled_append, List.append_assoc] at hc
    change (c == ':') = false
    rw [beq_eq_false_iff_ne]
    rcases Pitch.head?_markTokens _ _ c hc with rfl | rfl | hc
    · decide
    · decide
    · rcases Duration.head?_tokens _ _ c hc with hc | rfl | hc
      · rintro rfl
        exact absurd hc (by decide)
      · decide
      · exact (h c hc).2.1
  unfold tokens
  cases hs : n.sign with
  | none => exact hletter
  | some value =>
    refine ⟨drawn_of_scannable trivial (hn.sign value hs), ?_, hletter⟩
    refine (Token.apart_cons _ _ _).2 ?_
    simp only [Token.extendedBy_accidental, Bool.or_eq_false_iff, beq_eq_false_iff_ne]
    simp only [List.mem_cons, not_or] at hl
    exact ⟨⟨hl.1.1, hl.1.2.1⟩, hl.1.2.2.1⟩

theorem head?_tokens (n : SignedNote) (rest : List Char) :
    ∀ c ∈ (spelled n.tokens ++ rest).head?,
      c ∈ ['^', '_', '='] ∨ c = n.note.pitch.noteLetter.char := by
  intro c hc
  unfold tokens at hc
  cases hs : n.sign with
  | none =>
    rw [hs] at hc
    right
    simpa [spelled, Token.chars, eq_comm] using hc
  | some value =>
    rw [hs] at hc
    left
    change c ∈ (Token.accidentalChars value ++ spelled (.letter _ :: _) ++ rest).head? at hc
    rw [List.append_assoc, head?_append_of_ne_nil _ _ (accidentalChars_ne_nil value)] at hc
    exact mem_accidentalChars value c (List.mem_of_head? hc)

theorem ends_tokens (n : SignedNote) (rest : List Char) : Ends (spelled n.tokens ++ rest) := by
  intro c hc
  rcases head?_tokens n rest c hc with hm | rfl
  · simp only [List.mem_cons, List.not_mem_nil, or_false] at hm
    rcases hm with rfl | rfl | rfl <;> decide
  · have hl := NoteLetter.char_ne n.note.pitch.noteLetter
    simp only [List.mem_cons, not_or] at hl
    tauto

theorem tight_flatMap (ns : List SignedNote) (rest : List Char) (h : Ends rest)
    (hn : ∀ n ∈ ns, n.Sound) :
    Tight (ns.flatMap tokens) rest ∧ Ends (spelled (ns.flatMap tokens) ++ rest) := by
  induction ns with
  | nil => exact ⟨trivial, h⟩
  | cons n ns ih =>
    obtain ⟨ht, he⟩ := ih fun m hm => hn m (List.mem_cons_of_mem _ hm)
    rw [List.flatMap_cons, tight_append, spelled_append, List.append_assoc]
    exact ⟨⟨tight_tokens n _ he (hn n List.mem_cons_self), ht⟩, ends_tokens n _⟩

end SignedNote

namespace Figure

theorem tokens_ne_nil (f : Figure) : f.tokens ≠ [] := by
  cases f <;> simp [tokens, SignedNote.tokens]

theorem apart_chordStart (ns : List SignedNote) (rest : List Char) :
    Token.chordStart.Apart (spelled (ns.flatMap SignedNote.tokens) ++ ']' :: rest) := by
  cases ns with
  | nil => exact (Token.apart_cons _ _ _).2 rfl
  | cons n ns =>
    intro c hc
    rw [List.flatMap_cons, spelled_append, List.append_assoc] at hc
    rcases SignedNote.head?_tokens n _ c hc with hm | rfl
    · simp only [List.mem_cons, List.not_mem_nil, or_false] at hm
      rcases hm with rfl | rfl | rfl <;> rfl
    · have hl := NoteLetter.char_ne n.note.pitch.noteLetter
      simp only [List.mem_cons, not_or] at hl
      simp only [Token.extendedBy_chordStart, Bool.or_eq_false_iff, beq_eq_false_iff_ne]
      tauto

theorem tight_tokens (f : Figure) (hf : f.Sound) : Tight f.tokens [] := by
  cases f with
  | note n => exact n.tight_tokens [] ends_nil hf
  | rest d =>
    refine ⟨drawn_of_scannable trivial trivial, fun _ _ => rfl, ?_⟩
    exact d.tight_tokens [] ends_nil
  | chord ns =>
    have hend : Ends (spelled [.chordEnd] ++ []) := by
      intro c hc
      obtain rfl : ']' = c := by simpa [spelled, Token.chars] using hc
      decide
    have hin := (SignedNote.tight_flatMap ns _ hend hf.2).1
    refine ⟨drawn_of_scannable trivial trivial, ?_, (tight_append _ _ _).2 ⟨hin, ?_⟩⟩
    · have ha := apart_chordStart ns []
      simpa [spelled, Token.chars] using ha
    · exact ⟨drawn_of_scannable trivial trivial, fun _ _ => rfl, trivial⟩
  | mark size => exact ⟨drawn_of_scannable trivial trivial, Token.apart_nil _, trivial⟩
  | barline line => exact ⟨drawn_of_scannable trivial trivial, Token.apart_nil _, trivial⟩
  | ending which => exact ⟨drawn_of_scannable trivial trivial, Token.apart_nil _, trivial⟩

end Figure

theorem Duration.scannable_tokens (d : Duration) : ∀ t ∈ d.tokens, t.Scannable := by
  intro t ht
  unfold Duration.tokens at ht
  dsimp only at ht
  split_ifs at ht <;> simp only [List.mem_cons, List.not_mem_nil, or_false] at ht
  · rw [ht]
    trivial
  · rcases ht with rfl | rfl <;> trivial
  · rcases ht with rfl | rfl | rfl <;> trivial

/-- The lowest octave of all takes more marks than can be read. -/
theorem Pitch.scannable_markTokens_iff (p : Pitch) :
    (∀ t ∈ p.markTokens, t.Scannable) ↔ p.octave ≠ -128 := by
  have hm := p.marks_toInt
  have hl := p.octave.le_toInt
  have hb : p.octave = -128 ↔ p.octave.toInt = -128 := Int8.toInt_inj.symm
  have h0 := p.marks_eq_zero_iff
  unfold markTokens
  by_cases hz : p.marks = 0
  · rw [if_pos hz]
    have hz' := h0.1 hz
    refine ⟨fun _ h => ?_, fun _ t ht => absurd ht List.not_mem_nil⟩
    have ho := hb.1 h
    split_ifs at hm <;> omega
  · rw [if_neg hz]
    simp only [List.mem_singleton, forall_eq, Token.Scannable]
    have hz' : p.marks.toInt ≠ 0 := fun h => hz (h0.2 h)
    rw [ne_eq, ne_eq, hb]
    split_ifs at hm <;> omega

theorem SignedNote.scannable_tokens_iff (n : SignedNote) (hn : n.Sound) :
    (∀ t ∈ n.tokens, t.Scannable) ↔ n.note.pitch.octave ≠ -128 := by
  rw [← Pitch.scannable_markTokens_iff]
  constructor
  · intro h t ht
    exact h t (by simp [tokens, ht])
  · intro h t ht
    simp only [tokens, List.mem_append, List.mem_cons, List.mem_map, Option.mem_toList] at ht
    rcases ht with ⟨value, hv, rfl⟩ | rfl | hm | hd
    · exact hn.sign value hv
    · trivial
    · exact h t hm
    · exact Duration.scannable_tokens _ t hd

theorem Figure.scannable_tokens_iff (f : Figure) (hf : f.Sound) :
    (∀ t ∈ f.tokens, t.Scannable) ↔ ∀ n ∈ f.notes, n.pitch.octave ≠ -128 := by
  cases f with
  | note n =>
    have h := n.scannable_tokens_iff hf
    simpa [tokens, notes] using h
  | rest d =>
    simp only [tokens, notes, List.mem_cons, List.not_mem_nil, false_imp_iff, implies_true,
      iff_true]
    rintro t (rfl | ht)
    · trivial
    · exact d.scannable_tokens t ht
  | chord ns =>
    have h : ∀ n ∈ ns, (∀ t ∈ n.tokens, t.Scannable) ↔ n.note.pitch.octave ≠ -128 :=
      fun n hn => n.scannable_tokens_iff (hf.2 n hn)
    constructor
    · intro ht m hm
      obtain ⟨n, hn, rfl⟩ := List.mem_map.1 hm
      refine (h n hn).1 fun t hmem => ht t ?_
      simp only [tokens, List.mem_cons, List.mem_append, List.mem_flatMap]
      exact Or.inr (Or.inl ⟨n, hn, hmem⟩)
    · intro ho t ht
      simp only [tokens, List.mem_cons, List.mem_append, List.mem_flatMap, List.not_mem_nil,
        or_false] at ht
      rcases ht with rfl | ⟨n, hn, hmem⟩ | rfl
      · trivial
      · exact (h n hn).2 (ho n.note (List.mem_map_of_mem hn)) t hmem
      · trivial
  | mark size => simp [tokens, notes, Token.Scannable]
  | barline line => simp [tokens, notes, Token.Scannable]
  | ending which => simp [tokens, notes, Token.Scannable]

/-- The first accidental of the run for the pitch, and those left. -/
def Run.take (pitch : Pitch) : Run → Option Int8 × Run
  | [] => (none, [])
  | a :: run =>
    if a.1.alike pitch then (some a.2, run)
    else ((Run.take pitch run).1, a :: (Run.take pitch run).2)

/-- The notes of a chord with their accidentals from the run, and those left. -/
def Run.deal : Run → List Note → List SignedNote × Run
  | run, [] => ([], run)
  | run, n :: notes =>
    let taken := run.take n.pitch
    (⟨taken.1, n⟩ :: (Run.deal taken.2 notes).1, (Run.deal taken.2 notes).2)

/-- The figures of elements after the accidentals of `run`, which wait for their notes. -/
def Element.figures : Run → List Element → List Figure
  | _, [] => []
  | run, accidental pitch value :: es => figures (run ++ [(pitch, value)]) es
  | run, note n :: es => .note ⟨(run.take n.pitch).1, n⟩ :: figures (run.take n.pitch).2 es
  | run, rest d :: es => .rest d :: figures run es
  | run, chord notes :: es => .chord (run.deal notes).1 :: figures (run.deal notes).2 es
  | run, tuplet size elements _ :: es => .mark size :: (figures [] elements ++ figures run es)

theorem Run.take_sublist (pitch : Pitch) (run : Run) : (run.take pitch).2.Sublist run := by
  induction run with
  | nil => exact List.nil_sublist _
  | cons a run ih =>
    unfold Run.take
    split
    · exact List.sublist_cons_self a run
    · exact ih.cons_cons a

theorem Run.take_value {run : Run} {pitch : Pitch} {value : Int8}
    (h : (run.take pitch).1 = some value) : ∃ a ∈ run, a.2 = value := by
  induction run with
  | nil => simp [Run.take] at h
  | cons a run ih =>
    unfold Run.take at h
    split at h
    · exact ⟨a, List.mem_cons_self, Option.some.inj h⟩
    · obtain ⟨b, hb, hv⟩ := ih h
      exact ⟨b, List.mem_cons_of_mem _ hb, hv⟩

theorem Run.take_sound {run : Run} {n : Note} (h : run.Sound) (hn : n.Sound) :
    SignedNote.Sound ⟨(run.take n.pitch).1, n⟩ := by
  refine ⟨hn, ?_⟩
  intro value hv
  obtain ⟨a, ha, rfl⟩ := Run.take_value hv
  exact ⟨(h a ha).ge, (h a ha).le⟩

theorem Run.take_signs {run : Run} (pitch : Pitch) (h : run.Sound) :
    (run.take pitch).2.Sound :=
  fun a ha => h a ((Run.take_sublist pitch run).subset ha)

theorem Run.deal_sound {run : Run} {notes : List Note} (h : run.Sound)
    (hn : ∀ n ∈ notes, n.Sound) : ∀ n ∈ (run.deal notes).1, n.Sound := by
  induction notes generalizing run with
  | nil => simp [Run.deal]
  | cons n notes ih =>
    have hr := ih (Run.take_signs n.pitch h) fun m hm => hn m (List.mem_cons_of_mem _ hm)
    intro m hm
    rcases List.mem_cons.1 hm with rfl | hm
    · exact Run.take_sound h (hn n List.mem_cons_self)
    · exact hr m hm

theorem Run.deal_notes (run : Run) (notes : List Note) :
    (run.deal notes).1.map SignedNote.note = notes := by
  induction notes generalizing run with
  | nil => rfl
  | cons n notes ih => rw [Run.deal, List.map_cons, ih]

theorem Pitch.alike_iff_eq {p q : Pitch} (hp : p.accidental = 0) (hq : q.accidental = 0) :
    p.alike q = true ↔ p = q := by
  obtain ⟨l, o, a⟩ := p
  obtain ⟨l', o', a'⟩ := q
  simp only at hp hq
  simp [Pitch.alike, hp, hq]

theorem Run.take_left_sublist {run : Run} {pitch : Pitch} {pitches : List Pitch}
    (hs : run.Sound) (hp : pitch.accidental = 0)
    (h : run.pitches.Sublist (pitch :: pitches)) :
    (run.take pitch).2.pitches.Sublist pitches := by
  cases run with
  | nil => exact List.nil_sublist _
  | cons a run =>
    unfold Run.take
    have ha := (hs a List.mem_cons_self).natural
    by_cases he : a.1 = pitch
    · rw [if_pos ((Pitch.alike_iff_eq ha hp).2 he)]
      rw [Run.pitches, List.map_cons, he] at h
      exact List.cons_sublist_cons.1 h
    · rw [if_neg (fun h => he ((Pitch.alike_iff_eq ha hp).1 h))]
      -- the head is for a later note, and so is the whole run
      have hrest : Run.pitches (a :: run) |>.Sublist pitches := by
        cases h with
        | cons _ h => exact h
        | cons_cons _ h => exact absurd rfl he
      refine List.Sublist.trans ?_ hrest
      rw [Run.pitches, Run.pitches, List.map_cons, List.map_cons]
      exact (Run.take_sublist pitch run).map Prod.fst |>.cons_cons _

/-- A chord takes up the whole run before it. -/
theorem Run.deal_left {run : Run} {notes : List Note} (hs : run.Sound)
    (hn : ∀ n ∈ notes, n.Sound) (h : run.pitches.Sublist (notes.map Note.pitch)) :
    (run.deal notes).2 = [] := by
  induction notes generalizing run with
  | nil => exact List.map_eq_nil_iff.1 (List.sublist_nil.1 h)
  | cons n notes ih =>
    have hp := (hn n List.mem_cons_self).natural
    exact ih (Run.take_signs n.pitch hs) (fun m hm => hn m (List.mem_cons_of_mem _ hm))
      (Run.take_left_sublist hs hp h)

theorem Run.take_left {run : Run} {pitch : Pitch} (hs : run.Sound)
    (hp : pitch.accidental = 0) (h : run.pitches = [] ∨ run.pitches = [pitch]) :
    (run.take pitch).2 = [] := by
  have hsub : run.pitches.Sublist [pitch] := by
    rcases h with h | h
    · rw [h]
      exact List.nil_sublist _
    · exact h ▸ List.Sublist.refl _
  exact List.map_eq_nil_iff.1 (List.sublist_nil.1 (Run.take_left_sublist hs hp hsub))

namespace Element

theorem figures_sound {run : Run} {es : List Element} (h : Notated run es) :
    ∀ f ∈ figures run es, f.Sound := by
  induction h with
  | nil => simp [figures]
  | accidental h ih =>
    rw [figures]
    exact ih
  | note hr hn hp h ih =>
    rw [figures, Run.take_left hr hn.natural hp]
    exact List.forall_mem_cons.2 ⟨Run.take_sound hr hn, ih⟩
  | rest hd h ih =>
    rw [figures]
    exact List.forall_mem_cons.2 ⟨hd, ih⟩
  | @chord run notes es hr hne hn hp h ih =>
    rw [figures, Run.deal_left hr hn hp]
    refine List.forall_mem_cons.2 ⟨⟨?_, Run.deal_sound hr hn⟩, ih⟩
    intro h0
    have hd := Run.deal_notes run notes
    rw [h0] at hd
    exact hne hd.symm
  | tuplet hf hi h ihInner ih =>
    rw [figures]
    exact List.forall_mem_cons.2 ⟨trivial, List.forall_mem_append.2 ⟨ihInner, ih⟩⟩

end Element

namespace Canonical

theorem takeAccidental_eq (pitch : Pitch) (run : Run) :
    takeAccidental pitch run =
      (spelled ((run.take pitch).1.toList.map Token.accidental), (run.take pitch).2) := by
  induction run with
  | nil => rfl
  | cons a run ih =>
    unfold takeAccidental Run.take
    by_cases h : a.1.alike pitch = true
    · rw [if_pos h, if_pos h]
      simp [spelled, Token.chars]
    · rw [if_neg h, if_neg h, ih]

theorem note_eq (run : Run) (n : Note) (h : n.pitch.accidental = 0) :
    note run n = (spelled (SignedNote.tokens ⟨(run.take n.pitch).1, n⟩), (run.take n.pitch).2) := by
  have hl := n.pitch.spelled_letter h
  unfold note SignedNote.tokens
  rw [takeAccidental_eq, spelled_append, ← hl, ← Duration.spelled_tokens]
  simp [spelled, Token.chars]

theorem chordNotes_eq (run : Run) (notes : List Note) (h : ∀ n ∈ notes, n.Sound) :
    chordNotes run notes =
      (spelled ((run.deal notes).1.flatMap SignedNote.tokens), (run.deal notes).2) := by
  induction notes generalizing run with
  | nil => rfl
  | cons n notes ih =>
    unfold chordNotes Run.deal
    rw [note_eq run n (h n List.mem_cons_self).natural]
    dsimp only
    rw [ih _ fun m hm => h m (List.mem_cons_of_mem _ hm), List.flatMap_cons, spelled_append]

/-- Words with a space before each. Unlike `unwords` it does not tell whether some of the words
were put together before. -/
def spaced (ws : List (List Char)) : List Char :=
  ws.flatMap (' ' :: ·)

theorem spaced_append (ws vs : List (List Char)) : spaced (ws ++ vs) = spaced ws ++ spaced vs :=
  List.flatMap_append

theorem spaced_cons (w : List Char) (ws : List (List Char)) :
    spaced (w :: ws) = ' ' :: w ++ spaced ws :=
  rfl

theorem spaced_unwords (ws : List (List Char)) (h : ws ≠ []) : ' ' :: unwords ws = spaced ws := by
  induction ws with
  | nil => exact absurd rfl h
  | cons w ws ih =>
    cases ws with
    | nil => simp [unwords, spaced]
    | cons v vs => rw [unwords_cons_cons, ih (by simp), spaced_cons]; rfl

theorem unwords_ne_nil (ws : List (List Char)) (h : ∀ w ∈ ws, w ≠ []) (hne : ws ≠ []) :
    unwords ws ≠ [] := by
  cases ws with
  | nil => exact absurd rfl hne
  | cons w ws =>
    have hw := h w List.mem_cons_self
    cases ws with
    | nil => simpa [unwords] using hw
    | cons v vs =>
      rw [unwords_cons_cons]
      simp

theorem words_ne_nil {run : Run} {es : List Element} (h : Notated run es) :
    ∀ w ∈ words run es, w ≠ [] := by
  induction h with
  | nil => simp [words]
  | accidental h ih =>
    rw [words]
    exact ih
  | note hr hn hp h ih =>
    rw [words, note_eq _ _ hn.natural, Run.take_left hr hn.natural hp]
    refine List.forall_mem_cons.2 ⟨?_, ih⟩
    simp [SignedNote.tokens, spelled, Token.chars]
  | rest hd h ih =>
    rw [words]
    exact List.forall_mem_cons.2 ⟨by simp, ih⟩
  | chord hr hne hn hp h ih =>
    rw [words, chordNotes_eq _ _ hn, Run.deal_left hr hn hp]
    exact List.forall_mem_cons.2 ⟨by simp, ih⟩
  | tuplet hf hi h ihInner ih =>
    rw [words]
    refine List.forall_mem_cons.2 ⟨by simp [Token.chars], ?_⟩
    rw [List.forall_mem_append]
    refine ⟨?_, ih⟩
    split
    · simp
    · rename_i hinner
      exact List.forall_mem_singleton.2 (by simpa using hinner)

theorem spaced_words {run : Run} {es : List Element} (h : Notated run es) :
    spaced (words run es) = spaced ((figures run es).map Figure.word) := by
  induction h with
  | nil => rw [words, figures, List.map_nil]
  | accidental h ih =>
    rw [words, figures]
    exact ih
  | note hr hn hp h ih =>
    rw [words, figures, note_eq _ _ hn.natural, Run.take_left hr hn.natural hp, List.map_cons,
      spaced_cons, spaced_cons, ih]
    rfl
  | rest hd h ih =>
    rw [words, figures, List.map_cons, spaced_cons, spaced_cons, ih, ← Duration.spelled_tokens]
    rfl
  | chord hr hne hn hp h ih =>
    rw [words, figures, chordNotes_eq _ _ hn, Run.deal_left hr hn hp, List.map_cons, spaced_cons,
      spaced_cons, ih]
    simp [Figure.word, Figure.tokens, spelled, Token.chars]
  | @tuplet size elements notes es hf hi h ihInner ih =>
    have hinner : spaced (if (unwords (words [] elements)).isEmpty then []
        else [unwords (words [] elements)]) = spaced (words [] elements) := by
      by_cases hw : words [] elements = []
      · simp [hw, unwords]
      · have hne := unwords_ne_nil _ (words_ne_nil hi) hw
        rw [if_neg (by simpa using hne), spaced_cons, spaced_unwords _ hw]
        exact List.append_nil _
    rw [words, figures, List.map_cons, List.map_append, spaced_cons, spaced_cons, spaced_append,
      spaced_append, hinner, ihInner, ih]
    simp [Figure.word, Figure.tokens, spelled]

end Canonical

end Tunebook
