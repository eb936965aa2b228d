import Tunebook.Proofs.Tune.Figures
import Tunebook.Proofs.Tune.Reading

namespace Tunebook

open Element

def Token.continues : Token → Bool
  | octave _ | digits _ | fractionBar => true
  | _ => false

def Token.startsElements : Token → Bool
  | letter _ | accidental _ | rest | chordStart | tuplet _ => true
  | _ => false

theorem Reading.step_elements (r : Reading) (u : PlacedToken) (ts rest : Music.Tokens)
    (es : List Element) (h : u.token.startsElements = true)
    (he : Music.elements none u ts = .ok (es, rest)) :
    r.step none u ts = (r.music u (es.map .element)).map fun r => (r, rest) := by
  unfold step
  split
  case h_5 => rw [he]
  all_goals
    rename_i hu
    rw [hu] at h
    cases h

namespace Music

/-- The tokens do not start with one that belongs to a note before them. -/
def Clear (ts : Tokens) : Prop :=
  ∀ t ∈ ts.head?, t.token.continues = false

theorem clear_nil : Clear [] := by
  intro t ht
  simp at ht

theorem clear_cons (t : PlacedToken) (ts : Tokens) :
    Clear (t :: ts) ↔ t.token.continues = false := by
  simp [Clear]

theorem octaves_stop (shift : Int8) (ts : Tokens)
    (h : ∀ t ∈ ts.head?, ∀ marks, t.token ≠ .octave marks) :
    octaves none shift ts = .ok (shift, ts) := by
  cases ts with
  | nil => rfl
  | cons t ts =>
    have ht := h t rfl
    simp only [octaves]

theorem numerator_stop (ts : Tokens) (h : ∀ t ∈ ts.head?, ∀ n, t.token ≠ .digits n) :
    numerator none ts = .ok (1, ts) := by
  cases ts with
  | nil => rfl
  | cons t ts =>
    have ht := h t rfl
    simp only [numerator]

theorem denominator_stop (ts : Tokens) (h : ∀ t ∈ ts.head?, t.token ≠ .fractionBar) :
    denominator none ts = .ok (1, ts) := by
  cases ts with
  | nil => rfl
  | cons t ts =>
    have ht := h t rfl
    simp only [denominator]

theorem Clear.octave {ts : Tokens} (h : Clear ts) :
    ∀ t ∈ ts.head?, ∀ marks, t.token ≠ .octave marks := by
  intro t ht marks he
  have hc := h t ht
  rw [he] at hc
  cases hc

theorem Clear.digits {ts : Tokens} (h : Clear ts) :
    ∀ t ∈ ts.head?, ∀ n, t.token ≠ .digits n := by
  intro t ht n he
  have hc := h t ht
  rw [he] at hc
  cases hc

theorem Clear.fractionBar {ts : Tokens} (h : Clear ts) :
    ∀ t ∈ ts.head?, t.token ≠ .fractionBar := by
  intro t ht he
  have hc := h t ht
  rw [he] at hc
  cases hc

theorem Clear.startsLength {ts : Tokens} (h : Clear ts) : startsLength ts = false := by
  cases ts with
  | nil => rfl
  | cons t ts =>
    have ht := (clear_cons t ts).1 h
    obtain ⟨token, lexeme, place⟩ := t
    cases token with
    | digits n => cases ht
    | fractionBar => cases ht
    | _ => rfl

theorem denominator_fraction (u v : PlacedToken) (n : UInt32) (rest : Tokens) (hn : n ≠ 0)
    (hu : u.token = .fractionBar) (hv : v.token = .digits n) :
    denominator none (u :: v :: rest) = .ok (n, rest) := by
  simp [denominator, divisor, hu, hv, hn]

/-- A length that is written in lowest terms is read in lowest terms. -/
theorem length_tokens (d : Duration) (us rest : Tokens) (hd : d.den ≠ 0)
    (hk : us.map PlacedToken.token = d.tokens) (hr : Clear rest) :
    length none (us ++ rest) = .ok (d.reduced, rest) := by
  have hden := d.reduced_den_ne_zero hd
  unfold Duration.tokens at hk
  dsimp only at hk
  unfold length
  split_ifs at hk with h11 hden1 hnum1
  · obtain rfl : us = [] := by simpa using hk
    rw [List.nil_append, numerator_stop rest hr.digits]
    dsimp only
    have hone : d.reduced = ⟨1, 1⟩ := congr (congrArg Duration.mk h11.1) h11.2
    rw [denominator_stop rest hr.fractionBar, hone]
  · obtain ⟨u, rfl, hu⟩ : ∃ u, us = [u] ∧ u.token = .digits d.reduced.num := by
      simpa [List.map_eq_singleton_iff] using hk
    have hn : numerator none ([u] ++ rest) = .ok (d.reduced.num, rest) := by
      simp [numerator, hu]
    rw [hn]
    dsimp only
    rw [denominator_stop rest hr.fractionBar, ← hden1]
  · obtain ⟨u, v, rfl, hu, hv⟩ : ∃ u v, us = [u, v] ∧ u.token = .fractionBar ∧
        v.token = .digits d.reduced.den := by
      obtain ⟨u, vs, rfl, hu, hvs⟩ := List.map_eq_cons_iff.1 hk
      obtain ⟨v, rfl, hv⟩ := List.map_eq_singleton_iff.1 hvs
      exact ⟨u, v, rfl, hu, hv⟩
    rw [numerator_stop _ (by rintro t ⟨⟩ n; rw [hu]; simp)]
    dsimp only
    rw [List.cons_append, List.singleton_append, denominator_fraction u v _ rest hden hu hv]
    dsimp only
    rw [← hnum1]
  · obtain ⟨w, u, v, rfl, hw, hu, hv⟩ : ∃ w u v, us = [w, u, v] ∧ w.token = .digits d.reduced.num ∧
        u.token = .fractionBar ∧ v.token = .digits d.reduced.den := by
      obtain ⟨w, us, rfl, hw, hus⟩ := List.map_eq_cons_iff.1 hk
      obtain ⟨u, vs, rfl, hu, hvs⟩ := List.map_eq_cons_iff.1 hus
      obtain ⟨v, rfl, hv⟩ := List.map_eq_singleton_iff.1 hvs
      exact ⟨w, u, v, rfl, hw, hu, hv⟩
    have hn : numerator none ([w, u, v] ++ rest) = .ok (d.reduced.num, u :: v :: rest) := by
      simp [numerator, hw]
    rw [hn]
    dsimp only
    rw [denominator_fraction u v _ rest hden hu hv]

theorem addOctaves_zero (marks : Int8) : addOctaves 0 marks = marks := by
  have hl := marks.le_toInt
  have hu := marks.toInt_lt
  have hm : max (-128) (min 127 ((0 : Int8).toInt + marks.toInt)) = marks.toInt := by
    rw [show (0 : Int8).toInt = 0 from rfl]
    omega
  rw [addOctaves, hm, Int8.ofInt_toInt]

theorem octaves_tokens (p : Pitch) (us rest : Tokens)
    (hk : us.map PlacedToken.token = p.markTokens)
    (hr : ∀ t ∈ rest.head?, ∀ marks, t.token ≠ .octave marks) :
    octaves none 0 (us ++ rest) = .ok (p.marks, rest) := by
  unfold Pitch.markTokens at hk
  split_ifs at hk with h0
  · obtain rfl : us = [] := by simpa using hk
    rw [List.nil_append, octaves_stop 0 rest hr, h0]
  · obtain ⟨u, rfl, hu⟩ := List.map_eq_singleton_iff.1 hk
    have ho : octaves none 0 ([u] ++ rest) = octaves none (addOctaves 0 p.marks) rest := by
      simp [octaves, hu]
    rw [ho, addOctaves_zero, octaves_stop _ rest hr]

theorem shiftOctave?_marks (p : Pitch) (h : p.accidental = 0) :
    Pitch.shiftOctave? ⟨p.noteLetter.letter, p.noteLetter.octave, 0⟩ p.marks = some p := by
  have hl := p.octave.le_toInt
  have hu := p.octave.toInt_lt
  have hm := p.marks_toInt
  have hs : p.noteLetter.octave.toInt + p.marks.toInt = p.octave.toInt := by
    by_cases ho : 1 ≤ p.octave.toInt
    · have hn : p.noteLetter.octave = 1 := by simp [Pitch.noteLetter, NoteLetter.octave, ho]
      rw [hn, hm, if_pos ho, show (1 : Int8).toInt = 1 from rfl]
      omega
    · have hn : p.noteLetter.octave = 0 := by simp [Pitch.noteLetter, NoteLetter.octave, ho]
      rw [hn, hm, if_neg ho, show (0 : Int8).toInt = 0 from rfl, Int.zero_add]
  unfold Pitch.shiftOctave? Word.fitSigned8
  dsimp only
  rw [hs, if_pos (by omega), Option.map_some, Int8.ofInt_toInt, Pitch.noteLetter, ← h]

theorem head_tokens (d : Duration) (us rest : Tokens) (hk : us.map PlacedToken.token = d.tokens)
    (hr : Clear rest) : ∀ t ∈ (us ++ rest).head?, ∀ marks, t.token ≠ .octave marks := by
  intro t ht marks he
  cases us with
  | nil => exact hr.octave t ht marks he
  | cons u us =>
    have hm : Token.octave marks ∈ d.tokens := by
      obtain rfl : u = t := by simpa using ht
      rw [← hk, ← he]
      exact List.mem_cons_self
    unfold Duration.tokens at hm
    dsimp only at hm
    split_ifs at hm <;> simp at hm

theorem note_tokens (n : Note) (position : Position) (us rest : Tokens) (hn : n.Sound)
    (hk : us.map PlacedToken.token = n.pitch.markTokens ++ n.duration.tokens)
    (hr : Clear rest) :
    note none n.pitch.noteLetter position (us ++ rest) = .ok (n.reduced, rest) := by
  obtain ⟨vs, ws, rfl, hv, hw⟩ := List.map_eq_append_iff.1 hk
  unfold note
  rw [List.append_assoc, octaves_tokens n.pitch vs (ws ++ rest) hv (head_tokens _ ws rest hw hr)]
  dsimp only
  rw [shiftOctave?_marks n.pitch hn.natural]
  dsimp only
  rw [length_tokens n.duration ws rest hn.den_ne_zero hw hr]
  rfl

theorem alteredNote_tokens (n : Note) (sign : PlacedToken) (us rest : Tokens) (hn : n.Sound)
    (hk : us.map PlacedToken.token =
      .letter n.pitch.noteLetter :: (n.pitch.markTokens ++ n.duration.tokens))
    (hr : Clear rest) : alteredNote none sign (us ++ rest) = .ok (n.reduced, rest) := by
  obtain ⟨v, vs, rfl, hv, hvs⟩ := List.map_eq_cons_iff.1 hk
  rw [List.cons_append]
  simp only [alteredNote, hv]
  exact note_tokens n v.position vs rest hn hvs hr

def ChordNotes.add (c : ChordNotes) (n : SignedNote) : ChordNotes :=
  ⟨c.accidentals ++ (SignedNote.run [n]).elements, c.notes ++ [n.note.reduced]⟩

theorem pushNote_tokens (c : ChordNotes) (n : SignedNote) (u : PlacedToken) (us rest : Tokens)
    (hn : n.Sound) (hk : (u :: us).map PlacedToken.token = n.tokens) (hr : Clear rest) :
    pushNote none c u (us ++ rest) = .ok (c.add n, rest) := by
  unfold SignedNote.tokens at hk
  unfold pushNote
  cases hs : n.sign with
  | none =>
    simp only [hs, Option.toList_none, List.map_nil, List.nil_append, List.map_cons,
      List.cons.injEq] at hk
    rw [hk.1]
    dsimp only
    rw [note_tokens n.note u.position us rest hn.note hk.2 hr]
    simp [ChordNotes.push, ChordNotes.add, SignedNote.run, hs, Run.elements]
  | some value =>
    simp only [hs, Option.toList_some, List.map_cons, List.map_nil, List.singleton_append,
      List.cons.injEq] at hk
    rw [hk.1]
    dsimp only
    rw [alteredNote_tokens n.note u us rest hn.note hk.2 hr]
    simp [ChordNotes.pushAltered, ChordNotes.add, SignedNote.run, hs, Run.elements, Note.reduced]

theorem chordNotes_end (c : ChordNotes) (u : PlacedToken) (rest : Tokens)
    (hu : u.token = .chordEnd) (hc : c.notes ≠ []) :
    chordNotes none c (u :: rest) = .ok (c, rest) := by
  rw [chordNotes, if_pos hu, if_neg (by simpa using hc)]

theorem chordNotes_cons (c c' : ChordNotes) (u : PlacedToken) (ts rest : Tokens)
    (hu : u.token ≠ .chordEnd) (hp : pushNote none c u ts = .ok (c', rest)) :
    chordNotes none c (u :: ts) = chordNotes none c' rest := by
  rw [chordNotes, if_neg hu]
  split
  · rename_i h
    rw [hp] at h
    cases h
  · rename_i h
    rw [hp] at h
    cases h
    rfl

theorem tokens_head (n : SignedNote) :
    ∃ k ks, n.tokens = k :: ks ∧ k.continues = false ∧ k ≠ .chordEnd := by
  unfold SignedNote.tokens
  cases n.sign with
  | none => exact ⟨_, _, rfl, rfl, by simp⟩
  | some value => exact ⟨_, _, rfl, rfl, by simp⟩

theorem clear_flatMap (ns : List SignedNote) (us rest : Tokens)
    (hk : us.map PlacedToken.token = ns.flatMap SignedNote.tokens) (hr : Clear rest) :
    Clear (us ++ rest) := by
  cases ns with
  | nil =>
    obtain rfl : us = [] := by simpa using hk
    exact hr
  | cons n ns =>
    obtain ⟨k, ks, hn, hc, -⟩ := tokens_head n
    rw [List.flatMap_cons, hn] at hk
    obtain ⟨u, us, rfl, rfl, -⟩ := List.map_eq_cons_iff.1 hk
    exact (clear_cons u _).2 hc

theorem chordNotes_tokens (c : ChordNotes) (ns : List SignedNote) (us rest : Tokens)
    (u : PlacedToken) (hn : ∀ n ∈ ns, n.Sound) (hne : c.notes ≠ [] ∨ ns ≠ [])
    (hk : us.map PlacedToken.token = ns.flatMap SignedNote.tokens) (hu : u.token = .chordEnd) :
    chordNotes none c (us ++ u :: rest) =
      .ok (⟨c.accidentals ++ (SignedNote.run ns).elements,
        c.notes ++ ns.map fun n => n.note.reduced⟩, rest) := by
  induction ns generalizing c us with
  | nil =>
    obtain rfl : us = [] := by simpa using hk
    rw [List.nil_append, chordNotes_end c u rest hu (by simpa using hne)]
    simp [SignedNote.run, Run.elements]
  | cons n ns ih =>
    rw [List.flatMap_cons] at hk
    obtain ⟨vs, ws, rfl, hv, hw⟩ := List.map_eq_append_iff.1 hk
    obtain ⟨k, ks, htok, -, hend⟩ := tokens_head n
    obtain ⟨v, vs, rfl, rfl, -⟩ := List.map_eq_cons_iff.1 (hv.trans htok)
    have hclear : Clear (ws ++ u :: rest) := by
      refine clear_flatMap ns ws _ hw ((clear_cons u rest).2 ?_)
      rw [hu]
      rfl
    have hp := pushNote_tokens c n v vs (ws ++ u :: rest) (hn n List.mem_cons_self) hv hclear
    rw [List.append_assoc, List.cons_append, chordNotes_cons c _ v _ _ hend hp,
      ih (c.add n) ws (fun m hm => hn m (List.mem_cons_of_mem _ hm))
        (Or.inl (by simp [ChordNotes.add])) hw]
    have hrun : (SignedNote.run (n :: ns)).elements =
        (SignedNote.run [n]).elements ++ (SignedNote.run ns).elements := by
      rw [Run.elements, Run.elements, Run.elements, ← List.map_append, SignedNote.run,
        SignedNote.run, SignedNote.run, ← List.filterMap_append, List.singleton_append]
    rw [hrun, ChordNotes.add]
    simp

theorem chord_tokens (ns : List SignedNote) (start : PlacedToken) (us rest : Tokens)
    (hn : ns ≠ [] ∧ ∀ n ∈ ns, n.Sound)
    (hk : us.map PlacedToken.token = ns.flatMap SignedNote.tokens ++ [.chordEnd])
    (hr : Clear rest) :
    chord none start (us ++ rest) = .ok ((Figure.chord ns).elements, rest) := by
  obtain ⟨vs, ws, rfl, hv, hw⟩ := List.map_eq_append_iff.1 hk
  obtain ⟨u, rfl, hu⟩ := List.map_eq_singleton_iff.1 hw
  have hl : length none rest = .ok (⟨1, 1⟩, rest) := by
    simp [length, numerator_stop rest hr.digits, denominator_stop rest hr.fractionBar]
  unfold chord
  rw [List.append_assoc, List.singleton_append,
    chordNotes_tokens ⟨[], []⟩ ns vs rest u hn.2 (Or.inr hn.1) hv hu]
  dsimp only
  rw [hl]
  dsimp only
  rw [hr.startsLength]
  rfl

end Music

namespace Figure

/-- All but bar lines and endings. -/
def hasElements : Figure → Bool
  | barline _ | ending _ => false
  | _ => true

theorem strokes_eq (f : Figure) (h : f.hasElements = true) :
    f.strokes = f.elements.map .element := by
  cases f <;> simp_all [strokes, hasElements]

theorem elements_tokens (f : Figure) (u : PlacedToken) (us rest : Music.Tokens) (hf : f.Sound)
    (he : f.hasElements = true) (hk : (u :: us).map PlacedToken.token = f.tokens)
    (hr : Music.Clear rest) :
    Music.elements none u (us ++ rest) = .ok (f.elements, rest) := by
  cases f with
  | note n =>
    obtain ⟨sign, n⟩ := n
    cases sign with
    | none =>
      simp only [tokens, SignedNote.tokens, Option.toList_none, List.map_nil, List.nil_append,
        List.map_cons, List.cons.injEq] at hk
      simp only [Music.elements, hk.1]
      rw [Music.note_tokens n u.position us rest hf.note hk.2 hr]
      rfl
    | some value =>
      simp only [tokens, SignedNote.tokens, Option.toList_some, List.map_cons, List.map_nil,
        List.singleton_append, List.cons.injEq] at hk
      simp only [Music.elements, hk.1]
      rw [Music.alteredNote_tokens n u us rest hf.note hk.2 hr]
      rfl
  | rest d =>
    simp only [tokens, List.map_cons, List.cons.injEq] at hk
    simp only [Music.elements, hk.1]
    rw [Music.length_tokens d us rest hf hk.2 hr]
    rfl
  | chord ns =>
    simp only [tokens, List.map_cons, List.cons.injEq] at hk
    simp only [Music.elements, hk.1]
    exact Music.chord_tokens ns u us rest hf hk.2 hr
  | mark size =>
    simp only [tokens, List.map_cons, List.cons.injEq, List.map_eq_nil_iff] at hk
    obtain ⟨hu, rfl⟩ := hk
    simp only [Music.elements, hu]
    rfl
  | barline line => cases he
  | ending which => cases he

theorem tokens_head (f : Figure) :
    ∃ k ks, f.tokens = k :: ks ∧ k.continues = false ∧ k.startsElements = f.hasElements := by
  cases f with
  | note n =>
    obtain ⟨sign, n⟩ := n
    cases sign with
    | none => exact ⟨.letter n.pitch.noteLetter, _, rfl, rfl, rfl⟩
    | some value => exact ⟨.accidental value, _, rfl, rfl, rfl⟩
  | rest d => exact ⟨.rest, _, rfl, rfl, rfl⟩
  | chord ns => exact ⟨.chordStart, _, rfl, rfl, rfl⟩
  | mark size => exact ⟨.tuplet size, _, rfl, rfl, rfl⟩
  | barline line => exact ⟨.barline line, _, rfl, rfl, rfl⟩
  | ending which => exact ⟨.ending which, _, rfl, rfl, rfl⟩

theorem step_tokens (f : Figure) (r : Reading) (u : PlacedToken) (us rest : Music.Tokens)
    (hf : f.Sound) (hk : (u :: us).map PlacedToken.token = f.tokens) (hr : Music.Clear rest) :
    r.step none u (us ++ rest) = (r.music u f.strokes).map fun r => (r, rest) := by
  cases he : f.hasElements with
  | true =>
    obtain ⟨k, ks, htok, -, hstart⟩ := f.tokens_head
    have hu : u.token = k := (List.cons.inj (hk.trans htok)).1
    rw [strokes_eq f he]
    exact Reading.step_elements r u _ rest _ (by rw [hu, hstart, he])
      (elements_tokens f u us rest hf he hk hr)
  | false =>
    cases f with
    | barline line =>
      simp only [tokens, List.map_cons, List.cons.injEq, List.map_eq_nil_iff] at hk
      obtain ⟨hu, rfl⟩ := hk
      rw [Reading.step, hu]
      rfl
    | ending which =>
      simp only [tokens, List.map_cons, List.cons.injEq, List.map_eq_nil_iff] at hk
      obtain ⟨hu, rfl⟩ := hk
      rw [Reading.step, hu]
      rfl
    | _ => cases he

theorem clear_tokens (fs : List Figure) (us rest : Music.Tokens)
    (hk : us.map PlacedToken.token = fs.flatMap tokens) (hr : Music.Clear rest) :
    Music.Clear (us ++ rest) := by
  cases fs with
  | nil =>
    obtain rfl : us = [] := by simpa using hk
    exact hr
  | cons f fs =>
    obtain ⟨k, ks, hf, hc, -⟩ := f.tokens_head
    rw [List.flatMap_cons, hf] at hk
    obtain ⟨u, us, rfl, rfl, -⟩ := List.map_eq_cons_iff.1 hk
    exact (Music.clear_cons u _).2 hc

end Figure

namespace Reading

/-- The reading after the current voice has become `d`. -/
def written (r : Reading) (ds : Drafts) (i : Nat) (d : Draft) : Reading :=
  { r with drafts := { ds with drafts := ds.drafts.set i d }, inBody := true }

theorem music_eq {r : Reading} {i : Nat} {d d' : Draft} (u : PlacedToken) {strokes : List Stroke}
    (hc : r.drafts.ensureCurrent.current = some i)
    (hd : r.drafts.ensureCurrent.drafts[i]? = some d) (hw : d.writeAll strokes = .ok d') :
    r.music u strokes = .ok (r.written r.drafts.ensureCurrent i d') := by
  unfold music
  rw [Drafts.foldlM_write hc hd, hw]
  rfl

/-- A line of figures is written to the current voice. -/
theorem run_figures (fs : List Figure) (r : Reading) (us rest : Music.Tokens) (i : Nat)
    (d d' : Draft) (hne : fs ≠ []) (hf : ∀ f ∈ fs, f.Sound)
    (hk : us.map PlacedToken.token = fs.flatMap Figure.tokens) (hr : Music.Clear rest)
    (hc : r.drafts.ensureCurrent.current = some i)
    (hd : r.drafts.ensureCurrent.drafts[i]? = some d)
    (hw : d.writeAll (fs.flatMap Figure.strokes) = .ok d') :
    r.run none (us ++ rest) = (r.written r.drafts.ensureCurrent i d').run none rest := by
  induction fs generalizing r us d with
  | nil => exact absurd rfl hne
  | cons f fs ih =>
    rw [List.flatMap_cons] at hk hw
    obtain ⟨vs, ws, rfl, hv, hws⟩ := List.map_eq_append_iff.1 hk
    obtain ⟨k, ks, htok, -, -⟩ := f.tokens_head
    obtain ⟨v, vs, rfl, -, -⟩ := List.map_eq_cons_iff.1 (hv.trans htok)
    have hclear := Figure.clear_tokens fs ws rest hws hr
    rw [Draft.writeAll_append] at hw
    cases h1 : d.writeAll f.strokes with
    | error e =>
      rw [h1] at hw
      cases hw
    | ok d1 =>
      rw [h1] at hw
      have hstep := f.step_tokens r v vs (ws ++ rest) (hf f List.mem_cons_self) hv hclear
      rw [music_eq v hc hd h1] at hstep
      rw [List.append_assoc, List.cons_append, run_cons, hstep]
      change (r.written r.drafts.ensureCurrent i d1).run none (ws ++ rest) = _
      cases fs with
      | nil =>
        obtain rfl : ws = [] := by simpa using hws
        cases hw
        rfl
      | cons g gs =>
        have hi : i < r.drafts.ensureCurrent.drafts.length := (List.getElem?_eq_some_iff.1 hd).1
        have hens : (r.written r.drafts.ensureCurrent i d1).drafts.ensureCurrent =
            (r.written r.drafts.ensureCurrent i d1).drafts :=
          Drafts.ensureCurrent_of_some hc
        rw [ih (r.written r.drafts.ensureCurrent i d1) ws d1 (by simp)
          (fun g hg => hf g (List.mem_cons_of_mem _ hg)) hws
          (by rw [hens]; exact hc) (by rw [hens]; exact List.getElem?_set_self hi) hw, hens]
        simp [written]

end Reading

end Tunebook
