import Tunebook.Proofs.Tune.FigureReading

namespace Tunebook

open Element Lexed

def barFigures : List Bar → List Figure
  | [] => []
  | [b] => figures [] b
  | b :: bs => figures [] b ++ .barline .single :: barFigures bs

def Repeat.figures (r : Repeat) : List Figure :=
  let second :=
    if r.secondEnding.isEmpty then []
    else [.ending .second] ++ barFigures r.secondEnding ++ [.barline .double]
  let endings :=
    if r.firstEnding.isEmpty && r.secondEnding.isEmpty then [.barline .repeatEnd]
    else [.ending .first] ++ barFigures r.firstEnding ++ [.barline .repeatEnd] ++ second
  [.barline .repeatStart] ++ barFigures r.normal ++ endings

def Phrase.figures : Phrase → List Figure
  | bar b => Element.figures [] b ++ [.barline .single]
  | repeated r => r.figures

def Voice.figures (v : Voice) : List Figure :=
  if v.phrases.isEmpty then [.barline .single]
  else
    v.phrases.flatMap Phrase.figures ++ if v.repeatOpen then [.barline .repeatStart] else []

theorem Repeat.forall_bars {r : Repeat} {P : Bar → Prop} :
    (∀ b ∈ r.bars, P b) ↔
      ((∀ b ∈ r.normal, P b) ∧ ∀ b ∈ r.firstEnding, P b) ∧ ∀ b ∈ r.secondEnding, P b := by
  rw [Repeat.bars, List.forall_mem_append, List.forall_mem_append]

theorem Phrase.figures_ne_nil (p : Phrase) : p.figures ≠ [] := by
  cases p <;> simp [Phrase.figures, Repeat.figures]

namespace Canonical

theorem words_ne_empty {run : Run} {es : List Element} (h : Notated run es)
    (hne : run ≠ [] ∨ es ≠ []) : words run es ≠ [] := by
  induction h with
  | nil => simp at hne
  | accidental h ih =>
    rw [words]
    exact ih (Or.inl (by simp))
  | _ => simp [words]

theorem spaced_bar {b : Bar} (h : Bar.Sound b) :
    ' ' :: bar b = spaced ((figures [] b).map Figure.word) := by
  have hw : words [] b ≠ [] := words_ne_empty h.2 (Or.inr h.1)
  rw [bar, spaced_unwords _ hw, spaced_words h.2]

theorem spaced_bars {bs : List Bar} (h : ∀ b ∈ bs, Bar.Sound b) :
    spaced (bars bs) = spaced ((barFigures bs).map Figure.word) := by
  fun_induction barFigures bs with
  | case1 => rfl
  | case2 b =>
    have hb := spaced_bar (h b (by simp))
    rw [← hb]
    simp [bars, spaced]
  | case3 b bs hbs ih =>
    obtain ⟨c, cs, rfl⟩ := List.exists_cons_of_ne_nil hbs
    have hb := spaced_bar (h b List.mem_cons_self)
    have hr := ih fun c hc => h c (List.mem_cons_of_mem _ hc)
    have hbars : bars (b :: c :: cs) = bar b :: Barline.single.chars :: bars (c :: cs) := by
      simp [bars]
    rw [hbars, spaced_cons, spaced_cons, hr, List.map_append, spaced_append, ← hb, List.map_cons,
      spaced_cons]
    simp [Figure.word, Figure.tokens, spelled, Token.chars]

theorem spaced_repeated {r : Repeat} (h : ∀ b ∈ r.bars, Bar.Sound b) :
    spaced (repeated r) = spaced (r.figures.map Figure.word) := by
  obtain ⟨⟨h0, h1⟩, h2⟩ := Repeat.forall_bars.1 h
  unfold repeated Repeat.figures
  simp only [spaced_append, List.map_append, spaced_bars h0]
  split_ifs
  · simp [spaced, Figure.word, Figure.tokens, spelled, Token.chars]
  · simp only [spaced_append, List.map_append, spaced_bars h1]
    simp [spaced, Figure.word, Figure.tokens, spelled, Token.chars]
  · simp only [spaced_append, List.map_append, spaced_bars h1, spaced_bars h2]
    simp [spaced, Figure.word, Figure.tokens, spelled, Token.chars]

theorem spaced_phrase {p : Phrase} (h : ∀ b ∈ p.bars, Bar.Sound b) :
    spaced (phrase p) = spaced (p.figures.map Figure.word) := by
  cases p with
  | bar b =>
    have hb := spaced_bar (h b (by simp [Phrase.bars]))
    rw [Phrase.figures, List.map_append, spaced_append, ← hb]
    simp [phrase, spaced, Figure.word, Figure.tokens, spelled, Token.chars]
  | repeated r => exact spaced_repeated h

theorem phrase_ne_nil (p : Phrase) : phrase p ≠ [] := by
  cases p <;> simp [phrase, repeated]

theorem spaced_phrases {ps : List Phrase} (h : ∀ b ∈ ps.flatMap Phrase.bars, Bar.Sound b) :
    spaced (ps.flatMap phrase) = spaced ((ps.flatMap Phrase.figures).map Figure.word) := by
  induction ps with
  | nil => rfl
  | cons p ps ih =>
    rw [List.flatMap_cons] at h
    obtain ⟨hp, hps⟩ := List.forall_mem_append.1 h
    rw [List.flatMap_cons, List.flatMap_cons, List.map_append, spaced_append, spaced_append,
      spaced_phrase hp, ih hps]

theorem music_eq {v : Voice} (h : ∀ b ∈ v.bars, Bar.Sound b) :
    music v = unwords (v.figures.map Figure.word) := by
  unfold music Voice.figures
  split
  · simp [unwords, Figure.word, Figure.tokens, spelled, Token.chars]
  · rename_i hne
    obtain ⟨p, ps, hp⟩ := List.exists_cons_of_ne_nil (by simpa using hne : v.phrases ≠ [])
    let opened := if v.repeatOpen then [Barline.repeatStart.chars] else []
    let openedFigures : List Figure := if v.repeatOpen then [.barline .repeatStart] else []
    have ho : spaced opened = spaced (openedFigures.map Figure.word) := by
      cases hv : v.repeatOpen <;>
        simp [opened, openedFigures, hv, spaced, Figure.word, Figure.tokens, spelled, Token.chars]
    have hw : v.phrases.flatMap phrase ++ opened ≠ [] := by
      simp [hp, phrase_ne_nil]
    have hf : (v.phrases.flatMap Phrase.figures ++ openedFigures).map Figure.word ≠ [] := by
      simp [hp, Phrase.figures_ne_nil]
    have he : ' ' :: unwords (v.phrases.flatMap phrase ++ opened) =
        ' ' :: unwords ((v.phrases.flatMap Phrase.figures ++ openedFigures).map Figure.word) := by
      rw [spaced_unwords _ hw, spaced_unwords _ hf, spaced_append, List.map_append, spaced_append,
        spaced_phrases h, ho]
    exact (List.cons.inj he).2

end Canonical

theorem barFigures_sound {bs : List Bar} (h : ∀ b ∈ bs, Bar.Sound b) :
    ∀ f ∈ barFigures bs, f.Sound := by
  fun_induction barFigures bs with
  | case1 => simp
  | case2 b => exact figures_sound (h b (by simp)).2
  | case3 b bs hbs ih =>
    refine List.forall_mem_append.2 ⟨figures_sound (h b List.mem_cons_self).2, ?_⟩
    exact List.forall_mem_cons.2 ⟨trivial, ih fun c hc => h c (List.mem_cons_of_mem _ hc)⟩

theorem Figure.sound_barline (line : Barline) : ∀ f ∈ [barline line], f.Sound :=
  List.forall_mem_singleton.2 trivial

theorem Repeat.figures_sound {r : Repeat} (h : ∀ b ∈ r.bars, Bar.Sound b) :
    ∀ f ∈ r.figures, f.Sound := by
  obtain ⟨⟨h0, h1⟩, h2⟩ := Repeat.forall_bars.1 h
  have hb0 := barFigures_sound h0
  have hb1 := barFigures_sound h1
  have hb2 := barFigures_sound h2
  unfold Repeat.figures
  dsimp only
  split_ifs
  all_goals
    simp only [List.forall_mem_append]
    simp_all [Figure.Sound]

theorem Voice.figures_sound {v : Voice} (h : ∀ b ∈ v.bars, Bar.Sound b) :
    ∀ f ∈ v.figures, f.Sound := by
  unfold Voice.figures
  split
  · exact Figure.sound_barline _
  · refine List.forall_mem_append.2 ⟨?_, ?_⟩
    · intro f hf
      obtain ⟨p, hp, hf⟩ := List.mem_flatMap.1 hf
      have hs : ∀ b ∈ p.bars, Bar.Sound b :=
        fun b hb => h b (List.mem_flatMap.2 ⟨p, hp, hb⟩)
      cases p with
      | bar b =>
        have hb := Element.figures_sound (hs b (by simp [Phrase.bars])).2
        exact List.forall_mem_append.2 ⟨hb, Figure.sound_barline _⟩ f hf
      | repeated r => exact Repeat.figures_sound hs f hf
    · split
      · exact Figure.sound_barline _
      · simp

theorem Voice.figures_ne_nil (v : Voice) : v.figures ≠ [] := by
  unfold Voice.figures
  split
  · simp
  · rename_i hne
    obtain ⟨p, ps, hp⟩ := List.exists_cons_of_ne_nil (by simpa using hne : v.phrases ≠ [])
    simp [hp, Phrase.figures_ne_nil]

namespace Element

/-- Elements as they come back from their figures: each run in the order in which the notes take
it, and lengths in lowest terms. -/
def settled : Run → List Element → List Element
  | _, [] => []
  | run, accidental pitch value :: es => settled (run ++ [(pitch, value)]) es
  | run, note n :: es =>
    (Figure.note ⟨(run.take n.pitch).1, n⟩).elements ++ settled (run.take n.pitch).2 es
  | run, rest d :: es => (Figure.rest d).elements ++ settled run es
  | run, chord notes :: es =>
    (Figure.chord (run.deal notes).1).elements ++ settled (run.deal notes).2 es
  | run, tuplet size elements notes :: es =>
    tuplet size (settled [] elements) notes :: settled run es

theorem settled_ne_nil {run : Run} {es : List Element} (h : Notated run es)
    (hne : run ≠ [] ∨ es ≠ []) : settled run es ≠ [] := by
  induction h with
  | nil => simp at hne
  | accidental h ih =>
    rw [settled]
    exact ih (Or.inl (by simp))
  | _ => simp [settled, Figure.elements]

end Element

def Bar.settled (b : Bar) : Bar :=
  Element.settled [] b

def Repeat.settled (r : Repeat) : Repeat :=
  ⟨r.normal.map Bar.settled, r.firstEnding.map Bar.settled, r.secondEnding.map Bar.settled⟩

/-- Nothing comes back of a repeat without bars. -/
def Phrase.settled? : Phrase → Option Phrase
  | bar b => some (bar b.settled)
  | repeated r => if r.isEmpty then none else some (repeated r.settled)

/-- An open repeat is written only after something else. -/
def Voice.settled (v : Voice) : Voice :=
  ⟨v.name, v.phrases.filterMap Phrase.settled?, v.repeatOpen && !v.phrases.isEmpty⟩

def Voice.extend (v : Voice) (ps : List Phrase) : Voice :=
  ⟨v.name, v.phrases ++ ps, false⟩

theorem Voice.extend_extend (v : Voice) (ps qs : List Phrase) :
    (v.extend ps).extend qs = v.extend (ps ++ qs) := by
  simp [Voice.extend]

def Tuplet.add (t : Tuplet) (es : List Element) : Tuplet :=
  ⟨t.size, t.elements ++ es, t.notes + es.countP isNote⟩

namespace Draft

/-- The figures of `fs` turn the draft into `d'`. -/
def Becomes (d : Draft) (fs : List Figure) (d' : Draft) : Prop :=
  d.writeAll (fs.flatMap Figure.strokes) = .ok d'

theorem becomes_nil (d : Draft) : d.Becomes [] d :=
  rfl

theorem Becomes.append {d d' d'' : Draft} {fs gs : List Figure} (h : d.Becomes fs d')
    (h' : d'.Becomes gs d'') : d.Becomes (fs ++ gs) d'' := by
  unfold Becomes at *
  rw [List.flatMap_append, writeAll_append, h]
  exact h'

theorem Becomes.cons {d d' d'' : Draft} {f : Figure} {fs : List Figure} (h : d.Becomes [f] d')
    (h' : d'.Becomes fs d'') : d.Becomes (f :: fs) d'' :=
  h.append h'

/-- The elements of a note, a rest or a chord come into the draft together. -/
theorem becomes_beat (d : Draft) (f : Figure) (run : Run) (last : Element) (hu : d.Unfilled)
    (hs : f.strokes = (run.elements ++ [last]).map .element) (hl : last.isTuplet = false) :
    d.Becomes [f] (d.storeHeld.add (run.elements ++ [last])) := by
  unfold Becomes
  rw [List.flatMap_singleton, hs]
  exact writeAll_add d run last hu hl

theorem becomes_note (d : Draft) (n : SignedNote) (hu : d.Unfilled) :
    d.Becomes [.note n] (d.storeHeld.add (Figure.note n).elements) :=
  becomes_beat d (.note n) (SignedNote.run [n]) _ hu rfl rfl

theorem becomes_rest (d : Draft) (l : Duration) (hu : d.Unfilled) :
    d.Becomes [.rest l] (d.storeHeld.add (Figure.rest l).elements) :=
  becomes_beat d (.rest l) [] _ hu rfl rfl

theorem becomes_chord (d : Draft) (ns : List SignedNote) (hu : d.Unfilled) :
    d.Becomes [.chord ns] (d.storeHeld.add (Figure.chord ns).elements) :=
  becomes_beat d (.chord ns) (SignedNote.run ns) _ hu rfl rfl

theorem countP_beat (run : Run) (last : Element) :
    (run.elements ++ [last]).countP isNote = if last.isNote then 1 else 0 := by
  rw [List.countP_append, countP_run, Nat.zero_add, List.countP_singleton]

theorem last_note {e : Element} {es : List Element} {n : Note}
    (h : (e :: es).getLast? = some (.note n)) :
    es = [] ∧ e = .note n ∨ es.getLast? = some (.note n) ∧ 0 < es.countP isNote := by
  cases es with
  | nil =>
    left
    exact ⟨rfl, by simpa using h⟩
  | cons f es =>
    right
    rw [List.getLast?_cons_cons] at h
    exact ⟨h, List.countP_pos_iff.2 ⟨.note n, List.mem_of_getLast? h, rfl⟩⟩

theorem unfilled_of_lt {d : Draft} {t : Tuplet} (ht : d.tuplet = some t)
    (hlt : t.notes < t.size.toNat) : d.Unfilled := by
  intro t' ht'
  obtain rfl : t = t' := Option.some.inj (ht.symm.trans ht')
  exact hlt

theorem Becomes.inside {d : Draft} {t : Tuplet} {f : Figure} {es rest : List Element}
    {fs : List Figure} {notes : Nat} (h : d.Becomes [f] (d.storeHeld.add es))
    (ht : d.tuplet = some t) (hd : d.held = none)
    (hlt : t.notes + es.countP isNote < t.size.toNat)
    (hrest : ({ d with tuplet := some (t.add es) } : Draft).Becomes fs
      { d with
        bar := d.bar ++ [.tuplet t.size ((t.add es).elements ++ rest) notes]
        tuplet := none }) :
    d.Becomes (f :: fs)
      { d with
        bar := d.bar ++ [.tuplet t.size (t.elements ++ (es ++ rest)) notes]
        tuplet := none } := by
  rw [storeHeld_of_none d hd, add_of_lt d es t ht hlt] at h
  rw [Tuplet.add, List.append_assoc] at hrest
  exact h.cons hrest

/-- What is in a tuplet is written into it, and its last note closes it. -/
theorem becomes_tuplet {run : Run} {es : List Element} (h : Notated run es) (d : Draft)
    (t : Tuplet) (ht : d.tuplet = some t) (hd : d.held = none)
    (hflat : ∀ e ∈ es, e.isTuplet = false)
    (hcount : t.notes + es.countP isNote = t.size.toNat)
    (hlast : ∃ n, es.getLast? = some (.note n)) :
    d.Becomes (figures run es)
      { d with
        bar := d.bar ++ [.tuplet t.size (t.elements ++ settled run es) t.size.toNat]
        tuplet := none } := by
  induction h generalizing d t with
  | nil =>
    obtain ⟨n, hn⟩ := hlast
    cases hn
  | accidental h ih =>
    obtain ⟨m, hm⟩ := hlast
    rcases last_note hm with ⟨-, he⟩ | ⟨hl, -⟩
    · cases he
    · rw [figures, settled]
      rw [List.countP_cons_of_neg (by simp [isNote])] at hcount
      exact ih d t ht hd (fun e he => hflat e (List.mem_cons_of_mem _ he)) hcount ⟨m, hl⟩
  | @note run n es hr hn hp h ih =>
    obtain ⟨m, hm⟩ := hlast
    rw [figures, settled, Run.take_left hr hn.natural hp]
    rw [List.countP_cons_of_pos (by simp [isNote])] at hcount
    have hu : d.Unfilled := unfilled_of_lt ht (by omega)
    have hb := becomes_note d ⟨(run.take n.pitch).1, n⟩ hu
    have hc : (Figure.note ⟨(run.take n.pitch).1, n⟩).elements.countP isNote = 1 :=
      countP_beat _ _
    rcases last_note hm with ⟨rfl, -⟩ | ⟨hl, hpos⟩
    · -- the last note fills the tuplet
      rw [List.countP_nil] at hcount
      rw [storeHeld_of_none d hd, add_of_le d _ t ht (by omega), hc] at hb
      rw [figures, settled, List.append_nil, ← hcount]
      exact hb
    · refine hb.inside ht hd (by omega) ?_
      refine ih { d with tuplet := some (t.add _) } (t.add _) rfl hd
        (fun e he => hflat e (List.mem_cons_of_mem _ he)) ?_ ⟨m, hl⟩
      rw [Tuplet.add, hc]
      dsimp only
      omega
  | @rest l es hl h ih =>
    obtain ⟨m, hm⟩ := hlast
    rcases last_note hm with ⟨-, he⟩ | ⟨hl, hpos⟩
    · cases he
    · rw [figures, settled]
      rw [List.countP_cons_of_neg (by simp [isNote])] at hcount
      have hb := becomes_rest d l (unfilled_of_lt ht (by omega))
      refine hb.inside ht hd (show t.notes + 0 < _ by omega) ?_
      exact ih { d with tuplet := some (t.add _) } (t.add _) rfl hd
        (fun e he => hflat e (List.mem_cons_of_mem _ he)) hcount ⟨m, hl⟩
  | @chord run notes es hr hne hn hp h ih =>
    obtain ⟨m, hm⟩ := hlast
    rcases last_note hm with ⟨-, he⟩ | ⟨hl, hpos⟩
    · cases he
    · rw [figures, settled, Run.deal_left hr hn hp]
      rw [List.countP_cons_of_neg (by simp [isNote])] at hcount
      have hb := becomes_chord d (run.deal notes).1 (unfilled_of_lt ht (by omega))
      have hc : (Figure.chord (run.deal notes).1).elements.countP isNote = 0 := countP_beat _ _
      refine hb.inside ht hd (by omega) ?_
      refine ih { d with tuplet := some (t.add _) } (t.add _) rfl hd
        (fun e he => hflat e (List.mem_cons_of_mem _ he)) ?_ ⟨m, hl⟩
      rw [Tuplet.add, hc]
      exact hcount
  | tuplet hf hi h ihInner ih => exact absurd (hflat _ List.mem_cons_self) (by simp [isTuplet])

theorem becomes_mark (d : Draft) (size : UInt32) (ht : d.tuplet = none) :
    d.Becomes [.mark size] (d.storeHeld.mark size) := by
  have h := element_mark d size ht
  unfold Becomes
  rw [← h]
  exact writeAll_single d _

/-- A tuplet is opened by its mark and closed by its last note. -/
theorem becomes_filled {size : UInt32} {elements : List Element} {notes : Nat}
    (hf : Filled size elements notes) (hi : Notated [] elements) (d : Draft)
    (ht : d.tuplet = none) (hd : d.held = none) :
    d.Becomes (.mark size :: figures [] elements)
      { d with bar := d.bar ++ [.tuplet size (settled [] elements) notes] } := by
  have hm := becomes_mark d size ht
  rw [storeHeld_of_none d hd, mark] at hm
  rw [hf.notes_eq]
  by_cases h0 : size = 0
  · rw [hf.empty h0, figures, settled]
    rw [if_pos h0] at hm
    subst h0
    exact hm
  · rw [if_neg h0] at hm
    have hrest := becomes_tuplet hi { d with tuplet := some (.empty size) } (.empty size) rfl hd
      hf.flat (by rw [hf.count_eq]; exact Nat.zero_add _) (hf.last h0)
    rw [← ht] at hrest
    exact hm.cons hrest

theorem becomes_bar {run : Run} {es : List Element} (h : Notated run es) (d : Draft)
    (ht : d.tuplet = none) (hd : d.held = none) :
    d.Becomes (figures run es) { d with bar := d.bar ++ settled run es } := by
  have hu : d.Unfilled := by
    intro t htt
    rw [ht] at htt
    cases htt
  induction h generalizing d with
  | nil =>
    rw [figures, settled, List.append_nil]
    exact becomes_nil d
  | accidental h ih =>
    rw [figures, settled]
    exact ih d ht hd hu
  | @note run n es hr hn hp h ih =>
    rw [figures, settled, Run.take_left hr hn.natural hp, ← List.append_assoc]
    have hb := becomes_note d ⟨(run.take n.pitch).1, n⟩ hu
    rw [storeHeld_of_none d hd, add_of_none d _ ht] at hb
    exact hb.cons (ih _ ht hd hu)
  | @rest l es hl h ih =>
    rw [figures, settled, ← List.append_assoc]
    have hb := becomes_rest d l hu
    rw [storeHeld_of_none d hd, add_of_none d _ ht] at hb
    exact hb.cons (ih _ ht hd hu)
  | @chord run notes es hr hne hn hp h ih =>
    rw [figures, settled, Run.deal_left hr hn hp, ← List.append_assoc]
    have hb := becomes_chord d (run.deal notes).1 hu
    rw [storeHeld_of_none d hd, add_of_none d _ ht] at hb
    exact hb.cons (ih _ ht hd hu)
  | @tuplet size elements notes es hf hi h ihInner ih =>
    rw [figures, settled, List.append_cons]
    exact (becomes_filled hf hi d ht hd).append (ih _ ht hd hu)

def between (v : Voice) (place : Section) (pending : Repeat) : Draft :=
  ⟨v, place, [], none, pending, none⟩

/-- A draft after a first ending, for which a second may follow. -/
def holding (v : Voice) (r : Repeat) : Draft :=
  { between v .normal .empty with held := some r }

/-- Closing the bar of `d` gives `e`, and nothing else is left open. -/
structure Closes (d e : Draft) : Prop where
  tuplet : d.tuplet = none
  held : d.held = none
  closed : d.closed = e

theorem closes_between (v : Voice) (place : Section) (pending : Repeat) :
    Closes (between v place pending) (between v place pending) :=
  ⟨rfl, rfl, rfl⟩

theorem Closes.barline {d d' e : Draft} {line : Barline} (h : Closes d e)
    (ht : e.turn line = .ok d') : d.Becomes [.barline line] d' := by
  unfold Becomes
  rw [← ht, ← h.closed]
  refine (writeAll_single d _).trans ?_
  refine (barline_eq d line h.tuplet).trans ?_
  rw [storeHeld_of_none d h.held]

theorem closed_place (d : Draft) : d.closed.place = d.place := by
  unfold closed
  split <;> rfl

theorem Closes.firstEnding {d : Draft} {v : Voice} {place : Section} {pending : Repeat}
    (h : Closes d (between v place pending)) (hp : place = .normal ∨ place = .repeated) :
    d.Becomes [.ending .first] (between v .firstEnding pending) := by
  have hplace : d.place = place := by rw [← closed_place, h.closed]; rfl
  have he := ending_first_eq d h.tuplet (by rwa [hplace])
  rw [storeHeld_of_none d h.held, h.closed] at he
  unfold Becomes
  exact (writeAll_single d _).trans he

def addBars (r : Repeat) (place : Section) (bs : List Bar) : Repeat :=
  match place with
  | .normal | .repeated => { r with normal := r.normal ++ bs }
  | .firstEnding => { r with firstEnding := r.firstEnding ++ bs }
  | .secondEnding => { r with secondEnding := r.secondEnding ++ bs }

theorem addBars_nil (r : Repeat) (place : Section) : addBars r place [] = r := by
  cases place <;> simp [addBars]

theorem addBars_cons (r : Repeat) (place : Section) (b : Bar) (bs : List Bar) :
    addBars r place (b :: bs) = addBars (addBar r place b) place bs := by
  cases place <;> simp [addBars, addBar]

theorem turn_single (v : Voice) (place : Section) (pending : Repeat) :
    (between v place pending).turn .single = .ok (between v place pending) := by
  cases place <;> rfl

theorem closes_bar {b : Bar} (h : Bar.Sound b) (v : Voice) (place : Section) (pending : Repeat) :
    ∃ d, (between v place pending).Becomes (figures [] b) d ∧
      Closes d (between v place (addBar pending place b.settled)) := by
  refine ⟨_, becomes_bar h.2 (between v place pending) rfl rfl, rfl, rfl, ?_⟩
  have hne : settled [] b ≠ [] := settled_ne_nil h.2 (Or.inr h.1)
  unfold closed
  rw [if_neg (by simpa [between] using hne)]
  rfl

/-- Bars are added one after the other; the last of them is still to be closed. -/
theorem closes_bars {bs : List Bar} (h : ∀ b ∈ bs, Bar.Sound b) (v : Voice) (place : Section)
    (pending : Repeat) :
    ∃ d, (between v place pending).Becomes (barFigures bs) d ∧
      Closes d (between v place (addBars pending place (bs.map Bar.settled))) := by
  fun_induction barFigures bs generalizing pending with
  | case1 =>
    rw [List.map_nil, addBars_nil]
    exact ⟨_, becomes_nil _, closes_between v place pending⟩
  | case2 b =>
    rw [List.map_singleton, addBars_cons, addBars_nil]
    exact closes_bar (h b (by simp)) v place pending
  | case3 b bs hbs ih =>
    obtain ⟨d, hd, hc⟩ := closes_bar (h b List.mem_cons_self) v place pending
    obtain ⟨d', hd', hc'⟩ := ih (fun c hc => h c (List.mem_cons_of_mem _ hc))
      (addBar pending place b.settled)
    have hline := hc.barline (turn_single v place _)
    rw [List.map_cons, addBars_cons]
    exact ⟨d', hd.append (hline.cons hd'), hc'⟩

/-- The draft is between two phrases, and `v` is what it would be if it ended there. -/
structure Resting (d : Draft) (v : Voice) : Prop where
  place : d.place = .normal
  bar : d.bar = []
  tuplet : d.tuplet = none
  endings : d.pending.firstEnding = [] ∧ d.pending.secondEnding = []
  repeatOpen : v.repeatOpen = false
  voice : d.storeHeld.storePlain.voice = v

theorem resting_empty (name : Option String) : (empty name).Resting (.empty name) :=
  ⟨rfl, rfl, rfl, ⟨rfl, rfl⟩, rfl, rfl⟩

theorem Resting.closed {d : Draft} {v : Voice} (h : d.Resting v) :
    d.storeHeld.closed = d.storeHeld := by
  unfold Draft.closed
  rw [if_pos (by rw [storeHeld_bar, h.bar]; rfl)]

theorem Resting.finish {d : Draft} {v : Voice} (h : d.Resting v) : d.finish = .ok v := by
  rw [finish_eq d h.tuplet, finished, h.closed, storeHeld_place, h.place]
  exact congrArg _ h.voice

theorem Resting.becomes_barline {d d' : Draft} {v : Voice} {line : Barline} (h : d.Resting v)
    (ht : d.storeHeld.turn line = .ok d') : d.Becomes [.barline line] d' := by
  unfold Becomes
  refine (writeAll_single d _).trans ?_
  refine (barline_eq d line h.tuplet).trans ?_
  rw [h.closed, ht]

theorem Resting.storeHeld {d : Draft} {v : Voice} (h : d.Resting v) : d.storeHeld.Resting v := by
  refine ⟨?_, ?_, ?_, ?_, h.repeatOpen, ?_⟩
  · rw [storeHeld_place, h.place]
  · rw [storeHeld_bar, h.bar]
  · rw [storeHeld_tuplet, h.tuplet]
  · rw [storeHeld_pending]
    exact h.endings
  · rw [storeHeld_of_none d.storeHeld (storeHeld_held d)]
    exact h.voice

theorem Resting.single {d : Draft} {v : Voice} (h : d.Resting v) :
    ∃ d', d.Becomes [.barline .single] d' ∧ d'.Resting v := by
  refine ⟨d.storeHeld, h.becomes_barline ?_, h.storeHeld⟩
  unfold turn
  rw [h.storeHeld.place]

theorem Resting.repeatStart {d : Draft} {v : Voice} (h : d.Resting v) :
    d.Becomes [.barline .repeatStart]
      (between { v with repeatOpen := true } .repeated .empty) := by
  refine h.becomes_barline ?_
  unfold turn
  rw [h.storeHeld.place]
  dsimp only
  rw [← h.voice]
  unfold openRepeat between storePlain
  rw [storeHeld_bar, h.bar, storeHeld_tuplet, h.tuplet, storeHeld_held]

theorem element_storeHeld (d : Draft) (e : Element) : d.storeHeld.element e = d.element e := by
  unfold element
  rw [storeHeld_of_none d.storeHeld (storeHeld_held d)]

/-- The first element of a bar stores a repeat that was held. -/
theorem Becomes.of_storeHeld {d d' : Draft} {f : Figure} {fs : List Figure}
    (hf : f.hasElements = true) (h : d.storeHeld.Becomes (f :: fs) d') :
    d.Becomes (f :: fs) d' := by
  have hne : f.elements ≠ [] := by
    cases f <;> simp_all [Figure.elements, Figure.hasElements]
  obtain ⟨e, es, he⟩ := List.exists_cons_of_ne_nil hne
  have hs : f.strokes = .element e :: es.map .element := by
    rw [Figure.strokes_eq f hf, he, List.map_cons]
  unfold Becomes at h ⊢
  rw [List.flatMap_cons, hs, List.cons_append] at h ⊢
  rw [← h]
  change (d.element e >>= fun d => d.writeAll _) = (d.storeHeld.element e >>= fun d => d.writeAll _)
  rw [element_storeHeld]

theorem figures_head {run : Run} {es : List Element} (h : Notated run es)
    (hne : run ≠ [] ∨ es ≠ []) : ∃ f fs, figures run es = f :: fs ∧ f.hasElements = true := by
  induction h with
  | nil => simp at hne
  | accidental h ih =>
    rw [figures]
    exact ih (Or.inl (by simp))
  | note =>
    rw [figures]
    exact ⟨_, _, rfl, rfl⟩
  | rest =>
    rw [figures]
    exact ⟨_, _, rfl, rfl⟩
  | chord =>
    rw [figures]
    exact ⟨_, _, rfl, rfl⟩
  | tuplet =>
    rw [figures]
    exact ⟨_, _, rfl, rfl⟩

theorem Resting.eq_between {d : Draft} {v : Voice} (h : d.Resting v) :
    d.storeHeld = between d.storeHeld.voice .normal ⟨d.pending.normal, [], []⟩ := by
  have hs := h.storeHeld
  have hp : d.storeHeld.pending = ⟨d.pending.normal, [], []⟩ := by
    rw [storeHeld_pending]
    exact congr (congrArg (Repeat.mk _) h.endings.1) h.endings.2
  unfold between
  rw [← hp, ← hs.bar, ← hs.place, ← hs.tuplet, ← storeHeld_held d]

theorem Resting.bar_single {d : Draft} {v : Voice} {b : Bar} (h : d.Resting v)
    (hb : Bar.Sound b) :
    ∃ d', d.Becomes (Phrase.bar b).figures d' ∧ d'.Resting (v.extend [.bar b.settled]) := by
  obtain ⟨f, fs, hf, he⟩ := figures_head hb.2 (Or.inr hb.1)
  obtain ⟨d1, hd1, hc1⟩ :=
    closes_bar hb d.storeHeld.voice .normal ⟨d.pending.normal, [], []⟩
  rw [← h.eq_between, hf] at hd1
  have hbar : d.Becomes (figures [] b) d1 := by
    rw [hf]
    exact hd1.of_storeHeld he
  refine ⟨_, hbar.append (hc1.barline (turn_single _ _ _)), rfl, rfl, rfl, ⟨rfl, rfl⟩, rfl, ?_⟩
  have hopen : d.storeHeld.voice.repeatOpen = false := by
    rw [← h.repeatOpen, ← h.voice]
    rfl
  rw [storeHeld_of_none _ rfl, ← h.voice]
  simp [between, storePlain, addBar, Voice.extend, hopen]

theorem resting_between (v : Voice) (ps : List Phrase) :
    (between (v.extend ps) .normal .empty).Resting (v.extend ps) := by
  refine ⟨rfl, rfl, rfl, ⟨rfl, rfl⟩, rfl, ?_⟩
  rw [storeHeld_of_none _ rfl]
  simp [between, storePlain, Repeat.empty]

theorem storeRepeat_between (v : Voice) (isOpen : Bool) (place : Section) (r : Repeat) :
    (between { v with repeatOpen := isOpen } place r).storeRepeat =
      between (v.extend (if r.isEmpty then [] else [.repeated r])) .normal .empty := by
  unfold storeRepeat between Voice.extend
  dsimp only
  split <;> simp [Voice.push]

theorem Resting.repeated_plain {d : Draft} {v : Voice} {bs : List Bar} (h : d.Resting v)
    (hb : ∀ b ∈ bs, Bar.Sound b) :
    ∃ d', d.Becomes ([.barline .repeatStart] ++ barFigures bs ++ [.barline .repeatEnd]) d' ∧
      d'.Resting (v.extend (if bs.isEmpty then [] else
        [.repeated ⟨bs.map Bar.settled, [], []⟩])) := by
  obtain ⟨d1, hd1, hc1⟩ := closes_bars hb { v with repeatOpen := true } .repeated .empty
  refine ⟨_, (h.repeatStart.append hd1).append (hc1.barline rfl), ?_⟩
  rw [storeRepeat_between]
  have hr : addBars .empty .repeated (bs.map Bar.settled) = ⟨bs.map Bar.settled, [], []⟩ := rfl
  have he : Repeat.isEmpty ⟨bs.map Bar.settled, [], []⟩ = bs.isEmpty := by
    simp [Repeat.isEmpty]
  rw [hr, he]
  exact resting_between v _

theorem Resting.firstEnding {d : Draft} {v : Voice} {r : Repeat} (h : d.Resting v)
    (h0 : ∀ b ∈ r.normal, Bar.Sound b) (h1 : ∀ b ∈ r.firstEnding, Bar.Sound b) :
    d.Becomes ([.barline .repeatStart] ++ barFigures r.normal ++ [.ending .first] ++
        barFigures r.firstEnding ++ [.barline .repeatEnd])
      (holding (v.extend []) { r.settled with secondEnding := [] }) := by
  let v' : Voice := { v with repeatOpen := true }
  obtain ⟨d1, hd1, hc1⟩ := closes_bars h0 v' .repeated .empty
  obtain ⟨d2, hd2, hc2⟩ := closes_bars h1 v' .firstEnding ⟨r.normal.map Bar.settled, [], []⟩
  have he := hc1.firstEnding (Or.inr rfl)
  have hline : d2.Becomes [.barline .repeatEnd] _ := hc2.barline rfl
  have hall := (((h.repeatStart.append hd1).append he).append hd2).append hline
  unfold holdRepeat between at hall
  simpa [v', addBars, Voice.extend, holding, between, Repeat.settled] using hall

theorem resting_held (v : Voice) (r : Repeat) :
    (holding (v.extend []) r).Resting (v.extend [.repeated r]) := by
  refine ⟨rfl, rfl, rfl, ⟨rfl, rfl⟩, rfl, ?_⟩
  simp [holding, between, Draft.storeHeld, storePlain, Voice.push, Voice.extend, Repeat.empty]

theorem becomes_secondEnding (v : Voice) {r : Repeat} (hne : r.secondEnding ≠ [])
    (h2 : ∀ b ∈ r.secondEnding, Bar.Sound b) :
    ∃ d', (holding (v.extend []) { r.settled with secondEnding := [] }).Becomes
        ([.ending .second] ++ barFigures r.secondEnding ++ [.barline .double]) d' ∧
      d'.Resting (v.extend [.repeated r.settled]) := by
  let held : Repeat := { r.settled with secondEnding := [] }
  let start := holding (v.extend []) held
  obtain ⟨d1, hd1, hc1⟩ := closes_bars h2 (v.extend []) .secondEnding held
  have he : start.Becomes [.ending .second] (between (v.extend []) .secondEnding held) :=
    (writeAll_single start _).trans (ending_second_eq start held rfl rfl)
  have hline : d1.Becomes [.barline .double] _ := hc1.barline rfl
  refine ⟨_, (he.append hd1).append hline, ?_⟩
  have hr : addBars held .secondEnding (r.secondEnding.map Bar.settled) = r.settled := rfl
  have hempty : r.settled.isEmpty = false := by
    simp [Repeat.isEmpty, Repeat.settled, hne]
  have hs := storeRepeat_between v false .secondEnding r.settled
  rw [hempty, if_neg Bool.false_ne_true] at hs
  rw [hr, Voice.extend, List.append_nil, hs]
  exact resting_between v _

theorem Resting.repeated {d : Draft} {v : Voice} {r : Repeat} (h : d.Resting v)
    (hr : ∀ b ∈ r.bars, Bar.Sound b) :
    ∃ d', d.Becomes r.figures d' ∧
      d'.Resting (v.extend (Phrase.repeated r).settled?.toList) := by
  obtain ⟨⟨h0, h1⟩, h2⟩ := Repeat.forall_bars.1 hr
  have hfirst := h.firstEnding h0 h1
  unfold Repeat.figures
  simp only [Phrase.settled?]
  by_cases hs : r.secondEnding = []
  · have hset : r.settled = { r.settled with secondEnding := [] } := by
      simp [Repeat.settled, hs]
    by_cases hf : r.firstEnding = []
    · obtain ⟨d', hd', hrest⟩ := h.repeated_plain h0
      have he : r.isEmpty = r.normal.isEmpty := by simp [Repeat.isEmpty, hs, hf]
      have hplain : r.settled = ⟨r.normal.map Bar.settled, [], []⟩ := by
        simp [Repeat.settled, hs, hf]
      refine ⟨d', by simpa [hs, hf] using hd', ?_⟩
      rw [he, hplain]
      cases hn : r.normal.isEmpty <;> simpa [hn] using hrest
    · have he : r.isEmpty = false := by simp [Repeat.isEmpty, hf]
      refine ⟨_, by simpa [hs, hf] using hfirst, ?_⟩
      rw [he, if_neg Bool.false_ne_true, hset]
      exact resting_held v _
  · obtain ⟨d', hd', hrest⟩ := becomes_secondEnding v hs h2
    have he : r.isEmpty = false := by simp [Repeat.isEmpty, hs]
    refine ⟨d', by simpa [hs] using hfirst.append hd', ?_⟩
    rw [he, if_neg Bool.false_ne_true]
    exact hrest

/-- Phrases come back one by one. -/
theorem Resting.phrases {d : Draft} {v : Voice} {ps : List Phrase} (h : d.Resting v)
    (hp : ∀ b ∈ ps.flatMap Phrase.bars, Bar.Sound b) :
    ∃ d', d.Becomes (ps.flatMap Phrase.figures) d' ∧
      d'.Resting (v.extend (ps.filterMap Phrase.settled?)) := by
  induction ps generalizing d v with
  | nil =>
    have hv : v.extend [] = v := by
      unfold Voice.extend
      rw [List.append_nil, ← h.repeatOpen]
    refine ⟨d, becomes_nil d, ?_⟩
    rw [List.filterMap_nil, hv]
    exact h
  | cons p ps ih =>
    rw [List.flatMap_cons] at hp
    obtain ⟨h1, h2⟩ := List.forall_mem_append.1 hp
    have hstep : ∃ d', d.Becomes p.figures d' ∧ d'.Resting (v.extend p.settled?.toList) := by
      cases p with
      | bar b => exact h.bar_single (h1 b (by simp [Phrase.bars]))
      | repeated r => exact h.repeated h1
    obtain ⟨d1, hd1, hr1⟩ := hstep
    obtain ⟨d2, hd2, hr2⟩ := ih hr1 h2
    refine ⟨d2, hd1.append hd2, ?_⟩
    rw [Voice.extend_extend] at hr2
    cases hs : p.settled? <;> simpa [hs] using hr2

theorem becomes_voice {v : Voice} (h : ∀ b ∈ v.bars, Bar.Sound b) :
    ∃ d, (empty v.name).Becomes v.figures d ∧ d.finish = .ok v.settled := by
  have hstart := resting_empty v.name
  unfold Voice.figures Voice.settled
  by_cases hp : v.phrases = []
  · obtain ⟨d, hd, hr⟩ := hstart.single
    refine ⟨d, by simpa [hp] using hd, ?_⟩
    rw [hr.finish, hp]
    simp [Voice.empty]
  · obtain ⟨d, hd, hr⟩ := hstart.phrases h
    cases ho : v.repeatOpen with
    | false =>
      refine ⟨d, by simpa [hp] using hd, ?_⟩
      rw [hr.finish]
      simp [Voice.extend, Voice.empty]
    | true =>
      refine ⟨_, by simpa [hp] using hd.append hr.repeatStart, ?_⟩
      rw [finish_eq _ rfl]
      simp [finished, between, Draft.storeHeld, closed, storePlain, Voice.extend, Voice.empty,
        Repeat.empty, hp]

end Draft

end Tunebook
