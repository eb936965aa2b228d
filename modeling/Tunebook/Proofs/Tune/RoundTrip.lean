import Mathlib.Data.List.Basic
import Tunebook.Proofs.Tune.Canonical
import Tunebook.Tune.Alike

namespace Tunebook

open Element

/-- Each note finds its accidental at the head of the run, or none in it. -/
def Run.InTurn : Run → List Note → Prop
  | run, [] => run = []
  | run, n :: notes =>
    (∃ value left, run = (n.pitch, value) :: left ∧ Run.InTurn left notes) ∨
      n.pitch ∉ run.pitches ∧ Run.InTurn run notes

namespace Element

/-- Every chord finds the accidentals before it in the order of its notes. -/
def InTurn : Run → List Element → Prop
  | _, [] => True
  | run, accidental pitch value :: es => InTurn (run ++ [(pitch, value)]) es
  | run, chord notes :: es => run.InTurn notes ∧ InTurn [] es
  | _, tuplet _ elements _ :: es => InTurn [] elements ∧ InTurn [] es
  | _, note _ :: es => InTurn [] es
  | _, rest _ :: es => InTurn [] es

def notes : List Element → List Note
  | [] => []
  | accidental _ _ :: es => notes es
  | note n :: es => n :: notes es
  | rest _ :: es => notes es
  | chord ns :: es => ns ++ notes es
  | tuplet _ elements _ :: es => notes elements ++ notes es

end Element

/-- What canonical text can tell of a voice. -/
structure Voice.Rereadable (v : Voice) : Prop where
  octaves : ∀ b ∈ v.bars, ∀ n ∈ Element.notes b, n.pitch.octave ≠ -128
  runs : ∀ b ∈ v.bars, Element.InTurn [] b
  repeats : ∀ r, .repeated r ∈ v.phrases → r.isEmpty = false
  opened : v.repeatOpen = true → v.phrases ≠ []

theorem Element.notes_figures (run : Run) (es : List Element) :
    (figures run es).flatMap Figure.notes = notes es := by
  fun_induction figures run es with
  | case1 => rw [notes, List.flatMap_nil]
  | case2 run pitch value es ih => rw [ih, notes]
  | case3 run n es ih => simp [ih, notes, Figure.notes]
  | case4 run d es ih => simp [ih, notes, Figure.notes]
  | case5 run ns es ih => simp [ih, notes, Figure.notes, Run.deal_notes]
  | case6 run size elements n es ihInner ih => simp [ihInner, ih, notes, Figure.notes]

theorem notes_barFigures (bs : List Bar) :
    (barFigures bs).flatMap Figure.notes = bs.flatMap Element.notes := by
  fun_induction barFigures bs with
  | case1 => rfl
  | case2 b => rw [Element.notes_figures, List.flatMap_singleton]
  | case3 b bs _ ih =>
    rw [List.flatMap_append, List.flatMap_cons, ih, Element.notes_figures, List.flatMap_cons]
    rfl

theorem Phrase.notes_figures (p : Phrase) :
    p.figures.flatMap Figure.notes = p.bars.flatMap Element.notes := by
  cases p with
  | bar b =>
    rw [Phrase.figures, List.flatMap_append, Element.notes_figures, Phrase.bars,
      List.flatMap_singleton]
    simp [Figure.notes]
  | repeated r =>
    obtain ⟨normal, first, second⟩ := r
    have hn := notes_barFigures normal
    have hf := notes_barFigures first
    have hs := notes_barFigures second
    rw [Phrase.figures, Repeat.figures, Phrase.bars, Repeat.bars]
    cases first <;> cases second <;>
      simp_all [Figure.notes, List.flatMap_append]

theorem Voice.notes_figures (v : Voice) :
    v.figures.flatMap Figure.notes = v.bars.flatMap Element.notes := by
  have hp : (v.phrases.flatMap Phrase.figures).flatMap Figure.notes =
      v.bars.flatMap Element.notes := by
    rw [Voice.bars, List.flatMap_assoc, List.flatMap_assoc]
    exact List.flatMap_congr fun p _ => p.notes_figures
  rw [Voice.figures]
  split
  · rename_i h
    rw [Voice.bars, List.isEmpty_iff.1 h]
    rfl
  · rw [List.flatMap_append, hp]
    split <;> simp [Figure.notes]

namespace Run

theorem take_of_not_mem {run : Run} {pitch : Pitch} (hs : run.Sound) (hp : pitch.accidental = 0)
    (h : pitch ∉ run.pitches) : run.take pitch = (none, run) := by
  induction run with
  | nil => rfl
  | cons a run ih =>
    rw [Run.pitches, List.map_cons, List.mem_cons, not_or] at h
    have hne : ¬a.1.alike pitch = true := fun he =>
      h.1 ((Pitch.alike_iff_eq (hs a List.mem_cons_self).natural hp).1 he).symm
    have hi := ih (fun b hb => hs b (List.mem_cons_of_mem _ hb)) h.2
    rw [Run.take, if_neg hne, hi]

theorem take_of_mem {run : Run} {pitch : Pitch} (hs : run.Sound) (hp : pitch.accidental = 0)
    (h : pitch ∈ run.pitches) : ∃ value, (run.take pitch).1 = some value := by
  induction run with
  | nil => cases h
  | cons a run ih =>
    unfold Run.take
    split
    · exact ⟨a.2, rfl⟩
    · rename_i hne
      rw [Run.pitches, List.map_cons, List.mem_cons] at h
      rcases h with rfl | h
      · exact absurd ((Pitch.alike_iff_eq hp hp).2 rfl) hne
      · exact ih (fun b hb => hs b (List.mem_cons_of_mem _ hb)) h

theorem take_head {run : Run} {pitch : Pitch} (value : Int8) (hp : pitch.accidental = 0) :
    Run.take pitch ((pitch, value) :: run) = (some value, run) := by
  rw [Run.take, if_pos ((Pitch.alike_iff_eq hp hp).2 rfl)]

theorem take_eq {run : Run} {n : Note} (hp : n.pitch.accidental = 0)
    (h : run.pitches = [] ∨ run.pitches = [n.pitch]) :
    SignedNote.run [⟨(run.take n.pitch).1, n⟩] = run := by
  rcases h with h | h
  · obtain rfl := List.map_eq_nil_iff.1 h
    rfl
  · obtain ⟨⟨pitch, value⟩, rfl, rfl⟩ := List.map_eq_singleton_iff.1 h
    rw [take_head value hp]
    rfl

theorem length_take (pitch : Pitch) (run : Run) :
    (run.take pitch).1.toList.length + (run.take pitch).2.length = run.length := by
  induction run with
  | nil => rfl
  | cons a run ih =>
    unfold Run.take
    split
    · simp [Nat.add_comm]
    · simp only [List.length_cons]
      omega

theorem length_deal (run : Run) (notes : List Note) :
    (SignedNote.run (run.deal notes).1).length + (run.deal notes).2.length = run.length := by
  induction notes generalizing run with
  | nil => simp [Run.deal, SignedNote.run]
  | cons n notes ih =>
    have ht := run.length_take n.pitch
    have hd := ih (run.take n.pitch).2
    rw [Run.deal]
    cases hv : (run.take n.pitch).1 with
    | none =>
      rw [hv] at ht
      simp_all [SignedNote.run]
    | some value =>
      rw [hv] at ht
      simp only [SignedNote.run, List.filterMap_cons, Option.map_some, List.length_cons,
        Option.toList_some, List.length_nil] at hd ht ⊢
      omega

/-- The accidentals come in the order of their notes exactly if dealing them changes nothing. -/
theorem deal_eq_iff {run : Run} {notes : List Note} (hs : run.Sound) (hn : ∀ n ∈ notes, n.Sound)
    (h : run.pitches.Sublist (notes.map Note.pitch)) :
    SignedNote.run (run.deal notes).1 = run ↔ run.InTurn notes := by
  induction notes generalizing run with
  | nil =>
    obtain rfl := List.map_eq_nil_iff.1 (List.sublist_nil.1 h)
    simp [Run.deal, SignedNote.run, Run.InTurn]
  | cons n notes ih =>
    have hp := (hn n List.mem_cons_self).natural
    have hr := ih (Run.take_signs n.pitch hs) (fun m hm => hn m (List.mem_cons_of_mem _ hm))
      (Run.take_left_sublist hs hp h)
    rw [Run.deal, Run.InTurn]
    by_cases hm : n.pitch ∈ run.pitches
    · obtain ⟨value, hv⟩ := take_of_mem hs hp hm
      have hrun : SignedNote.run
            (⟨(run.take n.pitch).1, n⟩ :: ((run.take n.pitch).2.deal notes).1) =
          (n.pitch, value) :: SignedNote.run ((run.take n.pitch).2.deal notes).1 := by
        rw [SignedNote.run, List.filterMap_cons, hv]
        rfl
      rw [hrun]
      constructor
      · -- what is dealt first has the pitch of the note, so it is the head of the run
        intro he
        cases run with
        | nil => cases hm
        | cons a left =>
          obtain ⟨rfl, hleft⟩ := List.cons.inj he
          rw [take_head value hp] at hr hleft
          exact Or.inl ⟨value, left, rfl, hr.1 hleft⟩
      · rintro (⟨value', left, rfl, hleft⟩ | ⟨hne, -⟩)
        · rw [take_head value' hp] at hv hr ⊢
          obtain rfl := Option.some.inj hv
          rw [hr.2 hleft]
        · exact absurd hm hne
    · have ht := take_of_not_mem hs hp hm
      have hrun : SignedNote.run (⟨none, n⟩ :: (run.deal notes).1) =
          SignedNote.run (run.deal notes).1 := rfl
      rw [ht] at hr ⊢
      rw [hrun, hr]
      constructor
      · exact fun ht => Or.inr ⟨hm, ht⟩
      · rintro (⟨value, left, rfl, -⟩ | ⟨-, ht⟩)
        · exact absurd List.mem_cons_self hm
        · exact ht

end Run

theorem Note.alike_reduced (n : Note) : n.alike n.reduced = true := by
  simp [Note.alike, Note.reduced, Pitch.alike, Duration.alike_reduced]

theorem alikeLists_map_iff {α : Type} (alike : α → α → Bool) (f : α → α) (as : List α) :
    alikeLists alike as (as.map f) = true ↔ ∀ a ∈ as, alike a (f a) = true := by
  induction as with
  | nil => simp [alikeLists]
  | cons a as ih => rw [List.map_cons, alikeLists, Bool.and_eq_true, ih, List.forall_mem_cons]

theorem alikeLists_length {α : Type} {alike : α → α → Bool} {as bs : List α}
    (h : alikeLists alike as bs = true) : as.length = bs.length := by
  fun_induction alikeLists alike as bs with
  | case1 => rfl
  | case2 a as b bs ih =>
    rw [Bool.and_eq_true] at h
    rw [List.length_cons, List.length_cons, ih h.2]
  | case3 => cases h

/-- A list is like what is left of it only if nothing is left out. -/
theorem alikeLists_filterMap_iff {α : Type} (alike : α → α → Bool) (f : α → Option α)
    (as : List α) :
    alikeLists alike as (as.filterMap f) = true ↔
      ∀ a ∈ as, ∃ b, f a = some b ∧ alike a b = true := by
  induction as with
  | nil => simp [alikeLists]
  | cons a as ih =>
    cases hf : f a with
    | none =>
      have hlen := List.length_filterMap_le f as
      rw [List.filterMap_cons_none hf]
      constructor
      · intro h
        have := alikeLists_length h
        rw [List.length_cons] at this
        omega
      · intro h
        obtain ⟨b, hb, -⟩ := h a List.mem_cons_self
        rw [hf] at hb
        cases hb
    | some b =>
      rw [List.filterMap_cons_some hf, alikeLists, Bool.and_eq_true, ih, List.forall_mem_cons, hf]
      simp

namespace Element

theorem alikeAll_append {as bs : List Element} (cs ds : List Element)
    (h : as.length = bs.length) :
    alikeAll (as ++ cs) (bs ++ ds) = (alikeAll as bs && alikeAll cs ds) := by
  induction as generalizing bs with
  | nil =>
    obtain rfl := List.length_eq_zero_iff.1 h.symm
    simp [alikeAll]
  | cons a as ih =>
    cases bs with
    | nil => cases h
    | cons b bs =>
      rw [List.cons_append, List.cons_append, alikeAll, alikeAll, ih (Nat.succ.inj h),
        Bool.and_assoc]

theorem alikeAll_run_iff {run run' : Run} (h : ∀ a ∈ run, a.1.accidental = 0)
    (h' : ∀ a ∈ run', a.1.accidental = 0) :
    alikeAll run.elements run'.elements = true ↔ run = run' := by
  induction run generalizing run' with
  | nil => cases run' <;> simp [Run.elements, alikeAll]
  | cons a run ih =>
    cases run' with
    | nil => simp [Run.elements, alikeAll]
    | cons b run' =>
      rw [List.forall_mem_cons] at h h'
      have hi := ih h.2 h'.2
      simp only [Run.elements, List.map_cons, alikeAll, alike, Bool.and_eq_true, beq_iff_eq,
        Pitch.alike_iff_eq h.1 h'.1] at hi ⊢
      rw [hi, List.cons.injEq, Prod.ext_iff]

/-- A note or chord comes back with its accidentals, like what they were if in the same order. -/
theorem alikeAll_beat_iff {run : Run} {ns : List SignedNote} {e e' : Element}
    {es fs : List Element} (hr : run.Sound) (hn : ∀ n ∈ ns, n.Sound)
    (hlen : (SignedNote.run ns).length = run.length) (he : alike e e' = true) :
    alikeAll (run.elements ++ e :: es) ((SignedNote.run ns).elements ++ [e'] ++ fs) = true ↔
      SignedNote.run ns = run ∧ alikeAll es fs = true := by
  have hsigns : ∀ a ∈ SignedNote.run ns, a.1.accidental = 0 := by
    intro a ha
    obtain ⟨n, hm, hs⟩ := List.mem_filterMap.1 ha
    obtain ⟨value, -, rfl⟩ := Option.map_eq_some_iff.1 hs
    exact (hn n hm).note.natural
  have hlen' : run.elements.length = (SignedNote.run ns).elements.length := by
    simp [Run.elements, hlen]
  rw [List.append_assoc, alikeAll_append _ _ hlen', List.singleton_append, alikeAll, he,
    Bool.true_and, Bool.and_eq_true, alikeAll_run_iff (fun a ha => (hr a ha).natural) hsigns,
    eq_comm]

/-- Elements are the same music as what comes back of them exactly if the accidentals of chords are
in turn. -/
theorem alikeAll_settled_iff {run : Run} {es : List Element} (h : Notated run es) :
    alikeAll (run.elements ++ es) (settled run es) = true ↔ InTurn run es := by
  -- accidentals gather in the run until the note or chord that they stand before
  induction h with
  | nil => simp [Run.elements, settled, alikeAll, InTurn]
  | @accidental run pitch value es h ih =>
    have he : run.elements ++ accidental pitch value :: es =
        Run.elements (run ++ [(pitch, value)]) ++ es := by
      simp [Run.elements]
    rw [he, settled, InTurn, ih]
  | @note run n es hr hn hp h ih =>
    have hrun : SignedNote.run [⟨(run.take n.pitch).1, n⟩] = run := Run.take_eq hn.natural hp
    have hsound : ∀ m ∈ [(⟨(run.take n.pitch).1, n⟩ : SignedNote)], m.Sound := by
      intro m hm
      rw [List.mem_singleton.1 hm]
      exact Run.take_sound hr hn
    have he : alike (note n) (note n.reduced) = true := by
      rw [alike, n.alike_reduced]
    rw [settled, Run.take_left hr hn.natural hp, InTurn, ← ih, Figure.elements,
      alikeAll_beat_iff hr hsound (by rw [hrun]) he]
    exact and_iff_right hrun
  | @rest d es hd h ih =>
    rw [settled, InTurn, ← ih]
    simp [Run.elements, Figure.elements, alikeAll, alike, d.alike_reduced]
  | @chord run notes es hr hne hn hp h ih =>
    have hleft := Run.deal_left hr hn hp
    have hlen := run.length_deal notes
    have he : alike (chord notes)
        (chord ((run.deal notes).1.map fun n => n.note.reduced)) = true := by
      have hm : (run.deal notes).1.map (fun n => n.note.reduced) = notes.map Note.reduced := by
        rw [← Function.comp_def, ← List.map_map, Run.deal_notes]
      rw [alike, hm, alikeLists_map_iff]
      exact fun n _ => n.alike_reduced
    rw [hleft, List.length_nil, Nat.add_zero] at hlen
    rw [settled, hleft, InTurn, ← ih, Figure.elements,
      alikeAll_beat_iff hr (Run.deal_sound hr hn) hlen he, Run.deal_eq_iff hr hn hp]
    rfl
  | tuplet hf hi h ihInner ih =>
    rw [settled, InTurn, ← ihInner, ← ih]
    simp [Run.elements, alikeAll, alike]

end Element

theorem alikeLists_settled_iff {bs : List Bar} (h : ∀ b ∈ bs, Bar.Sound b) :
    alikeLists alikeAll bs (bs.map Bar.settled) = true ↔ ∀ b ∈ bs, Element.InTurn [] b := by
  rw [alikeLists_map_iff]
  exact forall₂_congr fun b hb => alikeAll_settled_iff (h b hb).2

theorem Phrase.alike_settled_iff {p : Phrase} (h : ∀ b ∈ p.bars, Bar.Sound b) :
    (∃ q, p.settled? = some q ∧ p.alike q = true) ↔
      (∀ b ∈ p.bars, Element.InTurn [] b) ∧ ∀ r, p = .repeated r → r.isEmpty = false := by
  cases p with
  | bar b =>
    have hb := alikeAll_settled_iff (h b (by simp [Phrase.bars])).2
    simpa [Phrase.settled?, Phrase.alike, Phrase.bars, Bar.settled, Run.elements] using hb
  | repeated r =>
    obtain ⟨⟨hn, hf⟩, hs⟩ := Repeat.forall_bars.1 h
    have hr : r.alike r.settled = true ↔ ∀ b ∈ r.bars, Element.InTurn [] b := by
      rw [Repeat.alike, Repeat.settled, Bool.and_eq_true, Bool.and_eq_true,
        alikeLists_settled_iff hn, alikeLists_settled_iff hf, alikeLists_settled_iff hs,
        Repeat.forall_bars]
    rw [Phrase.settled?]
    cases he : r.isEmpty with
    | true => simp [he]
    | false => simp [he, Phrase.alike, Phrase.bars, hr]

/-- A voice is the same music as what comes back of it exactly if its accidentals are in turn and
nothing of it is left out. -/
theorem Voice.alike_settled_iff {v : Voice} (hb : ∀ b ∈ v.bars, Bar.Sound b) :
    v.alike v.settled = true ↔
      (∀ b ∈ v.bars, Element.InTurn [] b) ∧
        (∀ r, .repeated r ∈ v.phrases → r.isEmpty = false) ∧
        (v.repeatOpen = true → v.phrases ≠ []) := by
  have hbars (P : Bar → Prop) : (∀ b ∈ v.bars, P b) ↔ ∀ p ∈ v.phrases, ∀ b ∈ p.bars, P b := by
    rw [Voice.bars, List.forall_mem_flatMap]
  have hphrases : alikeLists Phrase.alike v.phrases v.settled.phrases = true ↔
      (∀ b ∈ v.bars, Element.InTurn [] b) ∧
        ∀ r, .repeated r ∈ v.phrases → r.isEmpty = false := by
    have hr : (∀ p ∈ v.phrases, ∀ r, p = .repeated r → r.isEmpty = false) ↔
        ∀ r, .repeated r ∈ v.phrases → r.isEmpty = false :=
      ⟨fun h r hm => h _ hm r rfl, fun h p hp r he => h r (he ▸ hp)⟩
    rw [Voice.settled, alikeLists_filterMap_iff, hbars, ← hr, ← forall₂_and]
    exact forall₂_congr fun p hp => Phrase.alike_settled_iff ((hbars _).1 hb p hp)
  have hopen : (v.repeatOpen == v.settled.repeatOpen) = true ↔
      (v.repeatOpen = true → v.phrases ≠ []) := by
    cases ho : v.repeatOpen <;> simp [Voice.settled, ho]
  have hname : (v.name == v.settled.name) = true := by simp [Voice.settled]
  rw [Voice.alike, hname, Bool.true_and, Bool.and_eq_true, hphrases, hopen, and_assoc]

def Tune.Rereadable (t : Tune) : Prop :=
  ∀ v ∈ t.voices, v.Rereadable

theorem Tune.alike_settled_iff (t : Tune) :
    t.alike t.settled = true ↔ ∀ v ∈ t.voices, v.alike v.settled = true := by
  have hd (d : Duration) : d.alike d = true := Duration.alike_iff.2 rfl
  have hv : t.settled.voices = t.voices.map Voice.settled := rfl
  simp only [Tune.alike, Bool.and_eq_true, hv, alikeLists_map_iff]
  simp [Tune.settled, hd]

/-- The canonical text of a well-formed tune is read as the same music exactly if the tune is
rereadable. -/
theorem Tune.WellFormed.alike_canonical_iff {t : Tune} (h : t.WellFormed) :
    (∃ t', Tune.read t.canonical = .ok t' ∧ t.alike t' = true) ↔ t.Rereadable := by
  have hoctaves (v : Voice) : (∀ f ∈ v.figures, ∀ n ∈ f.notes, n.pitch.octave ≠ -128) ↔
      ∀ b ∈ v.bars, ∀ n ∈ Element.notes b, n.pitch.octave ≠ -128 := by
    rw [← List.forall_mem_flatMap, ← List.forall_mem_flatMap, v.notes_figures]
  have hvoice (v : Voice) (hv : v ∈ t.voices) := Voice.alike_settled_iff (h.bars v hv)
  simp only [h.read_canonical_iff, hoctaves]
  constructor
  · rintro ⟨t', ⟨rfl, ho⟩, ha⟩ v hv
    obtain ⟨hruns, hrepeats, hopened⟩ := (hvoice v hv).1 (t.alike_settled_iff.1 ha v hv)
    exact ⟨ho v hv, hruns, hrepeats, hopened⟩
  · intro hr
    refine ⟨t.settled, ⟨rfl, fun v hv => (hr v hv).octaves⟩, t.alike_settled_iff.2 ?_⟩
    intro v hv
    exact (hvoice v hv).2 ⟨(hr v hv).runs, (hr v hv).repeats, (hr v hv).opened⟩

/-- A tune that was read from a text is read again from its canonical text as the same music exactly
if it is rereadable. Not every tune that is read is so. -/
theorem Tune.read_alike_iff (text : String) (t : Tune) (h : Tune.read text = .ok t) :
    (∃ t', Tune.read t.canonical = .ok t' ∧ t.alike t' = true) ↔ t.Rereadable :=
  (Tune.ofTokens_sound (Lexed.ofText_scannable text) h).alike_canonical_iff

/-- A repeat opened in a voice without bars is lost. -/
theorem Tune.read_alike_iff_open_repeat :
    ∃ t, Tune.read "|:" = .ok t ∧
      ¬∃ t', Tune.read t.canonical = .ok t' ∧ t.alike t' = true := by
  obtain ⟨t, ht, hopen⟩ := exists_of_any (show (Tune.read "|:").toOption.any
    (fun t => t.voices.any fun v => v.repeatOpen && v.phrases.isEmpty) = true by decide +kernel)
  obtain ⟨v, hv, hvoice⟩ := List.any_eq_true.1 hopen
  rw [Bool.and_eq_true, List.isEmpty_iff] at hvoice
  refine ⟨t, ht, fun hr => ?_⟩
  exact ((Tune.read_alike_iff "|:" t ht).1 hr v hv).opened hvoice.1 hvoice.2

theorem Run.inTurn_of_nodup {run : Run} {notes : List Note} (hd : (notes.map Note.pitch).Nodup)
    (h : run.pitches.Sublist (notes.map Note.pitch)) : run.InTurn notes := by
  induction notes generalizing run with
  | nil => exact List.map_eq_nil_iff.1 (List.sublist_nil.1 h)
  | cons n notes ih =>
    rw [List.map_cons] at h hd
    obtain ⟨hn, hd⟩ := List.nodup_cons.1 hd
    rw [Run.InTurn]
    rcases List.sublist_cons_iff.1 h with hs | ⟨pitches, hp, hs⟩
    · exact Or.inr ⟨fun hm => hn (hs.subset hm), ih hd hs⟩
    · obtain ⟨⟨pitch, value⟩, left, rfl, he, rfl⟩ := List.map_eq_cons_iff.1 hp
      obtain rfl : pitch = n.pitch := he
      exact Or.inl ⟨value, left, rfl, ih hd hs⟩

theorem Element.Notated.inTurn {run : Run} {es : List Element} (h : Notated run es)
    (hd : ∀ ns ∈ chords es, (ns.map Note.pitch).Nodup) : InTurn run es := by
  induction h with
  | nil => rw [InTurn]; trivial
  | accidental h ih =>
    rw [chords] at hd
    rw [InTurn]
    exact ih hd
  | note hr hn hp h ih =>
    rw [chords] at hd
    rw [InTurn]
    exact ih hd
  | rest hl h ih =>
    rw [chords] at hd
    rw [InTurn]
    exact ih hd
  | chord hr hne hn hp h ih =>
    rw [chords, List.forall_mem_cons] at hd
    rw [InTurn]
    exact ⟨Run.inTurn_of_nodup hd.1 hp, ih hd.2⟩
  | tuplet hf hi h ihInner ih =>
    rw [chords, List.forall_mem_append] at hd
    rw [InTurn]
    exact ⟨ihInner hd.1, ih hd.2⟩

/-- A voice that canonical text can tell, whatever the order of the accidentals of a chord. -/
structure Voice.Plain (v : Voice) : Prop where
  octaves : ∀ b ∈ v.bars, ∀ n ∈ Element.notes b, -127 ≤ n.pitch.octave.toInt
  chords : ∀ b ∈ v.bars, ∀ ns ∈ Element.chords b, (ns.map Note.pitch).Nodup
  repeats : ∀ r, .repeated r ∈ v.phrases → r.bars ≠ []
  opened : v.repeatOpen = true → v.phrases ≠ []

theorem Voice.Plain.rereadable {v : Voice} (h : v.Plain) (hb : ∀ b ∈ v.bars, Bar.Sound b) :
    v.Rereadable := by
  refine ⟨?_, fun b hm => (hb b hm).2.inTurn (h.chords b hm), ?_, h.opened⟩
  · intro b hm n hn ho
    have hle := h.octaves b hm n hn
    rw [ho] at hle
    exact absurd hle (by decide)
  · intro r hr
    have hne := h.repeats r hr
    simpa [Repeat.bars, Repeat.isEmpty] using hne

/-- The canonical text of a tune, whether it was read or built, is read as the same music. -/
theorem Tune.canonical_alike (t : Tune) (h : t.WellFormed) (hp : ∀ v ∈ t.voices, v.Plain) :
    ∃ t', Tune.read t.canonical = .ok t' ∧ t.alike t' = true :=
  h.alike_canonical_iff.2 fun v hv => (hp v hv).rereadable (h.bars v hv)

/-- A tune with a sharp before a chord, a pair in altered time and an open repeat. -/
def Tune.jig : Tune :=
  let c : Note := ⟨⟨.c, 0, 0⟩, ⟨2, 4⟩⟩
  let e : Note := ⟨⟨.e, -3, 0⟩, ⟨3, 1⟩⟩
  { Tune.blank with
    title := "Jig"
    voices := [⟨some "a",
      [.repeated ⟨[[.accidental c.pitch 1, .chord [e, c]]], [], [[.rest ⟨1, 1⟩]]⟩,
        .bar [.tuplet 2 [.note e, .note c] 2]], true⟩] }

theorem Tune.canonical_alike_jig :
    Tune.jig.WellFormed ∧ (∀ v ∈ Tune.jig.voices, v.Plain) ∧
      ∃ t', Tune.read Tune.jig.canonical = .ok t' ∧ Tune.jig.alike t' = true := by
  have hwell : Tune.jig.WellFormed := by
    refine ⟨⟨by decide, ?_, by decide, by decide, by decide, by decide +kernel⟩, by simp [jig],
      ⟨by decide, by decide, ?_⟩, ?_⟩
    · intro text ht
      obtain rfl : text = "Jig" := List.mem_singleton.1 ht
      exact ⟨by decide, by decide +kernel⟩
    · intro name hn
      obtain rfl : name = "a" := Option.some.inj (List.mem_singleton.1 hn)
      refine ⟨by decide, fun c hc => ?_⟩
      obtain rfl : c = 'a' := List.mem_singleton.1 hc
      decide +kernel
    · simp only [jig, List.forall_mem_singleton, Voice.bars, Phrase.bars, Repeat.bars,
        List.flatMap_cons, List.flatMap_nil, List.append_nil, List.cons_append, List.nil_append]
      rw [List.forall_mem_cons, List.forall_mem_cons, List.forall_mem_singleton]
      refine ⟨⟨by simp, ?_⟩, ⟨by simp, .rest (by decide) .nil⟩, ⟨by simp, ?_⟩⟩
      · refine .accidental (.chord ?_ (by simp) ?_ (by decide) .nil)
        · rw [List.nil_append, Run.Sound, List.forall_mem_singleton]
          exact ⟨rfl, by decide, by decide⟩
        · rw [List.forall_mem_cons, List.forall_mem_singleton]
          exact ⟨⟨rfl, by decide⟩, ⟨rfl, by decide⟩⟩
      · refine .tuplet ⟨by simp [isTuplet], rfl, rfl, by simp, fun _ => ⟨_, rfl⟩⟩ ?_ .nil
        refine .note Run.sound_nil ⟨rfl, by decide⟩ (Or.inl rfl) ?_
        exact .note Run.sound_nil ⟨rfl, by decide⟩ (Or.inl rfl) .nil
  have hplain : ∀ v ∈ Tune.jig.voices, v.Plain := by
    simp only [jig, List.forall_mem_singleton]
    refine ⟨?_, ?_, ?_, by simp⟩
    · simp [Voice.bars, Phrase.bars, Repeat.bars, Element.notes]
    · simp [Voice.bars, Phrase.bars, Repeat.bars, Element.chords]
    · simp [Repeat.bars]
  exact ⟨hwell, hplain, Tune.canonical_alike Tune.jig hwell hplain⟩

end Tunebook
