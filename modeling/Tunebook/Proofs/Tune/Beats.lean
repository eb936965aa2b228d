import Tunebook.Proofs.Duration
import Tunebook.Proofs.Token.Spelling
import Tunebook.Proofs.Tune.Notation
import Tunebook.Tune.Music

namespace Tunebook

open Element

/-- Elements that are written together: accidentals, then the one thing that takes time. -/
structure Beat (es : List Element) : Prop where
  notated : Notated [] es
  shape : ∃ (run : Run) (last : Element),
    es = run.elements ++ [last] ∧ last.isTuplet = false

namespace Music

theorem atEnd_eq_ok {α : Type} {failure : Option LexError} {a b : α}
    (h : atEnd failure a = .ok b) : failure = none ∧ b = a := by
  unfold atEnd at h
  split at h
  · simp only [Except.ok.injEq] at h
    exact ⟨rfl, h.symm⟩
  · simp at h

theorem octaves_suffix {failure : Option LexError} {shift : Int8} {ts : Tokens}
    {r : Int8 × Tokens} (h : octaves failure shift ts = .ok r) : r.2 <:+ ts := by
  induction ts generalizing shift with
  | nil =>
    obtain ⟨-, rfl⟩ := atEnd_eq_ok h
    exact List.suffix_refl _
  | cons t ts ih =>
    unfold octaves at h
    split at h
    · split at h
      · simp at h
      · exact (ih h).trans (List.suffix_cons t ts)
    · simp only [Except.ok.injEq] at h
      subst h
      exact List.suffix_refl _

theorem numerator_suffix {failure : Option LexError} {ts : Tokens} {r : UInt32 × Tokens}
    (h : numerator failure ts = .ok r) : r.2 <:+ ts := by
  unfold numerator at h
  split at h
  · obtain ⟨-, rfl⟩ := atEnd_eq_ok h
    exact List.suffix_refl _
  · split at h
    · simp only [Except.ok.injEq] at h
      subst h
      exact List.suffix_cons _ _
    · simp only [Except.ok.injEq] at h
      subst h
      exact List.suffix_refl _

theorem divisor_spec {failure : Option LexError} {ts : Tokens} {r : UInt32 × Tokens}
    (h : divisor failure ts = .ok r) : r.1 ≠ 0 ∧ r.2 <:+ ts := by
  unfold divisor at h
  split at h
  · rw [(atEnd_eq_ok h).2]
    exact ⟨by simp, List.suffix_refl _⟩
  · split at h
    · split at h
      · simp [unexpected] at h
      · rename_i hn
        simp only [Except.ok.injEq] at h
        subst h
        exact ⟨hn, List.suffix_cons _ _⟩
    · simp only [Except.ok.injEq] at h
      subst h
      exact ⟨by simp, List.suffix_refl _⟩

theorem denominator_spec {failure : Option LexError} {ts : Tokens} {r : UInt32 × Tokens}
    (h : denominator failure ts = .ok r) : r.1 ≠ 0 ∧ r.2 <:+ ts := by
  unfold denominator at h
  split at h
  · rw [(atEnd_eq_ok h).2]
    exact ⟨by simp, List.suffix_refl _⟩
  · split at h
    · have hd := divisor_spec h
      exact ⟨hd.1, hd.2.trans (List.suffix_cons _ _)⟩
    · simp only [Except.ok.injEq] at h
      subst h
      exact ⟨by simp, List.suffix_refl _⟩

theorem length_spec {failure : Option LexError} {ts : Tokens} {r : Duration × Tokens}
    (h : length failure ts = .ok r) : r.1.den ≠ 0 ∧ r.2 <:+ ts := by
  unfold length at h
  split at h
  · simp at h
  · rename_i hn
    split at h
    · simp at h
    · rename_i hd
      simp only [Except.ok.injEq] at h
      subst h
      have hs := denominator_spec hd
      exact ⟨hs.1, hs.2.trans (numerator_suffix hn)⟩

theorem shiftOctave?_accidental {p q : Pitch} {octaves : Int8}
    (h : p.shiftOctave? octaves = some q) : q.accidental = p.accidental := by
  obtain ⟨v, -, rfl⟩ := Option.map_eq_some_iff.1 h
  rfl

theorem note_spec {failure : Option LexError} {letter : NoteLetter} {position : Position}
    {ts : Tokens} {r : Note × Tokens} (h : note failure letter position ts = .ok r) :
    r.1.Sound ∧ r.2 <:+ ts := by
  unfold note at h
  split at h
  · simp at h
  · rename_i ho
    split at h
    · simp at h
    · rename_i hp
      split at h
      · simp at h
      · rename_i hl
        simp only [Except.ok.injEq] at h
        subst h
        have hs := length_spec hl
        exact ⟨⟨shiftOctave?_accidental hp, hs.1⟩, hs.2.trans (octaves_suffix ho)⟩

theorem alteredNote_spec {failure : Option LexError} {sign : PlacedToken} {ts : Tokens}
    {r : Note × Tokens} (h : alteredNote failure sign ts = .ok r) : r.1.Sound ∧ r.2 <:+ ts := by
  unfold alteredNote at h
  split at h
  · cases failure <;> simp [atEnd, Except.bind] at h
  · split at h
    · have hn := note_spec h
      exact ⟨hn.1, hn.2.trans (List.suffix_cons _ _)⟩
    · simp at h

/-- The accidentals belong to some of the notes, in the order of the notes. -/
structure ChordNotes.Sound (c : ChordNotes) : Prop where
  run : ∃ run : Run, c.accidentals = run.elements ∧ run.Sound ∧
    run.pitches.Sublist (c.notes.map Note.pitch)
  notes : ∀ n ∈ c.notes, n.Sound

theorem ChordNotes.Sound.push {c : ChordNotes} {n : Note} (hc : c.Sound) (hn : n.Sound) :
    (c.push n).Sound := by
  obtain ⟨run, hr, hs, hp⟩ := hc.run
  refine ⟨⟨run, hr, hs, ?_⟩, ?_⟩
  · rw [ChordNotes.push, List.map_append]
    exact hp.trans (List.sublist_append_left _ _)
  · intro m hm
    rcases List.mem_append.1 hm with hm | hm
    · exact hc.notes m hm
    · rwa [List.mem_singleton.1 hm]

theorem ChordNotes.Sound.pushAltered {c : ChordNotes} {shift : Int8} {n : Note} (hc : c.Sound)
    (hn : n.Sound) (hs : (Token.accidental shift).Scannable) :
    (c.pushAltered shift n).Sound := by
  obtain ⟨run, hr, ha, hp⟩ := hc.run
  refine ⟨⟨run ++ [(n.pitch, shift)], ?_, ?_, ?_⟩, ?_⟩
  · simp [ChordNotes.pushAltered, hr, Run.elements]
  · intro a hm
    rcases List.mem_append.1 hm with hm | hm
    · exact ha a hm
    · rw [List.mem_singleton.1 hm]
      exact ⟨hn.natural, hs.1, hs.2⟩
  · simp only [ChordNotes.pushAltered, Run.pitches, List.map_append]
    exact hp.append (List.Sublist.refl _)
  · intro m hm
    rcases List.mem_append.1 hm with hm | hm
    · exact hc.notes m hm
    · rwa [List.mem_singleton.1 hm]

theorem pushNote_spec {failure : Option LexError} {c : ChordNotes} {t : PlacedToken}
    {ts : Tokens} {r : ChordNotes × Tokens} (hc : c.Sound) (ht : t.token.Scannable)
    (h : pushNote failure c t ts = .ok r) : r.1.Sound ∧ r.2 <:+ ts := by
  unfold pushNote at h
  split at h
  · split at h
    · simp at h
    · rename_i hn
      simp only [Except.ok.injEq] at h
      subst h
      have hs := note_spec hn
      exact ⟨hc.push hs.1, hs.2⟩
  · rename_i ha
    split at h
    · simp at h
    · rename_i hn
      simp only [Except.ok.injEq] at h
      subst h
      have hs := alteredNote_spec hn
      rw [ha] at ht
      exact ⟨hc.pushAltered hs.1 ht, hs.2⟩
  · simp [unexpected] at h

theorem chordNotes_spec {failure : Option LexError} {c : ChordNotes} {ts : Tokens}
    {r : ChordNotes × Tokens} (hc : c.Sound) (hts : ∀ t ∈ ts, t.token.Scannable)
    (h : chordNotes failure c ts = .ok r) : r.1.Sound ∧ r.1.notes ≠ [] ∧ r.2 <:+ ts := by
  fun_induction chordNotes failure c ts with
  | case1 => cases failure <;> simp [atEnd, Except.bind] at h
  | case2 => simp [unexpected] at h
  | case3 c t ts _ hn =>
    simp only [Except.ok.injEq] at h
    subst h
    exact ⟨hc, by simpa using hn, List.suffix_cons t ts⟩
  | case4 => simp at h
  | case5 c t ts _ c' rest hp _ ih =>
    have hs := pushNote_spec hc (hts t (by simp)) hp
    have hi := ih hs.1 (fun u hu => hts u (List.mem_cons_of_mem t (hs.2.subset hu))) h
    exact ⟨hi.1, hi.2.1, hi.2.2.trans (hs.2.trans (List.suffix_cons t ts))⟩

theorem stretch?_spec {factor : Duration} {notes stretched : List Note} (hf : factor.den ≠ 0)
    (hn : ∀ n ∈ notes, n.Sound) (h : stretch? factor notes = some stretched) :
    stretched.map Note.pitch = notes.map Note.pitch ∧ ∀ n ∈ stretched, n.Sound := by
  induction notes generalizing stretched with
  | nil =>
    simp only [stretch?, List.mapM_nil, Option.pure_def, Option.some.injEq] at h
    subst h
    simp
  | cons n notes ih =>
    simp only [stretch?, List.mapM_cons, Option.bind_eq_bind, Option.bind_eq_some_iff,
      Option.map_eq_some_iff, Option.pure_def, Option.some.injEq] at h
    obtain ⟨m, ⟨d, hd, rfl⟩, ms, hms, rfl⟩ := h
    have hs := hn n (by simp)
    have hi := ih (fun k hk => hn k (List.mem_cons_of_mem _ hk)) hms
    refine ⟨by simp [hi.1], ?_⟩
    intro k hk
    rcases List.mem_cons.1 hk with rfl | hk
    · exact ⟨hs.natural, Duration.mul?_den_ne_zero _ _ _ hs.den_ne_zero hf hd⟩
    · exact hi.2 k hk

theorem beat_chord {run : Run} {notes : List Note} (hr : run.Sound)
    (hp : run.pitches.Sublist (notes.map Note.pitch)) (hne : notes ≠ [])
    (hn : ∀ n ∈ notes, n.Sound) : Beat (run.elements ++ [.chord notes]) := by
  refine ⟨?_, run, .chord notes, rfl, rfl⟩
  exact .of_run (.chord hr hne hn hp .nil)

theorem chord_spec {failure : Option LexError} {start : PlacedToken} {ts : Tokens}
    {r : List Element × Tokens} (hts : ∀ t ∈ ts, t.token.Scannable)
    (h : chord failure start ts = .ok r) : Beat r.1 ∧ r.2 <:+ ts := by
  unfold chord at h
  split at h
  · simp at h
  · rename_i hc
    have hs := chordNotes_spec ⟨⟨[], rfl, Run.sound_nil, List.nil_sublist _⟩, by simp⟩ hts hc
    obtain ⟨⟨⟨run, hr, ha, hp⟩, hn⟩, hne, hsuf⟩ := hs
    split at h
    · simp at h
    · rename_i hl
      have hls := length_spec hl
      split at h
      · split at h
        · simp at h
        · rename_i hst
          simp only [Except.ok.injEq] at h
          subst h
          obtain ⟨hpitch, hsound⟩ := stretch?_spec hls.1 hn hst
          refine ⟨?_, hls.2.trans hsuf⟩
          dsimp only at hr hp ⊢
          rw [hr]
          refine beat_chord ha (by rw [hpitch]; exact hp) ?_ hsound
          intro h0
          rw [h0, List.map_nil] at hpitch
          exact hne (List.map_eq_nil_iff.1 hpitch.symm)
      · simp only [Except.ok.injEq] at h
        subst h
        refine ⟨?_, hls.2.trans hsuf⟩
        dsimp only at hr hp ⊢
        rw [hr]
        exact beat_chord ha hp hne hn

theorem elements_spec {failure : Option LexError} {t : PlacedToken} {ts : Tokens}
    {r : List Element × Tokens} (ht : t.token.Scannable) (hts : ∀ t ∈ ts, t.token.Scannable)
    (h : elements failure t ts = .ok r) :
    (Beat r.1 ∨ ∃ size, r.1 = [(Tuplet.empty size).toElement]) ∧ r.2 <:+ ts := by
  unfold elements at h
  cases hk : t.token <;> simp only [hk, unexpected, reduceCtorEq] at h
  case letter l =>
    split at h
    · simp at h
    · rename_i hn
      simp only [Except.ok.injEq] at h
      subst h
      have hs := note_spec hn
      exact ⟨Or.inl ⟨.note Run.sound_nil hs.1 (Or.inl rfl) .nil, [], _, rfl, rfl⟩, hs.2⟩
  case rest =>
    split at h
    · simp at h
    · rename_i hl
      simp only [Except.ok.injEq] at h
      subst h
      have hs := length_spec hl
      exact ⟨Or.inl ⟨.rest hs.1 .nil, [], _, rfl, rfl⟩, hs.2⟩
  case accidental shift =>
    split at h
    · simp at h
    · rename_i n rest hn
      simp only [Except.ok.injEq] at h
      subst h
      have hs := alteredNote_spec hn
      rw [hk] at ht
      have hsign : Run.Sound [(n.pitch, shift)] := by
        intro a ha
        rw [List.mem_singleton.1 ha]
        exact ⟨hs.1.natural, ht.1, ht.2⟩
      refine ⟨Or.inl ⟨?_, [(n.pitch, shift)], _, rfl, rfl⟩, hs.2⟩
      exact .accidental (.note hsign hs.1 (Or.inr rfl) .nil)
  case chordStart =>
    have hs := chord_spec hts h
    exact ⟨Or.inl hs.1, hs.2⟩
  case tuplet size =>
    simp only [Except.ok.injEq] at h
    subst h
    exact ⟨Or.inr ⟨size, rfl⟩, List.suffix_refl _⟩

end Music

end Tunebook
