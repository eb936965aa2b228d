import Tunebook.Proofs.Tune.RepeatGrammar

namespace Tunebook

namespace Stroke

/-- No element of the past is left for the repeat that comes next. Each has the start or the end of
a repeat after it or, where no repeat is open, any bar line but a single one. -/
def WrittenOut (past : List Stroke) : Prop :=
  (∀ e, Ended (element e) [.repeatStart, .repeatEnd] past) ∨
    Ended (barline .repeatStart) [.repeatEnd] past ∧ ∀ e, Ended (element e) secondEnds past

/-- A first ending is open, with no bar in it or before it. -/
def Begun (past : List Stroke) : Prop :=
  ∃ before lines, past = before ++ ending .first :: lines ∧ WrittenOut before ∧
    ∀ s ∈ lines, ∃ line, line ≠ .repeatEnd ∧ s = barline line

/-- The past ends with the end of a repeat that has no bars. -/
def Hollow (past : List Stroke) : Prop :=
  ∃ earlier, past = earlier ++ [barline .repeatEnd] ∧ Begun earlier

/-- Something other than a second ending came after a repeat without bars. -/
def HollowLeft (past : List Stroke) : Prop :=
  ∃ earlier s later, past = earlier ++ s :: later ∧ Hollow earlier ∧ s ≠ ending .second

theorem writtenOut_nil : WrittenOut [] :=
  Or.inl fun _ => ended_nil _ _

theorem not_writtenOut_element (past : List Stroke) (e : Element) :
    ¬WrittenOut (past ++ [element e]) := by
  rintro (h | ⟨-, h⟩)
  all_goals exact ((ended_snoc _ _ _ _).1 (h e)).1 rfl

theorem writtenOut_barline (past : List Stroke) (line : Barline) :
    WrittenOut (past ++ [barline line]) ↔
      WrittenOut past ∨ line ∈ [Barline.repeatStart, .repeatEnd] ∨
        line ∈ secondEnds ∧ Ended (barline .repeatStart) [.repeatEnd] past := by
  unfold WrittenOut
  cases line <;> simp [ended_snoc, secondEnds] <;> tauto

theorem not_begun_nil : ¬Begun [] := by
  rintro ⟨before, lines, h, -⟩
  simp at h

theorem begun_snoc (past : List Stroke) (s : Stroke) :
    Begun (past ++ [s]) ↔ s = ending .first ∧ WrittenOut past ∨
      Begun past ∧ ∃ line, line ≠ .repeatEnd ∧ s = barline line := by
  constructor
  · rintro ⟨before, lines, hsplit, hwritten, hlines⟩
    rcases append_singleton_eq_append_cons.1 hsplit with ⟨rfl, rfl, -⟩ | ⟨rest, rfl, rfl⟩
    · exact Or.inl ⟨rfl, hwritten⟩
    · refine Or.inr ⟨⟨before, rest, rfl, hwritten, ?_⟩, hlines s (by simp)⟩
      exact fun t ht => hlines t (List.mem_append_left _ ht)
  · rintro (⟨rfl, hwritten⟩ | ⟨⟨before, lines, rfl, hwritten, hlines⟩, hs⟩)
    · exact ⟨past, [], rfl, hwritten, by simp⟩
    · refine ⟨before, lines ++ [s], by simp, hwritten, ?_⟩
      intro t ht
      rcases List.mem_append.1 ht with ht | ht
      · exact hlines t ht
      · rw [List.mem_singleton.1 ht]
        exact hs

theorem not_hollow_nil : ¬Hollow [] := by
  rintro ⟨earlier, h, -⟩
  simp at h

theorem hollow_snoc (past : List Stroke) (s : Stroke) :
    Hollow (past ++ [s]) ↔ Begun past ∧ s = barline .repeatEnd := by
  constructor
  · rintro ⟨earlier, hsplit, hbegun⟩
    obtain ⟨rfl, hs⟩ := List.append_inj' hsplit rfl
    exact ⟨hbegun, (List.cons.inj hs).1⟩
  · rintro ⟨hbegun, rfl⟩
    exact ⟨past, rfl, hbegun⟩

theorem not_hollowLeft_nil : ¬HollowLeft [] := by
  rintro ⟨earlier, s, later, h, -⟩
  simp at h

theorem hollowLeft_snoc (past : List Stroke) (s : Stroke) :
    HollowLeft (past ++ [s]) ↔ HollowLeft past ∨ Hollow past ∧ s ≠ ending .second := by
  constructor
  · rintro ⟨earlier, t, later, hsplit, hhollow, ht⟩
    rcases append_singleton_eq_append_cons.1 hsplit with ⟨rfl, rfl, -⟩ | ⟨rest, rfl, rfl⟩
    · exact Or.inr ⟨hhollow, ht⟩
    · exact Or.inl ⟨earlier, t, rest, rfl, hhollow, ht⟩
  · rintro (⟨earlier, t, later, rfl, hhollow, ht⟩ | ⟨hhollow, hs⟩)
    · exact ⟨earlier, t, later ++ [s], by simp, hhollow, ht⟩
    · exact ⟨past, s, [], rfl, hhollow, hs⟩

end Stroke

def Voice.HasHollow (v : Voice) : Prop :=
  ∃ r, Phrase.repeated r ∈ v.phrases ∧ r.isEmpty = true

theorem Voice.hasHollow_push (v : Voice) (r : Repeat) :
    (v.push (.repeated r)).HasHollow ↔ v.HasHollow ∨ r.isEmpty = true := by
  simp only [HasHollow, push, List.mem_append, List.mem_singleton, Phrase.repeated.injEq,
    or_and_right, exists_or, exists_eq_left]

namespace Section

theorem turned_closed (place : Section) (line : Barline)
    (h : place.turned line = .normal ∨ place.turned line = .secondEnding) :
    line ≠ .repeatStart ∧ (line = .repeatEnd ∨ place = .normal ∨ place = .secondEnding) := by
  revert h
  cases place <;> cases line <;> decide

theorem turned_plain (place : Section) (line : Barline)
    (h : place.turned line = .normal ∨ place.turned line = .repeated) :
    (place = .normal ∨ place = .repeated) ∨ line = .repeatEnd ∨
      place = .secondEnding ∧ line ∈ Stroke.secondEnds := by
  revert h
  cases place <;> cases line <;> decide

end Section

namespace Draft

open Stroke

/-- Nothing was written that still waits to be stored. -/
def Idle (d : Draft) : Prop :=
  d.bar = [] ∧ d.tuplet = none ∧ d.pending.isEmpty = true

def HoldsHollow (d : Draft) : Prop :=
  ∃ r, d.held = some r ∧ r.isEmpty = true

theorem not_holdsHollow_of_none {d : Draft} (h : d.held = none) : ¬d.HoldsHollow := by
  rintro ⟨r, hr, -⟩
  rw [h] at hr
  cases hr

theorem storeHeld_hasHollow (d : Draft) :
    d.storeHeld.voice.HasHollow ↔ d.voice.HasHollow ∨ d.HoldsHollow := by
  unfold storeHeld HoldsHollow
  cases hh : d.held with
  | none => simp
  | some r => simp [Voice.hasHollow_push]

theorem storePlain_hasHollow (d : Draft) : d.storePlain.voice.HasHollow ↔ d.voice.HasHollow := by
  simp [storePlain, Voice.HasHollow]

/-- The guard of this way into the voice. -/
theorem storeRepeat_hasHollow (d : Draft) :
    d.storeRepeat.voice.HasHollow ↔ d.voice.HasHollow := by
  unfold storeRepeat
  cases hp : d.pending.isEmpty with
  | true => exact Iff.rfl
  | false =>
    have hpush := Voice.hasHollow_push d.voice d.pending
    rw [hp] at hpush
    exact hpush.trans (by simp)

theorem addBar_isEmpty (r : Repeat) (place : Section) (b : Bar) :
    (addBar r place b).isEmpty = false := by
  cases place <;> simp [addBar, Repeat.isEmpty]

theorem closed_isEmpty (d : Draft) :
    d.closed.pending.isEmpty = true ↔ d.bar = [] ∧ d.pending.isEmpty = true := by
  unfold closed
  split
  · rename_i hb
    simp [List.isEmpty_iff.1 hb]
  · rename_i hb
    rw [List.isEmpty_iff] at hb
    simp [hb, addBar_isEmpty]

theorem settled_idle {d : Draft} (ht : d.tuplet = none) : d.storeHeld.closed.Idle ↔ d.Idle := by
  obtain ⟨-, htuplet, -, hbar⟩ := d.settled_frame
  have hpending := d.storeHeld.closed_isEmpty
  rw [storeHeld_bar, storeHeld_pending] at hpending
  simp only [Idle, hbar, htuplet, ht, hpending, true_and]

theorem settled_hasHollow (d : Draft) :
    d.storeHeld.closed.voice.HasHollow ↔ d.voice.HasHollow ∨ d.HoldsHollow := by
  rw [d.storeHeld.closed_frame.1, storeHeld_hasHollow]

theorem turn_place {d d' : Draft} {line : Barline} (h : d.turn line = .ok d') :
    d'.place = d.place.turned line := by
  obtain ⟨next, hnext, hplace, -⟩ := d.turn_ok line fun hline => turn_start_eq_ok (hline ▸ h)
  rw [h] at hnext
  obtain rfl := Except.ok.inj hnext
  exact hplace

/-- What a bar line writes out or stores no longer waits. -/
theorem turn_idle {d d' : Draft} {line : Barline} (hbar : d.bar = []) (htuplet : d.tuplet = none)
    (h : d.turn line = .ok d') :
    d'.Idle ↔ d.Idle ∨ line ∈ [Barline.repeatStart, .repeatEnd] ∨
      line ∈ secondEnds ∧ (d.place = .normal ∨ d.place = .secondEnding) := by
  unfold turn at h
  cases hp : d.place <;> cases line <;> simp only [hp, Except.ok.injEq, reduceCtorEq] at h <;>
    subst h <;>
    simp [Idle, secondEnds, hbar, htuplet, storePlain, openRepeat, storeRepeat, holdRepeat,
      Repeat.empty, Repeat.isEmpty]

theorem turn_holdsHollow {d d' : Draft} {line : Barline} (hbar : d.bar = [])
    (htuplet : d.tuplet = none) (hheld : d.held = none) (h : d.turn line = .ok d') :
    d'.HoldsHollow ↔ line = .repeatEnd ∧ d.place = .firstEnding ∧ d.Idle := by
  unfold turn at h
  cases hp : d.place <;> cases line <;> simp only [hp, Except.ok.injEq, reduceCtorEq] at h <;>
    subst h <;>
    simp [HoldsHollow, Idle, hheld, hbar, htuplet, storePlain, openRepeat, storeRepeat, holdRepeat]

theorem turn_hasHollow {d d' : Draft} {line : Barline} (h : d.turn line = .ok d') :
    d'.voice.HasHollow ↔ d.voice.HasHollow := by
  unfold turn at h
  split at h <;> simp only [Except.ok.injEq, reduceCtorEq] at h <;> subst h
  case h_1 | h_7 | h_8 | h_10 | h_11 => exact Iff.rfl
  case h_2 | h_4 => exact d.storePlain_hasHollow
  case h_3 | h_5 | h_13 => exact d.storeRepeat_hasHollow
  case h_12 => exact d.storeRepeat.storePlain_hasHollow.trans d.storeRepeat_hasHollow

theorem turn_held {d d' : Draft} {line : Barline} (hheld : d.held = none)
    (h : d.turn line = .ok d') (hd' : d'.held ≠ none) : d'.place = .normal := by
  unfold turn at h
  cases hp : d.place <;> cases line <;> simp only [hp, Except.ok.injEq, reduceCtorEq] at h <;>
    subst h <;>
    simp_all [storePlain, openRepeat, storeRepeat, holdRepeat]

/-- An element is waiting afterwards, in the bar or in a tuplet. -/
theorem element_frame {d d' : Draft} {e : Element} (h : d.element e = .ok d') :
    ¬d'.Idle ∧ d'.place = d.place ∧ d'.held = none ∧ d'.voice = d.storeHeld.voice ∧
      d'.pending = d.pending := by
  rw [← d.storeHeld_place, ← d.storeHeld_held, ← d.storeHeld_pending]
  unfold element at h
  dsimp only at h
  split at h
  · cases h
  · obtain rfl := Except.ok.inj h
    unfold fillTuplet
    dsimp only
    split <;> simp [Idle]
  · split at h <;> obtain rfl := Except.ok.inj h <;> simp [Idle]
  · obtain rfl := Except.ok.inj h
    simp [Idle]

/-- What a draft shows of the strokes that were written to it. -/
structure Traces (d : Draft) (past : List Stroke) : Prop where
  inside : d.place = .repeated → ¬Ended (.barline .repeatStart) [.repeatEnd] past
  outside : d.place = .normal ∨ d.place = .secondEnding →
    Ended (.barline .repeatStart) [.repeatEnd] past
  plain : d.place = .normal ∨ d.place = .repeated → (d.Idle ↔ WrittenOut past)
  first : d.place = .firstEnding ∧ d.Idle ↔ Begun past
  waiting : d.held ≠ none → d.place = .normal
  held : d.HoldsHollow ↔ Hollow past
  voice : d.voice.HasHollow ↔ HollowLeft past

theorem traces_empty (name : Option String) : (empty name).Traces [] := by
  refine ⟨?_, fun _ => ended_nil _ _, fun _ => ?_, ?_, ?_, ?_, ?_⟩
  · simp [empty]
  · simp [empty, Idle, Repeat.empty, Repeat.isEmpty, writtenOut_nil]
  · simp [empty, not_begun_nil]
  · simp [empty]
  · simp [empty, HoldsHollow, not_hollow_nil]
  · simp [empty, Voice.empty, Voice.HasHollow, not_hollowLeft_nil]

theorem Traces.element {d d' : Draft} {past : List Stroke} {e : Element} (h : d.Traces past)
    (hw : d.element e = .ok d') : d'.Traces (past ++ [.element e]) := by
  obtain ⟨hidle, hplace, hheld, hvoice, -⟩ := element_frame hw
  refine ⟨?_, ?_, fun _ => ?_, ?_, fun hne => absurd hheld hne, ?_, ?_⟩
  · simpa [hplace, ended_snoc] using h.inside
  · simpa [hplace, ended_snoc] using h.outside
  · exact iff_of_false hidle (not_writtenOut_element past e)
  · simp [hidle, begun_snoc]
  · simp [not_holdsHollow_of_none hheld, hollow_snoc]
  · rw [hvoice, storeHeld_hasHollow, h.voice, h.held, hollowLeft_snoc]
    simp

theorem Traces.barline {d d' : Draft} {past : List Stroke} {line : Barline} (h : d.Traces past)
    (hw : d.barline line = .ok d') : d'.Traces (past ++ [.barline line]) := by
  obtain ⟨htuplet, hturn⟩ := barline_eq_ok hw
  obtain ⟨hheld, htuplet', hsettled, hbar⟩ := d.settled_frame
  have hsettledIdle := settled_idle htuplet
  rw [htuplet] at htuplet'
  have hplace := turn_place hturn
  have hidle := turn_idle hbar htuplet' hturn
  have hholds := turn_holdsHollow hbar htuplet' hheld hturn
  rw [hsettled] at hplace
  rw [hsettled, hsettledIdle] at hidle hholds
  have hstart : line = .repeatStart → d.place ≠ .repeated ∧ d.place ≠ .firstEnding := by
    rintro rfl
    have hne := turn_start_eq_ok hturn
    rwa [hsettled] at hne
  refine ⟨?_, ?_, ?_, ?_, turn_held hheld hturn, ?_, ?_⟩
  · rw [hplace]
    intro hp
    rcases Section.turned_eq_repeated _ _ hp with rfl | ⟨hrepeated, hline⟩
    · simp [ended_snoc]
    · have hopen := h.inside hrepeated
      simp [ended_snoc, hopen, hline]
  · rw [hplace]
    intro hp
    obtain ⟨hline, hended⟩ := Section.turned_closed _ _ hp
    rcases hended with hend | hended
    · simp [ended_snoc, hend]
    · simp [ended_snoc, hline, h.outside hended]
  · rw [hplace, hidle, writtenOut_barline]
    intro hp
    rcases Section.turned_plain _ _ hp with hplain | rfl | ⟨hsecond, hline⟩
    · have hopen : d.place = .normal ∨ d.place = .secondEnding ↔
          Ended (.barline .repeatStart) [.repeatEnd] past := by
        refine ⟨h.outside, fun hended => ?_⟩
        rcases hplain with hp | hp
        · exact Or.inl hp
        · exact absurd hended (h.inside hp)
      rw [h.plain hplain, hopen]
    · simp
    · simp [hline, hsecond, h.outside (Or.inr hsecond)]
  · -- in a first ending only its end stores anything, and a start is refused
    have hsame : d.place = .firstEnding → line ≠ .repeatEnd → (d'.Idle ↔ d.Idle) := by
      intro hp hline
      have hne : line ≠ .repeatStart := fun hs => (hstart hs).2 hp
      simp [hidle, hp, hline, hne]
    rw [hplace, Section.turned_eq_firstEnding, begun_snoc, ← h.first]
    constructor
    · rintro ⟨⟨hp, hline⟩, hd'⟩
      exact Or.inr ⟨⟨hp, (hsame hp hline).1 hd'⟩, line, hline, rfl⟩
    · rintro (⟨hs, -⟩ | ⟨⟨hp, hd⟩, _, hline, ⟨⟩⟩)
      · cases hs
      · exact ⟨⟨hp, hline⟩, (hsame hp hline).2 hd⟩
  · rw [hholds, hollow_snoc, ← h.first]
    simp [and_comm]
  · rw [turn_hasHollow hturn, settled_hasHollow, h.voice, h.held, hollowLeft_snoc]
    simp

theorem Traces.ending_first {d d' : Draft} {past : List Stroke} (h : d.Traces past)
    (hw : d.ending .first = .ok d') : d'.Traces (past ++ [.ending .first]) := by
  obtain ⟨hplace, htuplet, rfl⟩ := ending_first_eq_ok hw
  have hidle : ({ d.storeHeld.closed with place := .firstEnding } : Draft).Idle ↔
      WrittenOut past := (settled_idle htuplet).trans (h.plain hplace)
  obtain ⟨hheld, -, -, -⟩ := d.settled_frame
  refine ⟨by simp, by simp, by simp, ?_, fun hne => absurd hheld hne, ?_, ?_⟩
  · rw [begun_snoc]
    simpa using hidle
  · rw [hollow_snoc]
    exact iff_of_false (not_holdsHollow_of_none hheld) (by simp)
  · have hvoice := d.settled_hasHollow
    rw [h.voice, h.held] at hvoice
    rw [hollowLeft_snoc]
    simpa using hvoice

theorem Traces.ending_second {d d' : Draft} {past : List Stroke} (h : d.Traces past)
    (hw : d.ending .second = .ok d') : d'.Traces (past ++ [.ending .second]) := by
  obtain ⟨r, hr, -, rfl⟩ := ending_second_eq_ok hw
  obtain ⟨hvoice, hheld, -, -, -⟩ := ({ d with held := none } : Draft).closed_frame
  have hended := h.outside (Or.inl (h.waiting (by simp [hr])))
  refine ⟨by simp, ?_, by simp, ?_, fun hne => absurd hheld hne, ?_, ?_⟩
  · simp [ended_snoc, hended]
  · simp [begun_snoc]
  · rw [hollow_snoc]
    exact iff_of_false (not_holdsHollow_of_none hheld) (by simp)
  · -- the held repeat is taken up again, so that nothing comes to the voice
    rw [hollowLeft_snoc, ← h.voice]
    simp [hvoice]

theorem Traces.write {d d' : Draft} {past : List Stroke} {s : Stroke} (h : d.Traces past)
    (hw : d.write s = .ok d') : d'.Traces (past ++ [s]) := by
  cases s with
  | element e => exact h.element hw
  | barline line => exact h.barline hw
  | ending which =>
    cases which with
    | first => exact h.ending_first hw
    | second => exact h.ending_second hw

theorem Traces.finished {d : Draft} {past : List Stroke} (h : d.Traces past) :
    d.finished.HasHollow ↔ HollowLeft past ∨ Hollow past := by
  rw [← h.voice, ← h.held, ← settled_hasHollow]
  unfold Draft.finished
  split
  · exact storePlain_hasHollow _
  · exact storePlain_hasHollow _
  · exact storeRepeat_hasHollow _
  · exact storeRepeat_hasHollow _

def kept (d : Draft) : List Bar :=
  d.voice.bars ++ d.held.toList.flatMap Repeat.bars ++ d.pending.bars

theorem storeHeld_kept (d : Draft) : d.storeHeld.kept = d.kept := by
  unfold storeHeld
  cases hh : d.held with
  | none => rfl
  | some r => simp [kept, hh, Voice.bars_push, Phrase.bars]

theorem closed_kept {d : Draft} {b : Bar} (hb : b ∈ d.closed.kept) : b ∈ d.kept ∨ b ≠ [] := by
  unfold closed at hb
  split at hb
  · exact Or.inl hb
  · rename_i hne
    rcases List.mem_append.1 hb with hb | hb
    · exact Or.inl (List.mem_append_left _ hb)
    · rcases bars_addBar _ _ _ _ hb with hb | rfl
      · exact Or.inl (List.mem_append_right _ hb)
      · exact Or.inr (by simpa using hne)

theorem storePlain_kept (d : Draft) : d.storePlain.kept ⊆ d.kept := by
  intro b hb
  simp only [kept, storePlain, Voice.bars_plain, Repeat.bars, List.mem_append] at hb ⊢
  simp only [Repeat.empty, List.not_mem_nil, or_false] at hb
  tauto

theorem storeRepeat_kept (d : Draft) : d.storeRepeat.kept ⊆ d.kept := by
  have hvoice : ∀ b ∈ d.storeRepeat.voice.bars, b ∈ d.voice.bars ∨ b ∈ d.pending.bars := by
    intro b hb
    unfold storeRepeat at hb
    dsimp only at hb
    split at hb
    · exact Or.inl hb
    · exact List.mem_append.1 ((Voice.bars_push d.voice (.repeated d.pending)) ▸ hb)
  intro b hb
  have hpending : d.storeRepeat.pending.bars = [] := rfl
  have hheld : d.storeRepeat.held = d.held := rfl
  simp only [kept, hpending, hheld, List.mem_append, List.not_mem_nil, or_false] at hb ⊢
  have hb' := hvoice b
  tauto

theorem holdRepeat_kept (d : Draft) : d.holdRepeat.kept ⊆ d.kept := by
  intro b hb
  have hvoice : d.holdRepeat.voice.bars = d.voice.bars := rfl
  have hheld : d.holdRepeat.held.toList.flatMap Repeat.bars = d.pending.bars := List.append_nil _
  have hpending : d.holdRepeat.pending.bars = [] := rfl
  simp only [kept, hvoice, hheld, hpending, List.mem_append, List.not_mem_nil, or_false] at hb ⊢
  tauto

theorem turn_kept {d d' : Draft} {line : Barline} (h : d.turn line = .ok d') :
    d'.kept ⊆ d.kept := by
  unfold turn at h
  split at h <;> simp only [Except.ok.injEq, reduceCtorEq] at h <;> subst h
  case h_1 | h_7 | h_10 | h_11 => exact List.Subset.refl _
  case h_2 | h_4 => exact d.storePlain_kept
  case h_3 | h_5 | h_13 => exact d.storeRepeat_kept
  case h_8 => exact d.holdRepeat_kept
  case h_12 => exact List.Subset.trans d.storeRepeat.storePlain_kept d.storeRepeat_kept

theorem settled_kept {d : Draft} {b : Bar} (hb : b ∈ d.storeHeld.closed.kept) :
    b ∈ d.kept ∨ b ≠ [] := by
  rw [← storeHeld_kept]
  exact closed_kept hb

/-- A bar that a stroke adds is not empty. -/
theorem write_kept {d d' : Draft} {s : Stroke} (h : d.write s = .ok d') {b : Bar}
    (hb : b ∈ d'.kept) : b ∈ d.kept ∨ b ≠ [] := by
  cases s with
  | element e =>
    obtain ⟨-, -, hheld, hvoice, hpending⟩ := element_frame h
    refine Or.inl ?_
    rw [← storeHeld_kept]
    rw [kept, hheld, hvoice, hpending] at hb
    rwa [kept, storeHeld_held, storeHeld_pending]
  | barline line => exact settled_kept (turn_kept (barline_eq_ok h).2 hb)
  | ending which =>
    cases which with
    | first =>
      obtain ⟨-, -, rfl⟩ := ending_first_eq_ok h
      exact settled_kept hb
    | second =>
      obtain ⟨r, hr, -, rfl⟩ := ending_second_eq_ok h
      obtain ⟨hvoice, hheld, -, -, -⟩ := ({ d with held := none } : Draft).closed_frame
      refine Or.inl ?_
      have hrepeat : b ∈ d.voice.bars ∨ b ∈ r.bars := by simpa [kept, hvoice, hheld] using hb
      simpa [kept, hr, ← or_assoc] using Or.inl hrepeat

theorem finished_kept {d : Draft} {b : Bar} (hb : b ∈ d.finished.bars) :
    b ∈ d.kept ∨ b ≠ [] := by
  have hstored : ∀ e : Draft, b ∈ e.voice.bars → b ∈ e.kept := fun e he =>
    List.mem_append_left _ (List.mem_append_left _ he)
  unfold finished at hb
  split at hb
  · exact settled_kept (storePlain_kept _ (hstored _ hb))
  · exact settled_kept (storePlain_kept _ (hstored _ hb))
  · exact settled_kept (storeRepeat_kept _ (hstored _ hb))
  · exact settled_kept (storeRepeat_kept _ (hstored _ hb))

theorem writeAll_traces {d d' : Draft} {past strokes : List Stroke} (h : d.Traces past)
    (hk : ∀ b ∈ d.kept, b ≠ []) (hw : d.writeAll strokes = .ok d') :
    d'.Traces (past ++ strokes) ∧ ∀ b ∈ d'.kept, b ≠ [] := by
  induction strokes generalizing d past with
  | nil =>
    obtain rfl := Except.ok.inj hw
    rw [List.append_nil]
    exact ⟨h, hk⟩
  | cons s strokes ih =>
    change (d.write s >>= fun d => d.writeAll strokes) = .ok d' at hw
    cases hs : d.write s with
    | error e =>
      rw [hs] at hw
      cases hw
    | ok next =>
      rw [hs] at hw
      have hnext : ∀ b ∈ next.kept, b ≠ [] := fun b hb =>
        (write_kept hs hb).elim (hk b) id
      rw [← List.singleton_append, ← List.append_assoc]
      exact ih (h.write hs) hnext hw

/-- Whatever is written to a new voice, if it can be finished: no bar of it is empty, and a repeat
of it is empty only if it was held in vain for a second ending. -/
theorem finish_hasHollow_iff (name : Option String) (strokes : List Stroke) (v : Voice)
    (h : (empty name).writeAll strokes >>= finish = .ok v) :
    (∀ b ∈ v.bars, b ≠ []) ∧
      ((∃ r, Phrase.repeated r ∈ v.phrases ∧ r.isEmpty = true) ↔
        ∃ past future, strokes = past ++ future ∧ Hollow past ∧
          future.head? ≠ some (.ending .second)) := by
  cases hw : (empty name).writeAll strokes with
  | error e =>
    rw [hw] at h
    cases h
  | ok d =>
    rw [hw] at h
    obtain ⟨-, rfl⟩ := finish_eq_ok h
    have hnone : ∀ b ∈ (empty name).kept, b ≠ [] := by
      simp [kept, empty, Voice.empty, Voice.bars, Repeat.empty, Repeat.bars]
    obtain ⟨htraces, hkept⟩ := writeAll_traces (traces_empty name) hnone hw
    refine ⟨fun b hb => (finished_kept hb).elim (hkept b) id, htraces.finished.trans ?_⟩
    rw [List.nil_append]
    constructor
    · rintro (⟨past, s, later, rfl, hhollow, hs⟩ | hhollow)
      · exact ⟨past, s :: later, rfl, hhollow, by simpa using hs⟩
      · exact ⟨strokes, [], by simp, hhollow, by simp⟩
    · rintro ⟨past, future, rfl, hhollow, hnext⟩
      cases future with
      | nil => exact Or.inr (by simpa using hhollow)
      | cons s later => exact Or.inl ⟨past, s, later, rfl, hhollow, by simpa using hnext⟩

/-- A first ending with nothing in it, after a bar that was written out. -/
def hollowScore : List Stroke :=
  [.element (.rest .unit), .barline .double, .ending .first, .barline .single,
    .barline .repeatEnd, .element (.rest .unit)]

theorem finish_hasHollow_iff_hollowScore :
    ∃ v, (empty none).writeAll hollowScore >>= finish = .ok v ∧ (∀ b ∈ v.bars, b ≠ []) ∧
      ∃ r, Phrase.repeated r ∈ v.phrases ∧ r.isEmpty = true := by
  have hwritten : WrittenOut [.element (.rest .unit), .barline .double] := by
    refine (writtenOut_barline [.element (.rest .unit)] .double).2 (Or.inr (Or.inr ⟨by decide, ?_⟩))
    exact (ended_snoc _ _ _ []).2 ⟨by simp, Or.inl (ended_nil _ _)⟩
  have hhollow : Hollow (hollowScore.take 5) :=
    ⟨_, rfl, _, [.barline .single], rfl, hwritten, by simp⟩
  have hspec := finish_hasHollow_iff none hollowScore _ rfl
  exact ⟨_, rfl, hspec.1, hspec.2.2 ⟨_, [.element (.rest .unit)], rfl, hhollow, by simp⟩⟩

end Draft

end Tunebook
