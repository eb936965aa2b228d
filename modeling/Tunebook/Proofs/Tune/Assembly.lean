import Tunebook.Proofs.Tune.Reading

namespace Tunebook

open Element

/-- A tuplet is taken apart into its mark and what it holds. -/
def Element.apart : Element → List Element
  | tuplet size elements _ => (Tuplet.empty size).toElement :: elements
  | e => [e]

/-- A tuplet is written as its mark, without notes. -/
def Element.Bare : Element → Prop
  | tuplet _ elements notes => elements = [] ∧ notes = 0
  | _ => True

theorem Element.apart_of_flat {e : Element} (h : e.isTuplet = false) : e.apart = [e] := by
  cases e with
  | tuplet size elements notes => cases h
  | _ => rfl

theorem Element.Bare.cases {e : Element} (h : e.Bare) :
    e.isTuplet = false ∨ ∃ size, e = (Tuplet.empty size).toElement := by
  cases e with
  | tuplet size elements notes =>
    obtain ⟨rfl, rfl⟩ := h
    exact Or.inr ⟨size, rfl⟩
  | _ => exact Or.inl rfl

def Bar.contents (b : Bar) : List Element :=
  b.flatMap apart

/-- The normal bars, then those of the first and of the second ending. -/
def Repeat.contents (r : Repeat) : List Element :=
  r.bars.flatMap Bar.contents

def Voice.contents (v : Voice) : List Element :=
  v.bars.flatMap Bar.contents

def Tuplet.contents (t : Tuplet) : List Element :=
  t.toElement.apart

@[simp] theorem Bar.contents_append (b c : Bar) :
    Bar.contents (b ++ c) = Bar.contents b ++ Bar.contents c :=
  List.flatMap_append

@[simp] theorem Bar.contents_nil : Bar.contents [] = [] := rfl

@[simp] theorem Repeat.contents_empty : Repeat.empty.contents = [] := rfl

theorem Repeat.contents_of_isEmpty {r : Repeat} (h : r.isEmpty = true) : r.contents = [] := by
  simp only [Repeat.isEmpty, Bool.and_eq_true, List.isEmpty_iff] at h
  simp [Repeat.contents, Repeat.bars, h]

theorem Bar.contents_of_flat {es : List Element} (h : ∀ e ∈ es, e.isTuplet = false) :
    Bar.contents es = es := by
  induction es with
  | nil => rfl
  | cons e es ih =>
    rw [List.forall_mem_cons] at h
    have he := apart_of_flat h.1
    have hes := ih h.2
    rw [Bar.contents, List.flatMap_cons, he]
    exact congrArg (e :: ·) hes

theorem Voice.contents_push_repeated (v : Voice) (r : Repeat) :
    (v.push (.repeated r)).contents = v.contents ++ r.contents := by
  rw [Voice.contents, Voice.bars_push, List.flatMap_append]
  rfl

/-- No part of the repeat after this one has bars yet. -/
def Repeat.UpTo (r : Repeat) : Section → Prop
  | .normal | .repeated => r.firstEnding = [] ∧ r.secondEnding = []
  | .firstEnding => r.secondEnding = []
  | .secondEnding => True

theorem Repeat.UpTo.addBar {r : Repeat} {place : Section} (h : r.UpTo place) (b : Bar) :
    (Draft.addBar r place b).UpTo place ∧
      (Draft.addBar r place b).contents = r.contents ++ Bar.contents b := by
  cases place with
  | normal | repeated =>
    obtain ⟨hfirst, hsecond⟩ := h
    refine ⟨⟨hfirst, hsecond⟩, ?_⟩
    simp [Draft.addBar, Repeat.contents, Repeat.bars, hfirst, hsecond]
  | firstEnding =>
    have hsecond : r.secondEnding = [] := h
    refine ⟨hsecond, ?_⟩
    simp [Draft.addBar, Repeat.contents, Repeat.bars, hsecond]
  | secondEnding =>
    refine ⟨trivial, ?_⟩
    simp [Draft.addBar, Repeat.contents, Repeat.bars]

namespace Stroke

def elements : Stroke → List Element
  | element e => [e]
  | barline _ | ending _ => []

def Bare : Stroke → Prop
  | element e => e.Bare
  | barline _ | ending _ => True

end Stroke

namespace Draft

/-- Everything that has been written, in the order in which it is kept. -/
def contents (d : Draft) : List Element :=
  d.voice.contents ++ d.held.toList.flatMap Repeat.contents ++ d.pending.contents ++
    Bar.contents d.bar ++ d.tuplet.toList.flatMap Tuplet.contents

/-- Bars go to the last part of the pending repeat that has any, and a repeat is held only as long
as nothing is written after it. -/
structure Tidy (d : Draft) : Prop where
  pending : d.pending.UpTo d.place
  held : ∀ r, d.held = some r → r.UpTo .firstEnding ∧ d.place = .normal ∧ d.pending = .empty ∧
    d.bar = [] ∧ d.tuplet = none

theorem tidy_empty (name : Option String) : (empty name).Tidy := by
  refine ⟨⟨rfl, rfl⟩, ?_⟩
  intro r hr
  cases hr

theorem Tidy.of_none {d : Draft} (hp : d.pending.UpTo d.place) (hh : d.held = none) : d.Tidy := by
  refine ⟨hp, ?_⟩
  intro r hr
  rw [hh] at hr
  cases hr

theorem Tidy.of_frame {d d' : Draft} (h : d.Tidy) (hpending : d'.pending = d.pending)
    (hplace : d'.place = d.place) (hheld : d'.held = none) : d'.Tidy := by
  refine .of_none ?_ hheld
  rw [hpending, hplace]
  exact h.pending

theorem Tidy.storeHeld {d : Draft} (h : d.Tidy) :
    d.storeHeld.Tidy ∧ d.storeHeld.contents = d.contents := by
  refine ⟨h.of_frame d.storeHeld_pending d.storeHeld_place d.storeHeld_held, ?_⟩
  cases hh : d.held with
  | none => rw [storeHeld_of_none d hh]
  | some r => simp [Draft.storeHeld, contents, hh, Voice.contents_push_repeated]

theorem contents_add (d : Draft) (es : List Element) (hes : ∀ e ∈ es, e.isTuplet = false) :
    (d.add es).contents = d.contents ++ es := by
  have hflat := Bar.contents_of_flat hes
  cases ht : d.tuplet with
  | none =>
    rw [add_of_none d es ht]
    simp [contents, ht, hflat]
  | some t =>
    -- the tuplet is the last part either way, as the open one or as the end of the bar
    by_cases hlt : t.notes + es.countP isNote < t.size.toNat
    · rw [add_of_lt d es t ht hlt]
      simp [contents, ht, Tuplet.contents, Tuplet.toElement, apart]
    · rw [add_of_le d es t ht (Nat.le_of_not_lt hlt)]
      simp [contents, ht, Tuplet.contents, Tuplet.toElement, apart, Bar.contents]

theorem contents_mark (d : Draft) (size : UInt32) (ht : d.tuplet = none) :
    (d.mark size).contents = d.contents ++ [(Tuplet.empty size).toElement] := by
  unfold mark
  split
  · simp [contents, ht, Bar.contents, Tuplet.toElement, Tuplet.empty, apart]
  · simp [contents, ht, Tuplet.contents, Tuplet.toElement, Tuplet.empty, apart]

theorem add_frame (d : Draft) (es : List Element) :
    (d.add es).pending = d.pending ∧ (d.add es).place = d.place ∧ (d.add es).held = d.held := by
  refine ⟨?_, ?_, add_held d es⟩
  all_goals
    unfold add
    split
    · rfl
    · dsimp only
      split <;> rfl

theorem mark_frame (d : Draft) (size : UInt32) :
    (d.mark size).pending = d.pending ∧ (d.mark size).place = d.place ∧
      (d.mark size).held = d.held := by
  unfold mark
  split <;> exact ⟨rfl, rfl, rfl⟩

theorem element_mark_tuplet {d d' : Draft} {size : UInt32}
    (h : d.element (Tuplet.empty size).toElement = .ok d') : d.tuplet = none := by
  cases ht : d.tuplet with
  | none => rfl
  | some t => simp [element, ht, Tuplet.toElement] at h

theorem Tidy.element {d d' : Draft} {e : Element} (h : d.Tidy) (he : e.Bare)
    (hw : d.element e = .ok d') : d'.Tidy ∧ d'.contents = d.contents ++ [e] := by
  obtain ⟨hs, hc⟩ := h.storeHeld
  rcases he.cases with hflat | ⟨size, rfl⟩
  · rw [element_eq_add d e hflat, Except.ok.injEq] at hw
    subst hw
    obtain ⟨hpending, hplace, hheld⟩ := add_frame d.storeHeld [e]
    refine ⟨hs.of_frame hpending hplace (hheld.trans d.storeHeld_held), ?_⟩
    rw [contents_add _ _ (by simpa using hflat), hc]
  · have ht : d.storeHeld.tuplet = none := by rw [storeHeld_tuplet, element_mark_tuplet hw]
    obtain ⟨hpending, hplace, hheld⟩ := mark_frame d.storeHeld size
    rw [element_mark_eq_ok hw]
    refine ⟨hs.of_frame hpending hplace (hheld.trans d.storeHeld_held), ?_⟩
    rw [contents_mark _ _ ht, hc]

theorem closed_frame (d : Draft) :
    d.closed.voice = d.voice ∧ d.closed.held = d.held ∧ d.closed.tuplet = d.tuplet ∧
      d.closed.place = d.place ∧ d.closed.bar = [] := by
  unfold closed
  split
  · rename_i hb
    exact ⟨rfl, rfl, rfl, rfl, List.isEmpty_iff.1 hb⟩
  · exact ⟨rfl, rfl, rfl, rfl, rfl⟩

theorem closed_pending {d : Draft} (h : d.pending.UpTo d.place) :
    d.closed.pending.UpTo d.place ∧
      d.closed.pending.contents = d.pending.contents ++ Bar.contents d.bar := by
  unfold closed
  split
  · rename_i hb
    rw [List.isEmpty_iff.1 hb, Bar.contents_nil, List.append_nil]
    exact ⟨h, rfl⟩
  · exact h.addBar d.bar

theorem Tidy.closed {d : Draft} (h : d.Tidy) (hh : d.held = none) :
    d.closed.Tidy ∧ d.closed.contents = d.contents := by
  obtain ⟨hvoice, hheld, htuplet, hplace, hbar⟩ := d.closed_frame
  obtain ⟨hup, hpending⟩ := closed_pending h.pending
  refine ⟨.of_none ?_ (hheld.trans hh), ?_⟩
  · rw [hplace]
    exact hup
  · simp [contents, hvoice, hheld, htuplet, hpending, hbar]

theorem settled_frame (d : Draft) :
    d.storeHeld.closed.held = none ∧ d.storeHeld.closed.tuplet = d.tuplet ∧
      d.storeHeld.closed.place = d.place ∧ d.storeHeld.closed.bar = [] := by
  obtain ⟨-, hheld, htuplet, hplace, hbar⟩ := d.storeHeld.closed_frame
  rw [hheld, htuplet, hplace]
  exact ⟨d.storeHeld_held, d.storeHeld_tuplet, d.storeHeld_place, hbar⟩

/-- No repeat is held any more and the bar is closed, as before a bar line and at the end. -/
theorem Tidy.settled {d : Draft} (h : d.Tidy) :
    d.storeHeld.closed.Tidy ∧ d.storeHeld.closed.contents = d.contents := by
  obtain ⟨hs, hsc⟩ := h.storeHeld
  obtain ⟨hc, hcc⟩ := hs.closed d.storeHeld_held
  exact ⟨hc, hcc.trans hsc⟩

theorem contents_of_stored {d d' : Draft} (hh : d.held = none) (hh' : d'.held = none)
    (hvoice : d'.voice.contents = d.voice.contents ++ d.pending.contents)
    (hpending : d'.pending = .empty) (hbar : d'.bar = d.bar) (htuplet : d'.tuplet = d.tuplet) :
    d'.contents = d.contents := by
  simp [contents, hh, hh', hvoice, hpending, hbar, htuplet]

theorem Tidy.storePlain {d : Draft} (h : d.Tidy) (hh : d.held = none)
    (hp : d.place = .normal ∨ d.place = .repeated) :
    d.storePlain.Tidy ∧ d.storePlain.contents = d.contents := by
  have hends : d.pending.firstEnding = [] ∧ d.pending.secondEnding = [] := by
    have hup := h.pending
    rcases hp with hp | hp <;> rw [hp] at hup <;> exact hup
  have hvoice : d.storePlain.voice.contents = d.voice.contents ++ d.pending.contents := by
    rw [Draft.storePlain, Voice.contents, Voice.bars_plain, List.flatMap_append,
      Repeat.contents, Repeat.bars, hends.1, hends.2, List.append_nil, List.append_nil]
    rfl
  refine ⟨.of_none ?_ hh, contents_of_stored hh hh hvoice rfl rfl rfl⟩
  rcases hp with hp | hp <;> simp [Draft.storePlain, hp, Repeat.UpTo, Repeat.empty]

theorem Tidy.openRepeat {d : Draft} (h : d.Tidy) (hh : d.held = none)
    (hp : d.place = .normal ∨ d.place = .repeated) :
    d.openRepeat.Tidy ∧ d.openRepeat.contents = d.contents := by
  obtain ⟨-, hc⟩ := h.storePlain hh hp
  exact ⟨.of_none ⟨rfl, rfl⟩ hh, hc⟩

theorem tidy_storeRepeat {d : Draft} (hh : d.held = none) :
    d.storeRepeat.Tidy ∧ d.storeRepeat.contents = d.contents := by
  have hvoice : d.storeRepeat.voice.contents = d.voice.contents ++ d.pending.contents := by
    unfold storeRepeat
    dsimp only
    split
    · rename_i he
      rw [Repeat.contents_of_isEmpty he, List.append_nil]
      rfl
    · exact Voice.contents_push_repeated d.voice d.pending
  exact ⟨.of_none ⟨rfl, rfl⟩ hh, contents_of_stored hh hh hvoice rfl rfl rfl⟩

theorem Tidy.holdRepeat {d : Draft} (h : d.Tidy) (hh : d.held = none) (hbar : d.bar = [])
    (htuplet : d.tuplet = none) (hp : d.place = .firstEnding) :
    d.holdRepeat.Tidy ∧ d.holdRepeat.contents = d.contents := by
  have hup := h.pending
  rw [hp] at hup
  refine ⟨⟨⟨rfl, rfl⟩, ?_⟩, ?_⟩
  · intro r hr
    obtain rfl := Option.some.inj hr
    exact ⟨hup, rfl, rfl, hbar, htuplet⟩
  · have hvoice : d.holdRepeat.voice.contents = d.voice.contents := rfl
    have hheld : d.holdRepeat.held = some d.pending := rfl
    have hrest : d.holdRepeat.pending = .empty ∧ d.holdRepeat.bar = d.bar ∧
        d.holdRepeat.tuplet = d.tuplet := ⟨rfl, rfl, rfl⟩
    simp [contents, hvoice, hheld, hrest, hh]

/-- What a bar line does keeps everything in its order, once the bar before it is closed. -/
theorem Tidy.turn {d d' : Draft} {line : Barline} (h : d.Tidy) (hh : d.held = none)
    (hbar : d.bar = []) (htuplet : d.tuplet = none) (ht : d.turn line = .ok d') :
    d'.Tidy ∧ d'.contents = d.contents := by
  unfold Draft.turn at ht
  split at ht <;> simp only [Except.ok.injEq, reduceCtorEq] at ht <;> subst ht
  case h_1 | h_7 | h_10 | h_11 => exact ⟨h, rfl⟩
  case h_2 hp => exact h.openRepeat hh (Or.inl hp)
  case h_3 | h_5 | h_13 => exact tidy_storeRepeat hh
  case h_4 hp _ _ _ => exact h.storePlain hh (Or.inl hp)
  case h_8 hp => exact h.holdRepeat hh hbar htuplet hp
  case h_12 =>
    obtain ⟨hs, hc⟩ := tidy_storeRepeat hh
    obtain ⟨ho, hc'⟩ := hs.openRepeat hh (Or.inl rfl)
    exact ⟨ho, hc'.trans hc⟩

theorem Tidy.barline {d d' : Draft} {line : Barline} (h : d.Tidy)
    (hw : d.barline line = .ok d') : d'.Tidy ∧ d'.contents = d.contents := by
  obtain ⟨htuplet, ht⟩ := barline_eq_ok hw
  obtain ⟨hheld, htuplet', -, hbar⟩ := d.settled_frame
  obtain ⟨hs, hsc⟩ := h.settled
  obtain ⟨hd, hdc⟩ := hs.turn hheld hbar (htuplet'.trans htuplet) ht
  exact ⟨hd, hdc.trans hsc⟩

theorem Tidy.ending {d d' : Draft} {which : Ending} (h : d.Tidy)
    (hw : d.ending which = .ok d') : d'.Tidy ∧ d'.contents = d.contents := by
  cases which with
  | first =>
    obtain ⟨hp, -, rfl⟩ := ending_first_eq_ok hw
    obtain ⟨hheld, -, hplace, -⟩ := d.settled_frame
    obtain ⟨hs, hsc⟩ := h.settled
    refine ⟨.of_none ?_ hheld, hsc⟩
    have hup := hs.pending
    rw [hplace] at hup
    rcases hp with hp | hp <;> rw [hp] at hup <;> exact hup.2
  | second =>
    obtain ⟨r, hr, -, rfl⟩ := ending_second_eq_ok hw
    -- the held repeat is all there is after the voice, so nothing that is pending is replaced
    obtain ⟨hup, hplace, hpending, hbar, htuplet⟩ := h.held r hr
    have hclosed : ({ d with held := none } : Draft).closed = { d with held := none } := by
      simp [Draft.closed, hbar]
    rw [hclosed]
    refine ⟨.of_none trivial rfl, ?_⟩
    simp [contents, hr, hpending, hbar, htuplet]

/-- One stroke adds what is written at the end. -/
theorem Tidy.write {d d' : Draft} {stroke : Stroke} (h : d.Tidy) (hb : stroke.Bare)
    (hw : d.write stroke = .ok d') : d'.Tidy ∧ d'.contents = d.contents ++ stroke.elements := by
  cases stroke with
  | element e => exact h.element hb hw
  | barline line =>
    rw [Stroke.elements, List.append_nil]
    exact h.barline hw
  | ending which =>
    rw [Stroke.elements, List.append_nil]
    exact h.ending hw

theorem Tidy.writeAll {d d' : Draft} {strokes : List Stroke} (h : d.Tidy)
    (hb : ∀ stroke ∈ strokes, stroke.Bare) (hw : d.writeAll strokes = .ok d') :
    d'.Tidy ∧ d'.contents = d.contents ++ strokes.flatMap Stroke.elements := by
  induction strokes generalizing d with
  | nil =>
    obtain rfl := Except.ok.inj hw
    exact ⟨h, (List.append_nil _).symm⟩
  | cons stroke strokes ih =>
    rw [List.forall_mem_cons] at hb
    change (d.write stroke >>= fun d => d.writeAll strokes) = .ok d' at hw
    cases hs : d.write stroke with
    | error e =>
      rw [hs] at hw
      cases hw
    | ok next =>
      rw [hs] at hw
      obtain ⟨hnext, hc⟩ := h.write hb.1 hs
      obtain ⟨hd, hdc⟩ := ih hnext hb.2 hw
      refine ⟨hd, ?_⟩
      rw [hdc, hc, List.flatMap_cons, List.append_assoc]

theorem contents_eq_voice {d : Draft} (hh : d.held = none) (hp : d.pending = .empty)
    (hb : d.bar = []) (ht : d.tuplet = none) : d.contents = d.voice.contents := by
  simp [contents, hh, hp, hb, ht]

theorem Tidy.finish {d : Draft} {v : Voice} (h : d.Tidy) (hf : d.finish = .ok v) :
    v.contents = d.contents := by
  obtain ⟨htuplet, rfl⟩ := finish_eq_ok hf
  obtain ⟨hheld, htuplet', -, hbar⟩ := d.settled_frame
  rw [htuplet] at htuplet'
  obtain ⟨hs, hsc⟩ := h.settled
  unfold finished
  cases hp : d.storeHeld.closed.place with
  | normal | repeated =>
    obtain ⟨-, hplain⟩ := hs.storePlain hheld (by simp [hp])
    have hall : d.storeHeld.closed.storePlain.contents = _ :=
      contents_eq_voice hheld rfl hbar htuplet'
    rw [← hsc, ← hplain, hall]
  | firstEnding | secondEnding =>
    obtain ⟨-, hstored⟩ := tidy_storeRepeat hheld
    have hall : d.storeHeld.closed.storeRepeat.contents = _ :=
      contents_eq_voice hheld rfl hbar htuplet'
    rw [← hsc, ← hstored, hall]

/-- Whatever is written to a new voice, if it can be finished: it holds the elements as they were
written, each of them once and in this order. -/
theorem contents_written (name : Option String) (strokes : List Stroke) (v : Voice)
    (hb : ∀ stroke ∈ strokes, stroke.Bare)
    (h : (empty name).writeAll strokes >>= finish = .ok v) :
    v.contents = strokes.flatMap Stroke.elements := by
  cases hw : (empty name).writeAll strokes with
  | error e =>
    rw [hw] at h
    cases h
  | ok d =>
    rw [hw] at h
    obtain ⟨hd, hc⟩ := (tidy_empty name).writeAll hb hw
    have hstart : (empty name).contents = [] := rfl
    rw [hd.finish h, hc, hstart, List.nil_append]

/-- A tuplet in the normal bars of a repeat, both endings, and a bar after them. -/
def endingsScore : List Stroke :=
  let note (letter : Letter) : Stroke := .element (.note ⟨⟨letter, 0, 0⟩, .unit⟩)
  [.barline .repeatStart, .element (Tuplet.empty 2).toElement, note .c, .element (.rest .unit),
    note .d, .barline .single, .ending .first, .element (.accidental ⟨.e, 0, 0⟩ 1), note .e,
    .barline .repeatEnd, .ending .second, note .f, .barline .double,
    .element (.chord [⟨⟨.g, 0, 0⟩, .unit⟩, ⟨⟨.b, 0, 0⟩, .unit⟩])]

theorem contents_written_endings :
    ∃ v, (empty none).writeAll endingsScore >>= finish = .ok v ∧ v.phrases.length = 2 ∧
      v.contents = endingsScore.flatMap Stroke.elements := by
  refine ⟨_, rfl, rfl, contents_written none endingsScore _ ?_ rfl⟩
  simp [endingsScore, Stroke.Bare, Element.Bare, Tuplet.empty, Tuplet.toElement]

end Draft

end Tunebook
