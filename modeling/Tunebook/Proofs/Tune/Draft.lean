import Mathlib.Tactic.Tauto
import Tunebook.Proofs.Tune.Beats
import Tunebook.Tune.Draft

namespace Tunebook

open Element

namespace Draft

@[simp] theorem storeHeld_held (d : Draft) : d.storeHeld.held = none := by
  unfold storeHeld
  split
  · assumption
  · rfl

@[simp] theorem storeHeld_bar (d : Draft) : d.storeHeld.bar = d.bar := by
  unfold storeHeld
  split <;> rfl

@[simp] theorem storeHeld_tuplet (d : Draft) : d.storeHeld.tuplet = d.tuplet := by
  unfold storeHeld
  split <;> rfl

@[simp] theorem storeHeld_pending (d : Draft) : d.storeHeld.pending = d.pending := by
  unfold storeHeld
  split <;> rfl

@[simp] theorem storeHeld_place (d : Draft) : d.storeHeld.place = d.place := by
  unfold storeHeld
  split <;> rfl

@[simp] theorem storeHeld_name (d : Draft) : d.storeHeld.voice.name = d.voice.name := by
  unfold storeHeld
  split <;> rfl

theorem storeHeld_of_none (d : Draft) (h : d.held = none) : d.storeHeld = d := by
  unfold storeHeld
  rw [h]

def add (d : Draft) (es : List Element) : Draft :=
  match d.tuplet with
  | none => { d with bar := d.bar ++ es }
  | some t =>
    let t : Tuplet := ⟨t.size, t.elements ++ es, t.notes + es.countP isNote⟩
    if t.isFull then { d with bar := d.bar ++ [t.toElement], tuplet := none }
    else { d with tuplet := some t }

def mark (d : Draft) (size : UInt32) : Draft :=
  if size = 0 then { d with bar := d.bar ++ [(Tuplet.empty size).toElement] }
  else { d with tuplet := some (.empty size) }

/-- The open tuplet, if there is one, has notes to come. -/
def Unfilled (d : Draft) : Prop :=
  ∀ t, d.tuplet = some t → t.notes < t.size.toNat

theorem element_eq_add (d : Draft) (e : Element) (he : e.isTuplet = false) :
    d.element e = .ok (d.storeHeld.add [e]) := by
  unfold element add
  cases ht : d.storeHeld.tuplet with
  | none => cases e <;> simp_all [isTuplet]
  | some t => cases e <;> simp_all [isTuplet, fillTuplet, Tuplet.push, isNote]

theorem element_mark (d : Draft) (size : UInt32) (hd : d.tuplet = none) :
    d.element (Tuplet.empty size).toElement = .ok (d.storeHeld.mark size) := by
  have ht : d.storeHeld.tuplet = none := by rw [storeHeld_tuplet, hd]
  unfold element mark
  simp only [ht, Tuplet.toElement, Tuplet.empty]
  by_cases hs : size = 0
  · rw [if_pos hs, if_neg]
    rw [hs]
    decide
  · have hp : 0 < size.toNat := Nat.pos_of_ne_zero fun h0 => hs (UInt32.toNat_inj.1 h0)
    rw [if_neg hs, if_pos hp]

theorem add_of_none (d : Draft) (es : List Element) (h : d.tuplet = none) :
    d.add es = { d with bar := d.bar ++ es } := by
  unfold add
  rw [h]

theorem add_of_lt (d : Draft) (es : List Element) (t : Tuplet) (h : d.tuplet = some t)
    (hlt : t.notes + es.countP isNote < t.size.toNat) :
    d.add es =
      { d with tuplet := some ⟨t.size, t.elements ++ es, t.notes + es.countP isNote⟩ } := by
  unfold add
  simp only [h]
  rw [if_neg (by simpa [Tuplet.isFull] using hlt)]

theorem add_of_le (d : Draft) (es : List Element) (t : Tuplet) (h : d.tuplet = some t)
    (hle : t.size.toNat ≤ t.notes + es.countP isNote) :
    d.add es =
      { d with
        bar := d.bar ++ [.tuplet t.size (t.elements ++ es) (t.notes + es.countP isNote)]
        tuplet := none } := by
  unfold add
  simp only [h]
  rw [if_pos (by simpa [Tuplet.isFull] using hle)]
  rfl

theorem add_held (d : Draft) (es : List Element) : (d.add es).held = d.held := by
  unfold add
  split
  · rfl
  · dsimp only
    split <;> rfl

theorem add_add (d : Draft) (es fs : List Element) (hu : d.Unfilled)
    (hes : es.countP isNote = 0) : (d.add es).add fs = d.add (es ++ fs) := by
  cases ht : d.tuplet with
  | none =>
    rw [add_of_none d es ht, add_of_none d (es ++ fs) ht, ← List.append_assoc]
    exact add_of_none { d with bar := d.bar ++ es } fs ht
  | some t =>
    have hc : (es ++ fs).countP isNote = fs.countP isNote := by
      rw [List.countP_append, hes, Nat.zero_add]
    let t' : Tuplet := ⟨t.size, t.elements ++ es, t.notes⟩
    rw [add_of_lt d es t ht (by rw [hes]; exact hu t ht), hes, Nat.add_zero]
    by_cases hlt : t.notes + fs.countP isNote < t.size.toNat
    · rw [add_of_lt d (es ++ fs) t ht (by rwa [hc]), hc, ← List.append_assoc]
      exact add_of_lt { d with tuplet := some t' } fs t' rfl hlt
    · have hle := Nat.le_of_not_lt hlt
      rw [add_of_le d (es ++ fs) t ht (by rwa [hc]), hc, ← List.append_assoc]
      exact add_of_le { d with tuplet := some t' } fs t' rfl hle

theorem add_unfilled (d : Draft) (es : List Element) (hu : d.Unfilled) : (d.add es).Unfilled := by
  cases ht : d.tuplet with
  | none =>
    rw [add_of_none d es ht]
    exact hu
  | some t =>
    by_cases hlt : t.notes + es.countP isNote < t.size.toNat
    · rw [add_of_lt d es t ht hlt]
      rintro t' ⟨⟩
      exact hlt
    · rw [add_of_le d es t ht (Nat.le_of_not_lt hlt)]
      rintro t' ⟨⟩

theorem writeAll_append (d : Draft) (ss ts : List Stroke) :
    d.writeAll (ss ++ ts) = (d.writeAll ss >>= fun d => d.writeAll ts) :=
  List.foldlM_append

theorem countP_run (run : Run) : run.elements.countP isNote = 0 := by
  rw [List.countP_eq_zero]
  intro e he
  obtain ⟨a, -, rfl⟩ := List.mem_map.1 he
  simp [isNote]

/-- A run of accidentals and what follows it come into the draft as one. The tuplet cannot close
before the end, since accidentals do not count. -/
theorem writeAll_add (d : Draft) (run : Run) (last : Element) (hu : d.Unfilled)
    (hl : last.isTuplet = false) :
    d.writeAll ((run.elements ++ [last]).map .element) =
      .ok (d.storeHeld.add (run.elements ++ [last])) := by
  induction run generalizing d with
  | nil =>
    change (d.element last >>= pure) = _
    rw [element_eq_add d last hl]
    rfl
  | cons a run ih =>
    have ha : d.element (.accidental a.1 a.2) = .ok (d.storeHeld.add [.accidental a.1 a.2]) :=
      element_eq_add d _ rfl
    have hs : d.storeHeld.Unfilled := by simpa [Unfilled] using hu
    let next := d.storeHeld.add [.accidental a.1 a.2]
    have hn : next.storeHeld = next :=
      storeHeld_of_none next ((add_held _ _).trans (storeHeld_held d))
    have hi := ih next (add_unfilled _ _ hs)
    rw [hn, add_add _ _ _ hs rfl] at hi
    change (d.element (.accidental a.1 a.2) >>= fun d => d.writeAll _) = _
    rw [ha]
    exact hi

def closed (d : Draft) : Draft :=
  if d.bar.isEmpty then d else { d with bar := [], pending := addBar d.pending d.place d.bar }

theorem closeBar_eq (d : Draft) (h : d.tuplet = none) : d.closeBar = .ok d.closed := by
  unfold closeBar closed
  rw [h]
  simp only [Option.isSome_none, Bool.false_eq_true, if_false]
  split <;> rfl

theorem closeBar_eq_ok {d d' : Draft} (h : d.closeBar = .ok d') :
    d.tuplet = none ∧ d' = d.closed := by
  cases ht : d.tuplet with
  | none =>
    rw [closeBar_eq d ht] at h
    simp only [Except.ok.injEq] at h
    exact ⟨rfl, h.symm⟩
  | some t => simp [closeBar, ht] at h

theorem barline_eq (d : Draft) (line : Barline) (h : d.tuplet = none) :
    d.barline line = d.storeHeld.closed.turn line := by
  unfold barline
  rw [closeBar_eq _ (by rw [storeHeld_tuplet, h])]
  rfl

theorem barline_eq_ok {d d' : Draft} {line : Barline} (h : d.barline line = .ok d') :
    d.tuplet = none ∧ d.storeHeld.closed.turn line = .ok d' := by
  have ht : d.tuplet = none := by
    cases hc : d.storeHeld.closeBar with
    | error e =>
      rw [barline, hc] at h
      cases h
    | ok c =>
      rw [← storeHeld_tuplet]
      exact (closeBar_eq_ok hc).1
  exact ⟨ht, barline_eq d line ht ▸ h⟩

theorem ending_first_eq (d : Draft) (ht : d.tuplet = none)
    (hp : d.place = .normal ∨ d.place = .repeated) :
    d.ending .first = .ok { d.storeHeld.closed with place := .firstEnding } := by
  simp only [ending, storeHeld_place, closeBar_eq d.storeHeld (by rw [storeHeld_tuplet, ht])]
  rcases hp with hp | hp <;> rw [hp] <;> rfl

theorem ending_first_eq_ok {d d' : Draft} (h : d.ending .first = .ok d') :
    (d.place = .normal ∨ d.place = .repeated) ∧ d.tuplet = none ∧
      d' = { d.storeHeld.closed with place := .firstEnding } := by
  have hp : d.place = .normal ∨ d.place = .repeated := by
    cases hp : d.place <;> simp [ending, hp] at h ⊢
  have ht : d.tuplet = none := by
    cases hc : d.storeHeld.closeBar with
    | error e =>
      simp only [ending, storeHeld_place, hc] at h
      rcases hp with hp | hp <;> rw [hp] at h <;> cases h
    | ok c =>
      rw [← storeHeld_tuplet]
      exact (closeBar_eq_ok hc).1
  rw [ending_first_eq d ht hp] at h
  simp only [Except.ok.injEq] at h
  exact ⟨hp, ht, h.symm⟩

theorem ending_second_eq (d : Draft) (r : Repeat) (ht : d.tuplet = none) (hr : d.held = some r) :
    d.ending .second =
      .ok { ({ d with held := none } : Draft).closed with
        pending := r
        place := .secondEnding } := by
  simp only [ending, hr]
  rw [closeBar_eq]
  · rfl
  · exact ht

theorem ending_second_eq_ok {d d' : Draft} (h : d.ending .second = .ok d') :
    ∃ r, d.held = some r ∧ d.tuplet = none ∧
      d' = { ({ d with held := none } : Draft).closed with
        pending := r
        place := .secondEnding } := by
  cases hr : d.held with
  | none => simp [ending, hr] at h
  | some r =>
    have ht : d.tuplet = none := by
      cases hc : ({ d with held := none } : Draft).closeBar with
      | error e =>
        simp only [ending, hr, hc] at h
        cases h
      | ok c => exact (closeBar_eq_ok hc).1
    rw [ending_second_eq d r ht hr] at h
    simp only [Except.ok.injEq] at h
    exact ⟨r, rfl, ht, h.symm⟩

end Draft

structure Tuplet.Started (t : Tuplet) : Prop where
  notated : Notated [] t.elements
  flat : ∀ e ∈ t.elements, e.isTuplet = false
  count : t.notes = t.elements.countP isNote
  lt : t.notes < t.size.toNat

theorem Beat.flat {es : List Element} (h : Beat es) : ∀ e ∈ es, e.isTuplet = false := by
  obtain ⟨run, last, rfl, hl⟩ := h.shape
  intro e he
  rcases List.mem_append.1 he with he | he
  · obtain ⟨a, -, rfl⟩ := List.mem_map.1 he
    rfl
  · rwa [List.mem_singleton.1 he]

/-- A beat counts at most once in a tuplet, and then a note is the last of it. -/
theorem Beat.count {es : List Element} (h : Beat es) :
    es.countP isNote = 0 ∨ es.countP isNote = 1 ∧ ∃ n, es.getLast? = some (note n) := by
  obtain ⟨run, last, rfl, hl⟩ := h.shape
  rw [List.countP_append, Draft.countP_run, Nat.zero_add, List.getLast?_append]
  cases last with
  | note n => exact Or.inr ⟨rfl, n, rfl⟩
  | _ => exact Or.inl rfl

theorem Tuplet.Started.filled {t : Tuplet} {es : List Element} (ht : t.Started) (hb : Beat es)
    (hle : t.size.toNat ≤ t.notes + es.countP isNote) :
    Filled t.size (t.elements ++ es) (t.notes + es.countP isNote) := by
  have hlt := ht.lt
  have hc := ht.count
  rcases hb.count with h0 | ⟨h1, n, hn⟩
  · omega
  · refine ⟨?_, by omega, ?_, ?_, fun _ => ⟨n, ?_⟩⟩
    · intro e he
      rcases List.mem_append.1 he with he | he
      · exact ht.flat e he
      · exact hb.flat e he
    · rw [List.countP_append]
      omega
    · intro h0
      rw [h0] at hlt
      exact absurd hlt (Nat.not_lt_zero _)
    · rw [List.getLast?_append, hn]
      rfl

theorem Voice.bars_push (v : Voice) (p : Phrase) : (v.push p).bars = v.bars ++ p.bars := by
  simp [Voice.bars, Voice.push]

theorem Voice.bars_plain (v : Voice) (bs : List Bar) :
    ({ v with phrases := v.phrases ++ bs.map Phrase.bar } : Voice).bars = v.bars ++ bs := by
  have hb : (bs.map Phrase.bar).flatMap Phrase.bars = bs := by
    induction bs with
    | nil => rfl
    | cons b bs ih => rw [List.map_cons, List.flatMap_cons, ih]; rfl
  rw [Voice.bars, List.flatMap_append, hb]
  rfl

namespace Draft

/-- Everything that has been written so far is music, up to the notes an open tuplet waits for. -/
structure Sound (d : Draft) : Prop where
  bar : Notated [] d.bar
  tuplet : ∀ t, d.tuplet = some t → t.Started
  pending : ∀ b ∈ d.pending.bars, Bar.Sound b
  held : ∀ r, d.held = some r → ∀ b ∈ r.bars, Bar.Sound b
  voice : ∀ b ∈ d.voice.bars, Bar.Sound b

theorem Sound.unfilled {d : Draft} (h : d.Sound) : d.Unfilled :=
  fun t ht => (h.tuplet t ht).lt

theorem sound_empty (name : Option String) : (empty name).Sound := by
  refine ⟨.nil, ?_, ?_, ?_, ?_⟩
  all_goals simp [empty, Repeat.empty, Repeat.bars, Voice.empty, Voice.bars]

theorem Sound.storeHeld {d : Draft} (h : d.Sound) : d.storeHeld.Sound := by
  unfold Draft.storeHeld
  split
  · exact h
  · rename_i r hr
    refine ⟨h.bar, h.tuplet, h.pending, by simp, ?_⟩
    intro b hb
    rw [Voice.bars_push] at hb
    rcases List.mem_append.1 hb with hb | hb
    · exact h.voice b hb
    · exact h.held r hr b hb

theorem Sound.add {d : Draft} {es : List Element} (h : d.Sound) (hb : Beat es) :
    (d.add es).Sound := by
  cases ht : d.tuplet with
  | none =>
    rw [add_of_none d es ht]
    exact ⟨h.bar.append hb.notated, h.tuplet, h.pending, h.held, h.voice⟩
  | some t =>
    have hs := h.tuplet t ht
    have hn : Notated [] (t.elements ++ es) := hs.notated.append hb.notated
    by_cases hlt : t.notes + es.countP isNote < t.size.toNat
    · rw [add_of_lt d es t ht hlt]
      refine ⟨h.bar, ?_, h.pending, h.held, h.voice⟩
      rintro t' ⟨⟩
      refine ⟨hn, ?_, ?_, hlt⟩
      · intro e he
        rcases List.mem_append.1 he with he | he
        · exact hs.flat e he
        · exact hb.flat e he
      · rw [List.countP_append, hs.count]
    · have hle := Nat.le_of_not_lt hlt
      rw [add_of_le d es t ht hle]
      exact ⟨h.bar.append (.tuplet (hs.filled hb hle) hn .nil), by simp, h.pending, h.held, h.voice⟩

theorem Sound.mark {d : Draft} {size : UInt32} (h : d.Sound) : (d.mark size).Sound := by
  unfold Draft.mark
  split
  · rename_i h0
    subst h0
    have hf : Filled 0 [] 0 := ⟨by simp, rfl, rfl, fun _ => rfl, fun h0 => absurd rfl h0⟩
    exact ⟨h.bar.append (.tuplet hf .nil .nil), h.tuplet, h.pending, h.held, h.voice⟩
  · rename_i h0
    refine ⟨h.bar, ?_, h.pending, h.held, h.voice⟩
    rintro t ⟨⟩
    refine ⟨.nil, by simp [Tuplet.empty], rfl, ?_⟩
    exact Nat.pos_of_ne_zero fun hz => h0 (UInt32.toNat_inj.1 hz)

theorem bars_addBar (r : Repeat) (place : Section) (bar b : Bar)
    (hb : b ∈ (addBar r place bar).bars) : b ∈ r.bars ∨ b = bar := by
  cases place <;> simp only [addBar, Repeat.bars, List.mem_append, List.mem_singleton] at hb ⊢ <;>
    tauto

theorem Sound.closed {d : Draft} (h : d.Sound) : d.closed.Sound := by
  unfold Draft.closed
  split
  · exact h
  · rename_i hne
    refine ⟨.nil, h.tuplet, ?_, h.held, h.voice⟩
    intro b hb
    rcases bars_addBar _ _ _ b hb with hb | rfl
    · exact h.pending b hb
    · exact ⟨by simpa using hne, h.bar⟩

theorem Sound.storePlain {d : Draft} (h : d.Sound) : d.storePlain.Sound := by
  refine ⟨h.bar, h.tuplet, by simp [Draft.storePlain, Repeat.empty, Repeat.bars], h.held, ?_⟩
  intro b hb
  rw [Draft.storePlain, Voice.bars_plain] at hb
  rcases List.mem_append.1 hb with hb | hb
  · exact h.voice b hb
  · exact h.pending b (by simp [Repeat.bars, hb])

theorem Sound.openRepeat {d : Draft} (h : d.Sound) : d.openRepeat.Sound := by
  have hs := h.storePlain
  exact ⟨hs.bar, hs.tuplet, hs.pending, hs.held, hs.voice⟩

theorem Sound.storeRepeat {d : Draft} (h : d.Sound) : d.storeRepeat.Sound := by
  refine ⟨h.bar, h.tuplet, by simp [Draft.storeRepeat, Repeat.empty, Repeat.bars], h.held, ?_⟩
  intro b hb
  unfold Draft.storeRepeat at hb
  dsimp only at hb
  split at hb
  · exact h.voice b hb
  · change b ∈ (d.voice.push (.repeated d.pending)).bars at hb
    rw [Voice.bars_push] at hb
    rcases List.mem_append.1 hb with hb | hb
    · exact h.voice b hb
    · exact h.pending b hb

theorem Sound.holdRepeat {d : Draft} (h : d.Sound) : d.holdRepeat.Sound := by
  refine ⟨h.bar, h.tuplet, by simp [Draft.holdRepeat, Repeat.empty, Repeat.bars], ?_, h.voice⟩
  rintro r ⟨⟩
  exact h.pending

theorem Sound.turn {d d' : Draft} {line : Barline} (h : d.Sound) (ht : d.turn line = .ok d') :
    d'.Sound := by
  unfold Draft.turn at ht
  split at ht <;> simp only [Except.ok.injEq, reduceCtorEq] at ht <;> subst ht
  case h_1 | h_7 | h_10 | h_11 => exact h
  case h_2 => exact h.openRepeat
  case h_3 | h_5 | h_13 => exact h.storeRepeat
  case h_4 => exact h.storePlain
  case h_8 => exact h.holdRepeat
  case h_12 => exact h.storeRepeat.openRepeat

theorem Sound.barline {d d' : Draft} {line : Barline} (h : d.Sound)
    (hb : d.barline line = .ok d') : d'.Sound :=
  h.storeHeld.closed.turn (barline_eq_ok hb).2

theorem Sound.ending {d d' : Draft} {which : Ending} (h : d.Sound)
    (he : d.ending which = .ok d') : d'.Sound := by
  cases which with
  | first =>
    obtain ⟨-, -, rfl⟩ := ending_first_eq_ok he
    have hc := h.storeHeld.closed
    exact ⟨hc.bar, hc.tuplet, hc.pending, hc.held, hc.voice⟩
  | second =>
    obtain ⟨r, hr, -, rfl⟩ := ending_second_eq_ok he
    have hs : ({ d with held := none } : Draft).Sound :=
      ⟨h.bar, h.tuplet, h.pending, by simp, h.voice⟩
    have hc := hs.closed
    exact ⟨hc.bar, hc.tuplet, h.held r hr, hc.held, hc.voice⟩

theorem closed_name (d : Draft) : d.closed.voice.name = d.voice.name := by
  unfold closed
  split <;> rfl

theorem add_name (d : Draft) (es : List Element) : (d.add es).voice.name = d.voice.name := by
  unfold add
  split
  · rfl
  · dsimp only
    split <;> rfl

theorem mark_name (d : Draft) (size : UInt32) : (d.mark size).voice.name = d.voice.name := by
  unfold mark
  split <;> rfl

theorem storeRepeat_name (d : Draft) : d.storeRepeat.voice.name = d.voice.name := by
  unfold storeRepeat
  dsimp only
  split <;> rfl

theorem turn_name {d d' : Draft} {line : Barline} (h : d.turn line = .ok d') :
    d'.voice.name = d.voice.name := by
  unfold turn at h
  split at h <;> simp only [Except.ok.injEq, reduceCtorEq] at h <;> subst h
  case h_3 | h_5 | h_12 | h_13 => exact storeRepeat_name d
  all_goals rfl

theorem barline_name {d d' : Draft} {line : Barline} (h : d.barline line = .ok d') :
    d'.voice.name = d.voice.name := by
  rw [turn_name (barline_eq_ok h).2, closed_name, storeHeld_name]

theorem ending_name {d d' : Draft} {which : Ending} (h : d.ending which = .ok d') :
    d'.voice.name = d.voice.name := by
  cases which with
  | first =>
    obtain ⟨-, -, rfl⟩ := ending_first_eq_ok h
    exact (closed_name _).trans (storeHeld_name d)
  | second =>
    obtain ⟨r, -, -, rfl⟩ := ending_second_eq_ok h
    exact closed_name _

theorem fillTuplet_name (d : Draft) (t : Tuplet) (e : Element) :
    (d.fillTuplet t e).voice.name = d.voice.name := by
  unfold fillTuplet
  dsimp only
  split <;> rfl

theorem element_name {d d' : Draft} {e : Element} (h : d.element e = .ok d') :
    d'.voice.name = d.voice.name := by
  rw [← storeHeld_name d]
  unfold element at h
  dsimp only at h
  split at h
  · cases h
  · obtain rfl := Except.ok.inj h
    exact fillTuplet_name _ _ _
  · split at h <;> obtain rfl := Except.ok.inj h <;> rfl
  · obtain rfl := Except.ok.inj h
    rfl

theorem write_name {d d' : Draft} {stroke : Stroke} (h : d.write stroke = .ok d') :
    d'.voice.name = d.voice.name := by
  cases stroke with
  | element e => exact element_name h
  | barline line => exact barline_name h
  | ending which => exact ending_name h

def finished (d : Draft) : Voice :=
  match d.storeHeld.closed.place with
  | .normal | .repeated => d.storeHeld.closed.storePlain.voice
  | .firstEnding | .secondEnding => d.storeHeld.closed.storeRepeat.voice

theorem finish_eq (d : Draft) (h : d.tuplet = none) : d.finish = .ok d.finished := by
  unfold finish finished
  rw [h, closeBar_eq _ (by rw [storeHeld_tuplet, h])]
  cases hp : d.storeHeld.closed.place <;> simp [bind, Except.bind, hp, pure, Except.pure]

theorem finish_eq_ok {d : Draft} {v : Voice} (h : d.finish = .ok v) :
    d.tuplet = none ∧ v = d.finished := by
  cases ht : d.tuplet with
  | none =>
    rw [finish_eq d ht] at h
    simp only [Except.ok.injEq] at h
    exact ⟨rfl, h.symm⟩
  | some t =>
    rw [finish, ht] at h
    cases h

theorem Sound.finished {d : Draft} (h : d.Sound) : ∀ b ∈ d.finished.bars, Bar.Sound b := by
  unfold Draft.finished
  split
  · exact h.storeHeld.closed.storePlain.voice
  · exact h.storeHeld.closed.storePlain.voice
  · exact h.storeHeld.closed.storeRepeat.voice
  · exact h.storeHeld.closed.storeRepeat.voice

theorem finished_name (d : Draft) : d.finished.name = d.voice.name := by
  have hn : d.storeHeld.closed.voice.name = d.voice.name := by rw [closed_name, storeHeld_name]
  unfold finished
  split
  · exact hn
  · exact hn
  · exact (storeRepeat_name _).trans hn
  · exact (storeRepeat_name _).trans hn

end Draft

end Tunebook
