import Mathlib.Data.List.Induction
import Tunebook.Proofs.Tune.Assembly

namespace Tunebook

open Element

namespace Stroke

def mark (size : UInt32) : Stroke :=
  element (Tuplet.empty size).toElement

def isNote : Stroke → Bool
  | element e => e.isNote
  | barline _ | ending _ => false

/-- Bar lines, endings and tuplets wait until the tuplet before them has its notes. -/
def settles : Stroke → Bool
  | element e => e.isTuplet
  | barline _ | ending _ => true

/-- Every `x` of the past has one of the bar lines after it. -/
def Ended (x : Stroke) (lines : List Barline) (past : List Stroke) : Prop :=
  ∀ before between, past = before ++ x :: between → ∃ line ∈ lines, barline line ∈ between

/-- The last tuplet of the past has its notes. -/
def TupletFull (past : List Stroke) : Prop :=
  ∀ before size between, past = before ++ mark size :: between →
    (∀ other, mark other ∉ between) → size.toNat ≤ between.countP isNote

def secondEnds : List Barline :=
  [.double, .thickThin, .thinThick, .repeatEnd, .repeatStart]

/-- The order of strokes in a voice. -/
structure Lawful (ss : List Stroke) : Prop where
  /-- A first ending starts in the normal bars. -/
  first : ∀ past future, ss = past ++ ending .first :: future →
    Ended (ending .first) [.repeatEnd] past ∧ Ended (ending .second) secondEnds past
  /-- A second ending comes right after the end of a repeat, and that is the first one after the
  last first ending. -/
  second : ∀ past future, ss = past ++ ending .second :: future →
    ∃ before between, past = before ++ ending .first :: between ++ [barline .repeatEnd] ∧
      ending .first ∉ between ∧ barline .repeatEnd ∉ between
  start : ∀ past future, ss = past ++ barline .repeatStart :: future →
    Ended (ending .first) [.repeatEnd] past ∧ Ended (barline .repeatStart) [.repeatEnd] past
  full : ∀ past s future, ss = past ++ s :: future → s.settles = true → TupletFull past
  last : TupletFull ss

theorem ended_nil (x : Stroke) (lines : List Barline) : Ended x lines [] := by
  intro before between h
  simp at h

theorem ended_snoc (x s : Stroke) (lines : List Barline) (past : List Stroke) :
    Ended x lines (past ++ [s]) ↔
      s ≠ x ∧ (Ended x lines past ∨ ∃ line ∈ lines, s = barline line) := by
  constructor
  · intro h
    refine ⟨?_, ?_⟩
    · rintro rfl
      obtain ⟨line, -, hline⟩ := h past [] rfl
      cases hline
    · by_cases hs : ∃ line ∈ lines, s = barline line
      · exact Or.inr hs
      · refine Or.inl fun before between hpast => ?_
        obtain ⟨line, hline, hmem⟩ := h before (between ++ [s]) (by simp [hpast])
        rcases List.mem_append.1 hmem with hmem | hmem
        · exact ⟨line, hline, hmem⟩
        · exact absurd ⟨line, hline, (List.mem_singleton.1 hmem).symm⟩ hs
  · rintro ⟨hne, h⟩ before between hsplit
    rcases append_singleton_eq_append_cons.1 hsplit with ⟨-, rfl, -⟩ | ⟨rest, rfl, hpast⟩
    · exact absurd rfl hne
    · rcases h with h | ⟨line, hline, rfl⟩
      · obtain ⟨line, hline, hmem⟩ := h before rest hpast
        exact ⟨line, hline, List.mem_append_left _ hmem⟩
      · exact ⟨line, hline, by simp⟩

/-- Of those that have no such bar line after them, the last one. -/
theorem exists_last_of_not_ended {x : Stroke} {lines : List Barline} {past : List Stroke}
    (h : ¬Ended x lines past) : ∃ before between, past = before ++ x :: between ∧ x ∉ between ∧
      ∀ line ∈ lines, barline line ∉ between := by
  -- from the end of the past, where the first one that is met is the last one
  induction past using List.reverseRecOn with
  | nil => exact absurd (ended_nil x lines) h
  | append_singleton past s ih =>
    by_cases hs : s = x
    · exact ⟨past, [], by rw [hs], by simp, by simp⟩
    · rw [ended_snoc] at h
      have hopen : ¬Ended x lines past := fun he => h ⟨hs, Or.inl he⟩
      have hother : ∀ line ∈ lines, s ≠ barline line :=
        fun line hline he => h ⟨hs, Or.inr ⟨line, hline, he⟩⟩
      obtain ⟨before, between, rfl, hx, hfree⟩ := ih hopen
      refine ⟨before, between ++ [s], by simp, ?_, ?_⟩
      · simpa using ⟨hx, Ne.symm hs⟩
      · intro line hline
        simpa using ⟨hfree line hline, Ne.symm (hother line hline)⟩

/-- The size of the last tuplet and how many notes came after its mark. -/
def tallied (tally : Option (UInt32 × Nat)) : Stroke → Option (UInt32 × Nat)
  | element (.tuplet size _ _) => some (size, 0)
  | element (.note _) => tally.map fun c => (c.1, c.2 + 1)
  | _ => tally

def tally (past : List Stroke) : Option (UInt32 × Nat) :=
  past.foldl tallied none

def short (c : UInt32 × Nat) : Bool :=
  c.2 < c.1.toNat

theorem tally_snoc (past : List Stroke) (s : Stroke) :
    tally (past ++ [s]) = tallied (tally past) s := by
  rw [tally, List.foldl_append]
  rfl

theorem tallied_of_ne {s : Stroke} (hs : s.Bare) (hm : ∀ size, s ≠ mark size)
    (c : Option (UInt32 × Nat)) :
    tallied c s = c.map fun c => (c.1, c.2 + [s].countP isNote) := by
  cases s with
  | element e =>
    cases e with
    | tuplet size elements notes =>
      obtain ⟨rfl, rfl⟩ := hs
      exact absurd rfl (hm size)
    | _ => cases c <;> rfl
  | _ => cases c <;> rfl

theorem tally_eq_some {past : List Stroke} (hb : ∀ s ∈ past, s.Bare) {size : UInt32} {n : Nat} :
    tally past = some (size, n) ↔ ∃ before between, past = before ++ mark size :: between ∧
      (∀ other, mark other ∉ between) ∧ between.countP isNote = n := by
  induction past using List.reverseRecOn generalizing n with
  | nil => simp [tally]
  | append_singleton past s ih =>
    have ih := @ih fun t ht => hb t (List.mem_append_left _ ht)
    rw [tally_snoc]
    by_cases hmark : ∃ size, s = mark size
    · obtain ⟨k, rfl⟩ := hmark
      constructor
      · rintro ⟨⟩
        exact ⟨past, [], rfl, by simp, rfl⟩
      · rintro ⟨before, between, hsplit, hlast, rfl⟩
        rcases append_singleton_eq_append_cons.1 hsplit with ⟨-, hk, rfl⟩ | ⟨rest, rfl, -⟩
        · cases hk
          rfl
        · exact absurd (by simp) (hlast k)
    · have hm := not_exists.1 hmark
      rw [tallied_of_ne (hb s (by simp)) hm, Option.map_eq_some_iff]
      constructor
      · rintro ⟨⟨k, m⟩, htally, ⟨⟩⟩
        obtain ⟨before, between, rfl, hlast, rfl⟩ := ih.1 htally
        refine ⟨before, between ++ [s], by simp, ?_, List.countP_append⟩
        intro other
        simpa using ⟨hlast other, Ne.symm (hm other)⟩
      · rintro ⟨before, between, hsplit, hlast, rfl⟩
        rcases append_singleton_eq_append_cons.1 hsplit with ⟨-, rfl, -⟩ | ⟨rest, rfl, hpast⟩
        · exact absurd rfl (hm size)
        · refine ⟨(size, rest.countP isNote), ih.2 ⟨before, rest, hpast, ?_, rfl⟩, ?_⟩
          · exact fun other hmem => hlast other (List.mem_append_left _ hmem)
          · rw [List.countP_append]

theorem tupletFull_iff {past : List Stroke} (hb : ∀ s ∈ past, s.Bare) :
    TupletFull past ↔ (tally past).filter short = none := by
  rw [Option.filter_eq_none_iff]
  constructor
  · rintro h ⟨size, n⟩ htally
    obtain ⟨before, between, hpast, hlast, rfl⟩ := (tally_eq_some hb).1 htally
    simpa [short] using h before size between hpast hlast
  · intro h before size between hpast hlast
    simpa [short] using h _ ((tally_eq_some hb).2 ⟨before, between, hpast, hlast, rfl⟩)

/-- Whether the next stroke may be written after the past. -/
structure Fits (past : List Stroke) (s : Stroke) : Prop where
  first : s = ending .first →
    Ended (ending .first) [.repeatEnd] past ∧ Ended (ending .second) secondEnds past
  second : s = ending .second →
    ∃ earlier, past = earlier ++ [barline .repeatEnd] ∧
      ¬Ended (ending .first) [.repeatEnd] earlier
  start : s = barline .repeatStart →
    Ended (ending .first) [.repeatEnd] past ∧ Ended (barline .repeatStart) [.repeatEnd] past
  full : s.settles = true → TupletFull past

theorem lawful_iff (ss : List Stroke) :
    Lawful ss ↔ (∀ past s future, ss = past ++ s :: future → Fits past s) ∧ TupletFull ss := by
  constructor
  · intro h
    refine ⟨fun past s future hss => ⟨?_, ?_, ?_, h.full past s future hss⟩, h.last⟩
    · rintro rfl
      exact h.first past future hss
    · rintro rfl
      obtain ⟨before, between, rfl, -, hclosed⟩ := h.second past future hss
      refine ⟨_, rfl, fun hended => ?_⟩
      obtain ⟨line, hline, hmem⟩ := hended before between rfl
      obtain rfl := List.mem_singleton.1 hline
      exact hclosed hmem
    · rintro rfl
      exact h.start past future hss
  · rintro ⟨h, hlast⟩
    refine ⟨?_, ?_, ?_, fun past s future hss => (h past s future hss).full, hlast⟩
    · exact fun past future hss => (h past _ future hss).first rfl
    · intro past future hss
      obtain ⟨earlier, rfl, hopen⟩ := (h past _ future hss).second rfl
      obtain ⟨before, between, rfl, hfirst, hclosed⟩ := exists_last_of_not_ended hopen
      exact ⟨before, between, rfl, hfirst, hclosed _ (List.mem_singleton_self _)⟩
    · exact fun past future hss => (h past _ future hss).start rfl

end Stroke

/-- The place after a bar line. Where the bar line is refused it stays. -/
def Section.turned : Section → Barline → Section
  | .normal, .repeatStart | .secondEnding, .repeatStart => .repeated
  | .repeated, .repeatEnd | .firstEnding, .repeatEnd => .normal
  | .secondEnding, .single => .secondEnding
  | .secondEnding, _ => .normal
  | place, _ => place

namespace Section

theorem turned_eq_firstEnding (place : Section) (line : Barline) :
    place.turned line = .firstEnding ↔ place = .firstEnding ∧ line ≠ .repeatEnd := by
  cases place <;> cases line <;> decide

theorem turned_eq_secondEnding (place : Section) (line : Barline) :
    place.turned line = .secondEnding ↔ place = .secondEnding ∧ line ∉ Stroke.secondEnds := by
  cases place <;> cases line <;> decide

theorem turned_eq_repeated (place : Section) (line : Barline)
    (h : place.turned line = .repeated) :
    line = .repeatStart ∨ place = .repeated ∧ line ≠ .repeatEnd := by
  revert h
  cases place <;> cases line <;> decide

theorem turned_open (place : Section) (line : Barline)
    (h : line = .repeatStart ∧ place ≠ .repeated ∧ place ≠ .firstEnding ∨
      (place = .repeated ∨ place = .firstEnding) ∧ line ≠ .repeatEnd) :
    place.turned line = .repeated ∨ place.turned line = .firstEnding := by
  revert h
  cases place <;> cases line <;> decide

end Section

namespace Draft

open Stroke

theorem turn_ok (d : Draft) (line : Barline)
    (h : line = .repeatStart → d.place ≠ .repeated ∧ d.place ≠ .firstEnding) :
    ∃ d', d.turn line = .ok d' ∧ d'.place = d.place.turned line ∧ d'.tuplet = d.tuplet ∧
      (d'.held.isSome = true ↔
        d.held.isSome = true ∨ d.place = .firstEnding ∧ line = .repeatEnd) := by
  cases hp : d.place <;> cases line <;>
    simp_all [turn, Section.turned, openRepeat, storePlain, storeRepeat, holdRepeat]

theorem turn_start_eq_ok {d d' : Draft} (h : d.turn .repeatStart = .ok d') :
    d.place ≠ .repeated ∧ d.place ≠ .firstEnding := by
  constructor <;> intro hp <;> simp [turn, hp] at h

def counted (d : Draft) : Option (UInt32 × Nat) :=
  d.tuplet.map fun t => (t.size, t.notes)

/-- What a draft knows of the strokes that were written to it. In a first ending it does not know
whether a repeat was started, but only the end of the repeat leads on from there. -/
structure Remembers (d : Draft) (past : List Stroke) : Prop where
  bare : ∀ s ∈ past, s.Bare
  first : d.place = .firstEnding ↔ ¬Ended (.ending .first) [.repeatEnd] past
  second : d.place = .secondEnding ↔ ¬Ended (.ending .second) secondEnds past
  repeated : d.place = .repeated → ¬Ended (.barline .repeatStart) [.repeatEnd] past
  start : ¬Ended (.barline .repeatStart) [.repeatEnd] past →
    d.place = .repeated ∨ d.place = .firstEnding
  held : d.held.isSome = true ↔ ∃ earlier, past = earlier ++ [.barline .repeatEnd] ∧
    ¬Ended (.ending .first) [.repeatEnd] earlier
  tuplet : d.counted = (tally past).filter short

theorem remembers_empty (name : Option String) : (empty name).Remembers [] := by
  refine ⟨by simp, ?_, ?_, ?_, ?_, ?_, rfl⟩
  all_goals simp [empty, ended_nil]

theorem Remembers.tupletFull_iff {d : Draft} {past : List Stroke} (h : d.Remembers past) :
    TupletFull past ↔ d.tuplet = none := by
  rw [Stroke.tupletFull_iff h.bare, ← h.tuplet, counted, Option.map_eq_none_iff]

theorem counted_add {d : Draft} {past : List Stroke} {e : Element}
    (h : d.counted = (tally past).filter short) (he : e.isTuplet = false) :
    (d.add [e]).counted = (tally (past ++ [.element e])).filter short := by
  have hne : ∀ size, Stroke.element e ≠ Stroke.mark size := by
    rintro size ⟨⟩
    cases he
  have hbare : (Stroke.element e).Bare := by
    cases e <;> trivial
  have hcount : [Stroke.element e].countP Stroke.isNote = [e].countP Element.isNote := rfl
  rw [tally_snoc, tallied_of_ne hbare hne, hcount]
  cases ht : d.tuplet with
  | none =>
    rw [counted, ht] at h
    rw [counted, add_of_none d [e] ht, ht]
    symm
    rw [Option.map_none, Option.filter_eq_none_iff]
    intro c hc
    obtain ⟨c', hc', rfl⟩ := Option.map_eq_some_iff.1 hc
    have hfull : ¬short c' = true := Option.filter_eq_none_iff.1 h.symm c' hc'
    simp only [short, decide_eq_true_eq] at hfull ⊢
    omega
  | some t =>
    rw [counted, ht] at h
    obtain ⟨htally, -⟩ := Option.filter_eq_some_iff.1 h.symm
    rw [htally]
    by_cases hlt : t.notes + [e].countP Element.isNote < t.size.toNat
    · rw [add_of_lt d [e] t ht hlt]
      simpa [counted, Option.filter, short] using hlt
    · rw [add_of_le d [e] t ht (Nat.le_of_not_lt hlt)]
      simpa [counted, Option.filter, short] using hlt

theorem counted_mark (d : Draft) (past : List Stroke) (size : UInt32) (hd : d.tuplet = none) :
    (d.mark size).counted = (tally (past ++ [Stroke.mark size])).filter short := by
  have htally : tally (past ++ [Stroke.mark size]) = some (size, 0) := by
    rw [tally_snoc]
    rfl
  rw [htally, mark]
  by_cases hs : size = 0
  · rw [if_pos hs, counted, hd, hs]
    rfl
  · have hpos : 0 < size.toNat := Nat.pos_of_ne_zero fun h0 => hs (UInt32.toNat_inj.1 h0)
    rw [if_neg hs]
    simp [counted, Tuplet.empty, Option.filter, short, hpos]

theorem Remembers.unmoved {d d' : Draft} {past : List Stroke} {e : Element}
    (h : d.Remembers past) (he : e.Bare) (hplace : d'.place = d.place) (hheld : d'.held = none)
    (htuplet : d'.counted = (tally (past ++ [.element e])).filter short) :
    d'.Remembers (past ++ [.element e]) := by
  refine ⟨?_, ?_, ?_, ?_, ?_, ?_, htuplet⟩
  · simpa [or_imp, forall_and] using ⟨h.bare, he⟩
  · simp [hplace, h.first, ended_snoc]
  · simp [hplace, h.second, ended_snoc]
  · simpa [hplace, ended_snoc] using h.repeated
  · simpa [hplace, ended_snoc] using h.start
  · simp [hheld]

theorem Remembers.element {d : Draft} {past : List Stroke} {e : Element} (h : d.Remembers past)
    (he : e.Bare) (hf : Fits past (.element e)) :
    ∃ d', d.element e = .ok d' ∧ d'.Remembers (past ++ [.element e]) := by
  rcases he.cases with hflat | ⟨size, rfl⟩
  · obtain ⟨-, hplace, hheld⟩ := add_frame d.storeHeld [e]
    rw [storeHeld_place] at hplace
    rw [storeHeld_held] at hheld
    have hcounted : d.storeHeld.counted = (tally past).filter short := by
      rw [counted, storeHeld_tuplet]
      exact h.tuplet
    exact ⟨_, element_eq_add d e hflat, h.unmoved he hplace hheld (counted_add hcounted hflat)⟩
  · have ht : d.tuplet = none := h.tupletFull_iff.1 (hf.full rfl)
    obtain ⟨-, hplace, hheld⟩ := mark_frame d.storeHeld size
    rw [storeHeld_place] at hplace
    rw [storeHeld_held] at hheld
    exact ⟨_, element_mark d size ht,
      h.unmoved he hplace hheld (counted_mark _ past size (d.storeHeld_tuplet.trans ht))⟩

/-- A stroke that is no element leaves the notes of the last tuplet as they are. -/
theorem counted_settled {d' : Draft} {past : List Stroke} {s : Stroke} (hs : s.elements = [])
    (hfull : (tally past).filter short = none) (ht : d'.tuplet = none) :
    d'.counted = (tally (past ++ [s])).filter short := by
  have htally : tally (past ++ [s]) = tally past := by
    rw [tally_snoc]
    cases s with
    | element e => cases hs
    | _ => rfl
  rw [htally, hfull, counted, ht]
  rfl

theorem Remembers.barline {d : Draft} {past : List Stroke} {line : Barline}
    (h : d.Remembers past) (hf : Fits past (.barline line)) :
    ∃ d', d.barline line = .ok d' ∧ d'.Remembers (past ++ [.barline line]) := by
  have hfull := hf.full rfl
  have ht : d.tuplet = none := h.tupletFull_iff.1 hfull
  obtain ⟨hheld, htuplet, hplace, -⟩ := d.settled_frame
  have hstart : line = .repeatStart → d.place ≠ .repeated ∧ d.place ≠ .firstEnding := by
    -- in a repeat its start has not ended, and in a first ending the ending has not
    rintro rfl
    obtain ⟨hfirst, hrepeat⟩ := hf.start rfl
    exact ⟨fun hp => h.repeated hp hrepeat, fun hp => h.first.1 hp hfirst⟩
  obtain ⟨d', hd', hplace', htuplet', hheld'⟩ :=
    d.storeHeld.closed.turn_ok line (by rwa [hplace])
  rw [hplace] at hplace' hheld'
  rw [hheld] at hheld'
  refine ⟨d', (barline_eq d line ht).trans hd', ?_, ?_, ?_, ?_, ?_, ?_, ?_⟩
  · simpa [or_imp, forall_and, Stroke.Bare] using h.bare
  · simp [hplace', ended_snoc, Section.turned_eq_firstEnding, h.first]
  · simp [hplace', ended_snoc, Section.turned_eq_secondEnding, h.second]
  · intro hp
    rw [hplace'] at hp
    rcases Section.turned_eq_repeated _ _ hp with rfl | ⟨hrepeated, hline⟩
    · simp [ended_snoc]
    · have hopen := h.repeated hrepeated
      simp [ended_snoc, hopen, hline]
  · intro hopen
    rw [hplace']
    apply Section.turned_open
    by_cases hline : line = .repeatStart
    · exact Or.inl ⟨hline, hstart hline⟩
    · obtain ⟨hpast, hend⟩ :
          ¬Ended (.barline .repeatStart) [.repeatEnd] past ∧ line ≠ .repeatEnd := by
        simpa [ended_snoc, hline] using hopen
      exact Or.inr ⟨h.start hpast, hend⟩
  · simp [hheld', h.first, and_comm]
  · exact counted_settled rfl ((Stroke.tupletFull_iff h.bare).1 hfull)
      (htuplet'.trans (htuplet.trans ht))

theorem Remembers.ending_first {d : Draft} {past : List Stroke} (h : d.Remembers past)
    (hf : Fits past (.ending .first)) :
    ∃ d', d.ending .first = .ok d' ∧ d'.Remembers (past ++ [.ending .first]) := by
  have hfull := hf.full rfl
  have ht : d.tuplet = none := h.tupletFull_iff.1 hfull
  obtain ⟨hfirst, hsecond⟩ := hf.first rfl
  obtain ⟨hheld, htuplet, -, -⟩ := d.settled_frame
  have hplace : d.place = .normal ∨ d.place = .repeated := by
    have hne : d.place ≠ .firstEnding := fun hp => h.first.1 hp hfirst
    have hne' : d.place ≠ .secondEnding := fun hp => h.second.1 hp hsecond
    cases hp : d.place <;> simp [hp] at hne hne' ⊢
  refine ⟨_, ending_first_eq d ht hplace, ?_, ?_, ?_, ?_, ?_, ?_, ?_⟩
  · simpa [or_imp, forall_and, Stroke.Bare] using h.bare
  · simp [ended_snoc]
  · simp [ended_snoc, hsecond]
  · simp
  · simp
  · simp [hheld]
  · exact counted_settled rfl ((Stroke.tupletFull_iff h.bare).1 hfull) (htuplet.trans ht)

/-- The end of the repeat that comes right before it has ended everything else. -/
theorem Remembers.ending_second {d : Draft} {past : List Stroke} (h : d.Remembers past)
    (hf : Fits past (.ending .second)) :
    ∃ d', d.ending .second = .ok d' ∧ d'.Remembers (past ++ [.ending .second]) := by
  have hfull := hf.full rfl
  have ht : d.tuplet = none := h.tupletFull_iff.1 hfull
  obtain ⟨r, hr⟩ := Option.isSome_iff_exists.1 (h.held.2 (hf.second rfl))
  obtain ⟨earlier, hpast, -⟩ := hf.second rfl
  have hended : ∀ x ≠ .barline .repeatEnd, Ended x [.repeatEnd] past := by
    intro x hx
    rw [hpast, ended_snoc]
    exact ⟨hx.symm, Or.inr ⟨_, List.mem_singleton_self _, rfl⟩⟩
  obtain ⟨-, hheld, htuplet, -, -⟩ := ({ d with held := none } : Draft).closed_frame
  refine ⟨_, ending_second_eq d r ht hr, ?_, ?_, ?_, ?_, ?_, ?_, ?_⟩
  · simpa [or_imp, forall_and, Stroke.Bare] using h.bare
  · simp [ended_snoc, hended]
  · simp [ended_snoc]
  · simp
  · simp [ended_snoc, hended]
  · simp [hheld]
  · exact counted_settled rfl ((Stroke.tupletFull_iff h.bare).1 hfull) (htuplet.trans ht)

/-- A stroke that fits is written, and remembered with the others. -/
theorem Remembers.write {d : Draft} {past : List Stroke} {s : Stroke} (h : d.Remembers past)
    (hs : s.Bare) (hf : Fits past s) :
    ∃ d', d.write s = .ok d' ∧ d'.Remembers (past ++ [s]) := by
  cases s with
  | element e => exact h.element hs hf
  | barline line => exact h.barline hf
  | ending which =>
    cases which with
    | first => exact h.ending_first hf
    | second => exact h.ending_second hf

theorem Remembers.fits {d d' : Draft} {past : List Stroke} {s : Stroke} (h : d.Remembers past)
    (hs : s.Bare) (hw : d.write s = .ok d') : Fits past s := by
  cases s with
  | element e =>
    refine ⟨by simp, by simp, by simp, ?_⟩
    intro hsettles
    rcases Element.Bare.cases hs with hflat | ⟨size, rfl⟩
    · rw [Stroke.settles, hflat] at hsettles
      cases hsettles
    · exact h.tupletFull_iff.2 (element_mark_tuplet hw)
  | barline line =>
    obtain ⟨htuplet, hturn⟩ := barline_eq_ok hw
    refine ⟨by simp, by simp, ?_, fun _ => h.tupletFull_iff.2 htuplet⟩
    rintro ⟨⟩
    obtain ⟨hrepeated, hfirst⟩ := turn_start_eq_ok hturn
    rw [d.settled_frame.2.2.1] at hrepeated hfirst
    have hended : Ended (.ending .first) [.repeatEnd] past :=
      Classical.not_not.1 fun hopen => hfirst (h.first.2 hopen)
    refine ⟨hended, Classical.not_not.1 fun hopen => ?_⟩
    rcases h.start hopen with hp | hp
    · exact hrepeated hp
    · exact hfirst hp
  | ending which =>
    cases which with
    | first =>
      obtain ⟨hplace, htuplet, -⟩ := ending_first_eq_ok hw
      refine ⟨fun _ => ⟨?_, ?_⟩, by simp, by simp, fun _ => h.tupletFull_iff.2 htuplet⟩
      · refine Classical.not_not.1 fun hopen => ?_
        rw [h.first.2 hopen] at hplace
        simp at hplace
      · refine Classical.not_not.1 fun hopen => ?_
        rw [h.second.2 hopen] at hplace
        simp at hplace
    | second =>
      obtain ⟨r, hheld, htuplet, -⟩ := ending_second_eq_ok hw
      refine ⟨by simp, fun _ => h.held.1 ?_, by simp, fun _ => h.tupletFull_iff.2 htuplet⟩
      rw [hheld]
      rfl

theorem Remembers.writeAll_iff {d : Draft} {past : List Stroke} (h : d.Remembers past)
    (ss : List Stroke) (hb : ∀ s ∈ ss, s.Bare) :
    (∃ v, d.writeAll ss >>= finish = .ok v) ↔
      (∀ before s after, ss = before ++ s :: after → Fits (past ++ before) s) ∧
        TupletFull (past ++ ss) := by
  -- each stroke that is written moves from the rest to the past
  induction ss generalizing d past with
  | nil =>
    rw [List.append_nil, h.tupletFull_iff]
    constructor
    · rintro ⟨v, hv⟩
      refine ⟨?_, (finish_eq_ok hv).1⟩
      intro before s after hsplit
      simp at hsplit
    · rintro ⟨-, ht⟩
      exact ⟨_, finish_eq d ht⟩
  | cons s ss ih =>
    rw [List.forall_mem_cons] at hb
    have hcons : d.writeAll (s :: ss) >>= finish =
        d.write s >>= fun d => d.writeAll ss >>= finish := by
      rw [writeAll, List.foldlM_cons, bind_assoc]
      rfl
    rw [hcons, forall_split_cons, List.append_nil]
    cases hw : d.write s with
    | error e =>
      constructor
      · rintro ⟨v, hv⟩
        cases hv
      · rintro ⟨⟨hf, -⟩, -⟩
        obtain ⟨d', hd', -⟩ := h.write hb.1 hf
        rw [hw] at hd'
        cases hd'
    | ok d' =>
      have hf := h.fits hb.1 hw
      obtain ⟨d'', hd'', hnext⟩ := h.write hb.1 hf
      obtain rfl : d' = d'' := by simpa [hw] using hd''
      have hrest := ih hnext hb.2
      simp only [List.append_assoc, List.singleton_append] at hrest
      change (∃ v, d'.writeAll ss >>= finish = .ok v) ↔ _
      rw [hrest]
      simp only [hf, true_and]

/-- Nothing else decides: not what the notes are, nor how many bars there are. -/
theorem finish_ok_iff_lawful (name : Option String) (strokes : List Stroke)
    (hb : ∀ s ∈ strokes, s.Bare) :
    (∃ v, (empty name).writeAll strokes >>= finish = .ok v) ↔ Lawful strokes := by
  rw [(remembers_empty name).writeAll_iff strokes hb, lawful_iff]
  rfl

/-- A first ending that is opened twice, with a double bar line between. -/
def reopenedScore : List Stroke :=
  [.ending .first, .element (.rest .unit), .barline .double, .ending .first]

theorem finish_ok_iff_lawful_endings : Lawful endingsScore ∧ ¬Lawful reopenedScore := by
  have hendings : ∀ s ∈ endingsScore, s.Bare := by
    simp [endingsScore, Stroke.Bare, Element.Bare, Tuplet.empty, Tuplet.toElement]
  have hreopened : ∀ s ∈ reopenedScore, s.Bare := by
    simp [reopenedScore, Stroke.Bare, Element.Bare]
  refine ⟨(finish_ok_iff_lawful none endingsScore hendings).1 ⟨_, rfl⟩, fun h => ?_⟩
  obtain ⟨v, hv⟩ := (finish_ok_iff_lawful none reopenedScore hreopened).2 h
  cases hv

end Draft

end Tunebook
