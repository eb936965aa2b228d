import Mathlib.Data.List.Forall2
import Tunebook.Proofs.Playback.Resolution

namespace Tunebook

/-- A note that sounds: its pitch as written, the length that governs it, and the scale of the
tuplet around it. -/
structure Sounding where
  pitch : Pitch
  length : Duration
  scale : Duration
  voice : Nat

/-- The pitches of a leaf, which last as long as it does. -/
def Leaf.soundings (voice : Nat) (l : Leaf) : List Sounding :=
  l.pitches.map fun pitch => ⟨pitch, l.length, l.scale, voice⟩

def Voice.soundings (index : Nat) (v : Voice) : List Sounding :=
  v.leaves.flatMap (Leaf.soundings index)

def Tune.soundings (t : Tune) : List Sounding :=
  t.voices.zipIdx.flatMap fun v => v.1.soundings v.2

/-- The event that a sounding gives. -/
structure Sounding.PlayedAs (c : Clock) (s : Sounding) (e : NoteEvent) : Prop where
  voice : e.voice = s.voice
  pitch : e.pitch.alike s.pitch = true
  ticks : c.ticks? s.scale s.length = some e.duration

namespace Part

theorem sound_playedAs {part : Part} {scale d : Duration} {ticks : UInt32} (p : Playhead)
    (pitch : Pitch) (h : part.clock.ticks? scale d = some ticks) :
    Sounding.PlayedAs part.clock ⟨pitch, d, scale, part.voice⟩ (part.sound p ticks pitch) := by
  refine ⟨rfl, ?_, h⟩
  rw [sound, Scope.resolve]
  split <;> simp [Pitch.alike]

theorem item?_playedAs {part : Part} {p q : Playhead} {item : Item} {events : List NoteEvent}
    (h : part.item? p item = some (events, q)) :
    List.Forall₂ (Sounding.PlayedAs part.clock)
      (item.leaf?.toList.flatMap (Leaf.soundings part.voice)) events := by
  cases item with
  | sign letter value =>
    obtain ⟨rfl, -⟩ := Prod.mk.inj (Option.some.inj h)
    exact .nil
  | leaf l =>
    simp only [item?, Option.bind_eq_some_iff, Option.map_eq_some_iff, Prod.mk.injEq] at h
    obtain ⟨ticks, hticks, next, -, rfl, -⟩ := h
    rw [Item.leaf?, Option.toList_some, List.flatMap_singleton, Leaf.soundings,
      List.forall₂_map_left_iff, List.forall₂_map_right_iff, List.forall₂_same]
    exact fun pitch _ => sound_playedAs p pitch hticks

theorem items?_playedAs {part : Part} {p q : Playhead} {items : List Item}
    {events : List NoteEvent} (h : part.items? p items = some (events, q)) :
    List.Forall₂ (Sounding.PlayedAs part.clock)
      ((items.filterMap Item.leaf?).flatMap (Leaf.soundings part.voice)) events := by
  induction items generalizing p events with
  | nil =>
    obtain ⟨rfl, -⟩ := Prod.mk.inj (Option.some.inj h)
    exact .nil
  | cons item items ih =>
    simp only [items?, Option.bind_eq_some_iff, Option.map_eq_some_iff, Prod.mk.injEq] at h
    obtain ⟨⟨first, middle⟩, hfirst, ⟨others, last⟩, hothers, rfl, rfl⟩ := h
    rw [Item.filterMap_leaf?_cons, List.flatMap_append]
    exact List.rel_append (item?_playedAs hfirst) (ih hothers)

theorem bars?_playedAs {part : Part} {key : KeySignature} {tick : UInt32} {bs : List Bar}
    {events : List NoteEvent} (h : part.bars? key tick bs = some events) :
    List.Forall₂ (Sounding.PlayedAs part.clock)
      ((bs.flatMap fun b => (Bar.items b).filterMap Item.leaf?).flatMap
        (Leaf.soundings part.voice)) events := by
  induction bs generalizing tick events with
  | nil =>
    obtain rfl := Option.some.inj h
    exact .nil
  | cons b bs ih =>
    simp only [bars?_cons, Option.bind_eq_some_iff, Option.map_eq_some_iff] at h
    obtain ⟨⟨first, middle⟩, hfirst, others, hothers, rfl⟩ := h
    rw [List.flatMap_cons, List.flatMap_append]
    exact List.rel_append (items?_playedAs hfirst) (ih hothers)

end Part

theorem Tune.events?_playedAs {t : Tune} {ticks : UInt32} {events : List NoteEvent}
    (h : t.events? ticks = some events) :
    List.Forall₂ (Sounding.PlayedAs ⟨ticks, t.defaultLength⟩) t.soundings events := by
  obtain ⟨parts, hparts, rfl⟩ := events?_eq_some_iff.1 h
  unfold soundings
  rw [List.flatMap]
  apply List.rel_flatten
  rw [List.forall₂_map_left_iff]
  refine hparts.imp ?_
  intro v es hes
  exact Part.bars?_playedAs hes

theorem Tune.mem_soundings {t : Tune} {s : Sounding} (h : s ∈ t.soundings) :
    ∃ v ∈ t.voices, ∃ b ∈ v.played, ∃ l ∈ Bar.leaves b, s.length = l.length ∧ s.scale = l.scale := by
  obtain ⟨⟨v, index⟩, hv, hs⟩ := List.mem_flatMap.1 h
  obtain ⟨l, hl, hs⟩ := List.mem_flatMap.1 hs
  obtain ⟨b, hb, hl⟩ := List.mem_flatMap.1 hl
  obtain ⟨pitch, -, rfl⟩ := List.mem_map.1 hs
  exact ⟨v, List.fst_mem_of_mem_zipIdx hv, b, hb, l, hl, rfl, rfl⟩

theorem Tune.resolution?_dvd {t : Tune} {ticks : UInt32} (h : t.resolution? = some ticks) :
    ∀ s ∈ t.soundings, s.length.den.toNat ∣ ticks.toNat := by
  intro s hs
  obtain ⟨v, hv, b, hb, l, hl, hlength, -⟩ := mem_soundings hs
  rw [hlength]
  exact den_dvd_resolution? h hv hb hl

end Tunebook
