import Tunebook.Proofs.Playback.Items

namespace Tunebook

def lastSign? (letter : Letter) (items : List Item) : Option Int8 :=
  (items.filterMap (Item.sign? letter)).getLast?

namespace KeySignature

/-- A pitch as it sounds after the items `earlier` of its bar. -/
def altered (key : KeySignature) (earlier : List Item) (pitch : Pitch) : Pitch :=
  { pitch with
    accidental :=
      match lastSign? pitch.letter earlier with
      | some value => value
      | none => if pitch.letter ∈ key.letters then key.shift else pitch.accidental }

/-- The accidentals in force after the items `earlier` of a bar. -/
def inForce (key : KeySignature) (earlier : List Item) : Scope :=
  fun letter => (lastSign? letter earlier).or (key.alteration? letter)

end KeySignature

def Bar.sounds (key : KeySignature) (b : Bar) : List Pitch :=
  (withEarlier (Bar.items b)).flatMap fun x => x.2.pitches.map (key.altered x.1)

theorem lastSign?_append (letter : Letter) (items : List Item) (item : Item) :
    lastSign? letter (items ++ [item]) = (item.sign? letter).or (lastSign? letter items) := by
  unfold lastSign?
  rw [List.filterMap_append, List.getLast?_append]
  cases hs : item.sign? letter with
  | none => simp [hs]
  | some value => simp [hs]

namespace KeySignature

theorem inForce_nil (key : KeySignature) : key.inForce [] = key.alteration? := rfl

theorem resolve_inForce (key : KeySignature) (earlier : List Item) (pitch : Pitch) :
    (key.inForce earlier).resolve pitch = key.altered earlier pitch := by
  unfold Scope.resolve altered inForce
  cases lastSign? pitch.letter earlier with
  | some value => rfl
  | none =>
    rw [Option.none_or, alteration?]
    by_cases hm : pitch.letter ∈ key.letters
    · simp [hm]
    · simp [hm]

theorem inForce_sign (key : KeySignature) (earlier : List Item) (letter : Letter) (value : Int8) :
    key.inForce (earlier ++ [.sign letter value]) = (key.inForce earlier).record letter value := by
  funext l
  unfold inForce Scope.record
  rw [lastSign?_append, Item.sign?]
  by_cases hl : l = letter
  · simp [hl]
  · have hne : ¬letter = l := fun h => hl h.symm
    simp [hl, hne]

theorem inForce_leaf (key : KeySignature) (earlier : List Item) (l : Leaf) :
    key.inForce (earlier ++ [.leaf l]) = key.inForce earlier := by
  funext letter
  unfold inForce
  rw [lastSign?_append, Item.sign?, Option.none_or]

end KeySignature

def NoteEvent.voiced (e : NoteEvent) : Nat × Pitch :=
  (e.voice, e.pitch)

namespace Part

/-- One item: what sounds is altered by what stands earlier, and what is in force then counts this
item as well. -/
theorem item?_voiced {part : Part} {key : KeySignature} {p q : Playhead} {earlier : List Item}
    {item : Item} {events : List NoteEvent} (hp : p.scope = key.inForce earlier)
    (h : part.item? p item = some (events, q)) :
    q.scope = key.inForce (earlier ++ [item]) ∧
      events.map NoteEvent.voiced =
        item.pitches.map fun pitch => (part.voice, key.altered earlier pitch) := by
  cases item with
  | sign letter value =>
    obtain ⟨rfl, rfl⟩ := Prod.mk.inj (Option.some.inj h)
    refine ⟨?_, rfl⟩
    rw [KeySignature.inForce_sign, ← hp]
  | leaf l =>
    simp only [item?, Option.bind_eq_some_iff, Option.map_eq_some_iff, Prod.mk.injEq] at h
    obtain ⟨n, -, next, hnext, rfl, rfl⟩ := h
    constructor
    · rw [KeySignature.inForce_leaf, ← hp]
      exact (Playhead.advance?_eq_some_iff.1 hnext).2
    · rw [List.map_map]
      apply List.map_congr_left
      intro pitch _
      rw [Function.comp_apply, sound, NoteEvent.voiced, hp, KeySignature.resolve_inForce]

theorem items?_voiced {part : Part} {key : KeySignature} {p q : Playhead} {earlier items : List Item}
    {events : List NoteEvent} (hp : p.scope = key.inForce earlier)
    (h : part.items? p items = some (events, q)) :
    events.map NoteEvent.voiced =
      (withEarlier items).flatMap fun x =>
        x.2.pitches.map fun pitch => (part.voice, key.altered (earlier ++ x.1) pitch) := by
  induction items generalizing p earlier events with
  | nil =>
    obtain ⟨rfl, rfl⟩ := Prod.mk.inj (Option.some.inj h)
    rfl
  | cons item items ih =>
    simp only [items?, Option.bind_eq_some_iff, Option.map_eq_some_iff, Prod.mk.injEq] at h
    obtain ⟨⟨first, middle⟩, hfirst, ⟨others, last⟩, hothers, rfl, rfl⟩ := h
    obtain ⟨hmiddle, hvoiced⟩ := item?_voiced hp hfirst
    have hrest := ih hmiddle hothers
    rw [withEarlier_cons, List.flatMap_cons, List.flatMap_map, List.map_append, hvoiced, hrest]
    simp only [List.append_nil, List.append_assoc, List.singleton_append]

/-- Each bar starts from the key alone. -/
theorem bars?_voiced {part : Part} {key : KeySignature} {tick : UInt32} {bs : List Bar}
    {events : List NoteEvent} (h : part.bars? key tick bs = some events) :
    events.map NoteEvent.voiced =
      bs.flatMap fun b => (Bar.sounds key b).map fun pitch => (part.voice, pitch) := by
  induction bs generalizing tick events with
  | nil =>
    obtain rfl := Option.some.inj h
    rfl
  | cons b bs ih =>
    simp only [bars?_cons, Option.bind_eq_some_iff, Option.map_eq_some_iff] at h
    obtain ⟨⟨first, middle⟩, hfirst, others, hothers, rfl⟩ := h
    have hbar := items?_voiced key.inForce_nil.symm hfirst
    rw [List.map_append, hbar, ih hothers, List.flatMap_cons, Bar.sounds, List.map_flatMap]
    simp only [List.nil_append, List.map_map, Function.comp_def]

end Part

namespace Tune

/-- Whatever tune is played: one played bar after the other, each written note sounds with its
letter and octave and with the accidental that the bar, the key or else the note itself gives it.
What a bar sounds depends on the key and the bar alone. -/
theorem events?_voiced (t : Tune) (ticks : UInt32) (events : List NoteEvent)
    (h : t.events? ticks = some events) :
    events.map NoteEvent.voiced =
      t.voices.zipIdx.flatMap fun v =>
        v.1.played.flatMap fun b => (Bar.sounds t.key b).map fun pitch => (v.2, pitch) := by
  obtain ⟨parts, hparts, rfl⟩ := events?_eq_some_iff.1 h
  apply map_flatten_of_forall₂
  refine hparts.imp ?_
  intro v es hes
  exact Part.bars?_voiced hes

/-- A sharp inside a tuplet, for a note of another octave after it; a natural against the key, in
a bar that is repeated; and a note that no sign is for. -/
def signs : Tune :=
  let note (letter : Letter) (octave : Int8) : Element := .note ⟨⟨letter, octave, 0⟩, .unit⟩
  let tuplet : Element := .tuplet 2 [note .c 0, .accidental ⟨.c, 0, 0⟩ 1, note .c 0] 2
  { blank with
    key := ⟨"G", [.f], 1⟩
    voices := [⟨none, [.bar [tuplet, note .c 1, note .f 0],
      .repeated ⟨[[note .f 0, .accidental ⟨.f, 0, 0⟩ 0, note .f 0, note .c 0]], [], []⟩], false⟩] }

theorem events?_voiced_signs :
    ∃ events, signs.events? 4 = some events ∧
      events.map (fun e => e.pitch.accidental) = [0, 1, 1, 1, 1, 0, 0, 1, 0, 0] ∧
      events.map NoteEvent.voiced =
        signs.voices.zipIdx.flatMap fun v =>
          v.1.played.flatMap fun b => (Bar.sounds signs.key b).map fun pitch => (v.2, pitch) := by
  have hsome : (signs.events? 4).isSome = true := by decide +kernel
  have hlist : (signs.events? 4).map (List.map fun e => e.pitch.accidental) =
      some [0, 1, 1, 1, 1, 0, 0, 1, 0, 0] := by decide +kernel
  obtain ⟨events, h⟩ := Option.isSome_iff_exists.1 hsome
  rw [h] at hlist
  exact ⟨events, h, Option.some.inj hlist, events?_voiced signs 4 events h⟩

end Tune

end Tunebook
