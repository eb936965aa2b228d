import Tunebook.Playback.Event
import Tunebook.Proofs.Lists

namespace Tunebook

/-- What takes time: the pitches that start together, none of them for a rest, the length that
governs them, and the scale of the tuplet directly around them. -/
structure Leaf where
  pitches : List Pitch
  length : Duration
  scale : Duration

inductive Item where
  | sign (letter : Letter) (value : Int8)
  | leaf (l : Leaf)

namespace Item

def leaf? : Item → Option Leaf
  | sign .. => none
  | leaf l => some l

def sign? (letter : Letter) : Item → Option Int8
  | sign l value => if l = letter then some value else none
  | leaf _ => none

def pitches : Item → List Pitch
  | sign .. => []
  | leaf l => l.pitches

theorem filterMap_leaf?_cons (item : Item) (items : List Item) :
    (item :: items).filterMap Item.leaf? = item.leaf?.toList ++ items.filterMap Item.leaf? := by
  cases item <;> rfl

end Item

namespace Element

mutual

/-- A chord is as long as the first of its notes. -/
def items (scale : Duration) : Element → List Item
  | note n => [.leaf ⟨[n.pitch], n.duration, scale⟩]
  | rest d => [.leaf ⟨[], d, scale⟩]
  | accidental pitch value => [.sign pitch.letter value]
  | chord notes => [.leaf ⟨notes.map Note.pitch, chordDuration notes, scale⟩]
  | tuplet size elements _ => itemsAll (tupletScale size) elements

def itemsAll (scale : Duration) : List Element → List Item
  | [] => []
  | e :: es => items scale e ++ itemsAll scale es

end

end Element

def Bar.items (b : Bar) : List Item :=
  Element.itemsAll .unit b

def Bar.leaves (b : Bar) : List Leaf :=
  (Bar.items b).filterMap Item.leaf?

/-- Everything in the voice that takes time, in the order played. -/
def Voice.leaves (v : Voice) : List Leaf :=
  v.played.flatMap fun b => (Bar.items b).filterMap Item.leaf?

theorem Playhead.advance?_eq_some_iff {p q : Playhead} {n : UInt32} :
    p.advance? n = some q ↔
      q.tick.toNat = p.tick.toNat + n.toNat ∧ q.scope = p.scope := by
  unfold advance?
  rw [Option.map_eq_some_iff]
  constructor
  · rintro ⟨tick, htick, rfl⟩
    exact ⟨Word.fit32_eq_some_iff.1 htick, rfl⟩
  · rintro ⟨htick, hscope⟩
    refine ⟨q.tick, Word.fit32_eq_some_iff.2 htick, ?_⟩
    cases q
    simp_all

namespace Part

def item? (part : Part) (p : Playhead) : Item → Option (List NoteEvent × Playhead)
  | .sign letter value => some ([], { p with scope := p.scope.record letter value })
  | .leaf l =>
    (part.clock.ticks? l.scale l.length).bind fun ticks =>
      (p.advance? ticks).map fun next => (l.pitches.map (part.sound p ticks), next)

def items? (part : Part) (p : Playhead) : List Item → Option (List NoteEvent × Playhead)
  | [] => some ([], p)
  | item :: items =>
    (part.item? p item).bind fun first =>
      (part.items? first.2 items).map fun others => (first.1 ++ others.1, others.2)

theorem items?_singleton (part : Part) (p : Playhead) (item : Item) :
    part.items? p [item] = part.item? p item := by
  rw [items?]
  cases part.item? p item with
  | none => rfl
  | some first => simp [items?]

theorem items?_append (part : Part) (p : Playhead) (is js : List Item) :
    part.items? p (is ++ js) =
      (part.items? p is).bind fun first =>
        (part.items? first.2 js).map fun others => (first.1 ++ others.1, others.2) := by
  induction is generalizing p with
  | nil => simp [items?]
  | cons item is ih =>
    rw [List.cons_append, items?, items?]
    cases part.item? p item with
    | none => rfl
    | some first =>
      simp only [Option.bind_some, ih]
      cases part.items? first.2 is with
      | none => rfl
      | some second => simp [Function.comp_def]

mutual

theorem element?_eq_items? (part : Part) (scale : Duration) (p : Playhead) (e : Element) :
    part.element? scale p e = part.items? p (e.items scale) := by
  cases e with
  | note n =>
    rw [element?, Element.items, items?_singleton, item?]
    simp only [Option.map_eq_bind]
    rfl
  | rest d =>
    rw [element?, Element.items, items?_singleton, item?]
    simp only [Option.map_eq_bind]
    rfl
  | accidental pitch value => rw [element?, Element.items, items?_singleton, item?]
  | chord notes =>
    rw [element?, Element.items, items?_singleton, item?]
    simp only [Option.map_eq_bind, List.map_map]
    rfl
  | tuplet size elements n =>
    rw [element?, Element.items]
    exact elements?_eq_items? part (tupletScale size) p elements

theorem elements?_eq_items? (part : Part) (scale : Duration) (p : Playhead) (es : List Element) :
    part.elements? scale p es = part.items? p (Element.itemsAll scale es) := by
  cases es with
  | nil => rw [elements?, Element.itemsAll, items?]
  | cons e es =>
    rw [elements?, Element.itemsAll, items?_append, element?_eq_items? part scale p e]
    simp only [elements?_eq_items? part scale _ es, Option.map_eq_bind]
    rfl

end

theorem bars?_cons (part : Part) (key : KeySignature) (tick : UInt32) (b : Bar) (bs : List Bar) :
    part.bars? key tick (b :: bs) =
      (part.items? ⟨tick, key.alteration?⟩ (Bar.items b)).bind fun first =>
        (part.bars? key first.2.tick bs).map (first.1 ++ ·) := by
  rw [bars?, elements?_eq_items?]
  simp only [Option.map_eq_bind]
  rfl

end Part

namespace Tune

def clock (t : Tune) (ticks : UInt32) : Clock :=
  ⟨ticks, t.defaultLength⟩

theorem events?_eq_some_iff {t : Tune} {ticks : UInt32} {events : List NoteEvent} :
    t.events? ticks = some events ↔
      ∃ parts, List.Forall₂
          (fun v es => Part.bars? ⟨t.clock ticks, v.2⟩ t.key 0 v.1.played = some es)
          t.voices.zipIdx parts ∧
        parts.flatten = events := by
  simp only [events?, Option.bind_eq_bind, Option.bind_eq_some_iff, Option.pure_def,
    Option.some.injEq, mapM_eq_some_iff]
  rfl

end Tune

end Tunebook
