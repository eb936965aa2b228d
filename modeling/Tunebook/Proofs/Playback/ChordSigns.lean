import Tunebook.Proofs.Playback.Accidentals
import Tunebook.Proofs.Playback.Settling
import Tunebook.Proofs.Tune.RoundTrip

namespace Tunebook

namespace Scope

def after (s : Scope) : List Item → Scope
  | [] => s
  | .sign letter value :: items => after (s.record letter value) items
  | .leaf _ :: items => after s items

def sounds (s : Scope) : List Item → List Pitch
  | [] => []
  | .sign letter value :: items => sounds (s.record letter value) items
  | .leaf l :: items => l.pitches.map s.resolve ++ sounds s items

theorem after_append (s : Scope) (is js : List Item) :
    s.after (is ++ js) = (s.after is).after js := by
  induction is generalizing s with
  | nil => rfl
  | cons item is ih => cases item <;> exact ih _

theorem sounds_append (s : Scope) (is js : List Item) :
    s.sounds (is ++ js) = s.sounds is ++ (s.after is).sounds js := by
  induction is generalizing s with
  | nil => rfl
  | cons item is ih =>
    cases item with
    | sign letter value => exact ih _
    | leaf l =>
      rw [List.cons_append, sounds, sounds, ih, List.append_assoc]
      rfl

theorem sounds_run (s : Scope) (run : Run) : s.sounds run.items = [] := by
  induction run generalizing s with
  | nil => rfl
  | cons a run ih => exact ih _

theorem length_sounds (s : Scope) (items : List Item) :
    (s.sounds items).length = ((items.filterMap Item.leaf?).flatMap Leaf.pitches).length := by
  induction items generalizing s with
  | nil => rfl
  | cons item items ih =>
    cases item with
    | sign letter value => exact ih _
    | leaf l =>
      rw [sounds, List.length_append, List.length_map, ih, List.filterMap_cons, Item.leaf?,
        List.flatMap_cons, List.length_append]

end Scope

theorem lastSign?_cons (letter : Letter) (item : Item) (items : List Item) :
    lastSign? letter (item :: items) = (lastSign? letter items).or (item.sign? letter) := by
  unfold lastSign?
  cases hs : item.sign? letter with
  | none => rw [List.filterMap_cons_none hs, Option.or_none]
  | some value =>
    rw [List.filterMap_cons_some hs, List.getLast?_cons]
    cases (items.filterMap (Item.sign? letter)).getLast? <;> rfl

theorem lastSign?_eq_none_iff {letter : Letter} {items : List Item} :
    lastSign? letter items = none ↔ ∀ item ∈ items, item.sign? letter = none := by
  rw [lastSign?, List.getLast?_eq_none_iff, List.filterMap_eq_nil_iff]

namespace Scope

theorem after_apply (s : Scope) (items : List Item) (letter : Letter) :
    s.after items letter = (lastSign? letter items).or (s letter) := by
  induction items generalizing s with
  | nil => rfl
  | cons item items ih =>
    rw [lastSign?_cons, Option.or_assoc]
    cases item with
    | leaf l => exact ih s
    | sign l value =>
      rw [after, ih, record, Item.sign?]
      by_cases hl : letter = l
      · simp [hl]
      · have hne : ¬l = letter := fun h => hl h.symm
        simp [hl, hne]

theorem sounds_inForce (key : KeySignature) (earlier items : List Item) :
    (key.inForce earlier).sounds items =
      (withEarlier items).flatMap fun x => x.2.pitches.map (key.altered (earlier ++ x.1)) := by
  induction items generalizing earlier with
  | nil => rfl
  | cons item items ih =>
    rw [withEarlier_cons, List.flatMap_cons, List.flatMap_map, List.append_nil]
    have hrest := ih (earlier ++ [item])
    simp only [List.append_assoc, List.singleton_append] at hrest
    rw [← hrest]
    cases item with
    | sign letter value =>
      rw [sounds, KeySignature.inForce_sign]
      rfl
    | leaf l =>
      rw [sounds, KeySignature.inForce_leaf]
      congr 1
      apply List.map_congr_left
      intro pitch _
      exact key.resolve_inForce earlier pitch

end Scope

theorem Bar.sounds_eq (key : KeySignature) (b : Bar) :
    Bar.sounds key b = Scope.sounds key.alteration? (Bar.items b) := by
  rw [← key.inForce_nil, Scope.sounds_inForce]
  rfl

namespace Run

/-- Every letter has the same last accidental once the notes have taken theirs one after the
other. -/
def Kept (run : Run) (notes : List Note) : Prop :=
  ∀ letter, lastSign? letter (Run.items (SignedNote.run (run.deal notes).1)) =
    lastSign? letter run.items

theorem take_perm {run : Run} {pitch : Pitch} (hs : run.Sound) (hp : pitch.accidental = 0) :
    ((run.take pitch).1.toList.map (fun value => (pitch, value)) ++ (run.take pitch).2).Perm
      run := by
  induction run with
  | nil => exact List.Perm.refl _
  | cons a run ih =>
    have ha := (hs a List.mem_cons_self).natural
    have hi := ih fun b hb => hs b (List.mem_cons_of_mem _ hb)
    rw [Run.take]
    split
    · rename_i halike
      rw [← (Pitch.alike_iff_eq ha hp).1 halike]
      exact List.Perm.refl _
    · exact List.perm_middle.trans (hi.cons a)

/-- Dealing neither loses an accidental nor adds one. -/
theorem deal_perm {run : Run} {notes : List Note} (hs : run.Sound) (hn : ∀ n ∈ notes, n.Sound) :
    (SignedNote.run (run.deal notes).1 ++ (run.deal notes).2).Perm run := by
  induction notes generalizing run with
  | nil => exact List.Perm.refl _
  | cons n notes ih =>
    have htake := take_perm hs (hn n List.mem_cons_self).natural
    have hrest := ih (Run.take_signs n.pitch hs) fun m hm => hn m (List.mem_cons_of_mem _ hm)
    have hrun : SignedNote.run (run.deal (n :: notes)).1 =
        (run.take n.pitch).1.toList.map (fun value => (n.pitch, value)) ++
          SignedNote.run ((run.take n.pitch).2.deal notes).1 := by
      rw [Run.deal, SignedNote.run, List.filterMap_cons]
      cases (run.take n.pitch).1 <;> rfl
    rw [hrun, List.append_assoc]
    exact (hrest.append_left _).trans htake

theorem mem_letter_of_lastSign? {run : Run} {letter : Letter} {value : Int8}
    (h : lastSign? letter run.items = some value) : ∃ a ∈ run, a.1.letter = letter := by
  by_contra hnone
  push Not at hnone
  have hn : lastSign? letter run.items = none := by
    apply lastSign?_eq_none_iff.2
    rw [Run.items, List.forall_mem_map]
    intro a ha
    exact if_neg (hnone a ha)
  rw [hn] at h
  cases h

section

variable {run : Run} {notes : List Note} (hs : run.Sound) (hn : ∀ n ∈ notes, n.Sound)
  (hp : run.pitches.Sublist (notes.map Note.pitch))

include hs hn hp

theorem dealt_perm : (SignedNote.run (run.deal notes).1).Perm run := by
  have hperm := deal_perm hs hn
  rwa [Run.deal_left hs hn hp, List.append_nil] at hperm

theorem dealt_lastSign?_eq_none_iff (letter : Letter) :
    lastSign? letter (Run.items (SignedNote.run (run.deal notes).1)) = none ↔
      lastSign? letter run.items = none := by
  have hperm : (Run.items (SignedNote.run (run.deal notes).1)).Perm run.items :=
    (dealt_perm hs hn hp).map _
  rw [lastSign?_eq_none_iff, lastSign?_eq_none_iff]
  simp only [hperm.mem_iff]

/-- The chord itself tells: it has a note of every letter that has an accidental before it. -/
theorem kept_of_resolve (s : Scope)
    (h : (notes.map Note.pitch).map
        (s.after (Run.items (SignedNote.run (run.deal notes).1))).resolve =
      (notes.map Note.pitch).map (s.after run.items).resolve) : run.Kept notes := by
  intro letter
  cases hlast : lastSign? letter run.items with
  | none => exact (dealt_lastSign?_eq_none_iff hs hn hp letter).2 hlast
  | some value =>
    obtain ⟨a, ha, rfl⟩ := mem_letter_of_lastSign? hlast
    have hpitch : a.1 ∈ notes.map Note.pitch := hp.subset (List.mem_map_of_mem ha)
    have hsame := List.map_inj_left.1 h a.1 hpitch
    cases hdealt : lastSign? a.1.letter (Run.items (SignedNote.run (run.deal notes).1)) with
    | none =>
      rw [(dealt_lastSign?_eq_none_iff hs hn hp a.1.letter).1 hdealt] at hlast
      cases hlast
    | some value' =>
      have hvalue := congrArg Pitch.accidental hsame
      simp only [Scope.resolve, Scope.after_apply, hlast, hdealt, Option.some_or] at hvalue
      rw [hvalue]

end

theorem Kept.after_eq {run : Run} {notes : List Note} (h : run.Kept notes) (s : Scope) :
    s.after (Run.items (SignedNote.run (run.deal notes).1)) = s.after run.items := by
  funext letter
  rw [Scope.after_apply, Scope.after_apply, h letter]

end Run

namespace Element

/-- The chords with the accidentals that stand before each. -/
def signedChords : Run → List Element → List (Run × List Note)
  | _, [] => []
  | run, accidental pitch value :: es => signedChords (run ++ [(pitch, value)]) es
  | run, chord notes :: es => (run, notes) :: signedChords [] es
  | _, tuplet _ elements _ :: es => signedChords [] elements ++ signedChords [] es
  | _, note _ :: es => signedChords [] es
  | _, rest _ :: es => signedChords [] es

end Element

/-- Items that sound like others exactly if `kept` holds, and then leave the same in force. -/
structure Scope.Alike (s : Scope) (items items' : List Item) (kept : Prop) : Prop where
  sounds_iff : s.sounds items' = s.sounds items ↔ kept
  after_eq : kept → s.after items' = s.after items

namespace Scope

theorem Alike.refl (s : Scope) (items : List Item) : s.Alike items items True :=
  ⟨iff_of_true rfl trivial, fun _ => rfl⟩

theorem Alike.of_iff {s : Scope} {items items' : List Item} {kept kept' : Prop}
    (h : s.Alike items items' kept) (hk : kept ↔ kept') : s.Alike items items' kept' :=
  ⟨h.sounds_iff.trans hk, fun h' => h.after_eq (hk.2 h')⟩

theorem Alike.append {s : Scope} {is is' js js' : List Item} {kept kept' : Prop}
    (h : s.Alike is is' kept) (hlen : (s.sounds is').length = (s.sounds is).length)
    (h' : ∀ s : Scope, s.Alike js js' kept') : s.Alike (is ++ js) (is' ++ js') (kept ∧ kept') := by
  constructor
  · rw [sounds_append, sounds_append, append_eq_append_iff_of_length hlen, h.sounds_iff]
    refine and_congr_right fun hk => ?_
    rw [h.after_eq hk]
    exact (h' _).sounds_iff
  · rintro ⟨hk, hk'⟩
    rw [after_append, after_append, h.after_eq hk, (h' _).after_eq hk']

theorem alike_leaf (s : Scope) (run : Run) (l : Leaf) :
    s.Alike (run.items ++ [.leaf l]) (run.items ++ [.leaf l.reduced]) True := by
  have hsounds : s.sounds (run.items ++ [.leaf l.reduced]) = s.sounds (run.items ++ [.leaf l]) := by
    rw [sounds_append, sounds_append]
    rfl
  refine ⟨iff_of_true hsounds trivial, fun _ => ?_⟩
  rw [after_append, after_append]
  rfl

theorem alike_chord (s : Scope) {run : Run} {notes : List Note} (hs : run.Sound)
    (hn : ∀ n ∈ notes, n.Sound) (hp : run.pitches.Sublist (notes.map Note.pitch))
    (length length' scale : Duration) :
    s.Alike (run.items ++ [.leaf ⟨notes.map Note.pitch, length, scale⟩])
      (Run.items (SignedNote.run (run.deal notes).1) ++
        [.leaf ⟨notes.map Note.pitch, length', scale⟩]) (run.Kept notes) := by
  constructor
  · rw [sounds_append, sounds_append, sounds_run, sounds_run]
    simp only [sounds, List.nil_append, List.append_nil]
    constructor
    · exact Run.kept_of_resolve hs hn hp s
    · intro hk
      rw [hk.after_eq]
  · intro hk
    rw [after_append, after_append, hk.after_eq]
    rfl

end Scope

namespace Element

/-- What sounds, one element after the other, with the accidentals gathered before them. -/
theorem Notated.alike_settled {run : Run} {es : List Element} (h : Notated run es)
    (scale : Duration) (s : Scope) :
    s.Alike (run.items ++ itemsAll scale es) (itemsAll scale (settled run es))
      (∀ x ∈ signedChords run es, x.1.Kept x.2) := by
  induction h generalizing scale s with
  | nil =>
    rw [settled]
    refine (Scope.Alike.refl s []).of_iff ?_
    simp [signedChords]
  | @accidental run pitch value es h ih =>
    have hitems : run.items ++ itemsAll scale (Element.accidental pitch value :: es) =
        Run.items (run ++ [(pitch, value)]) ++ itemsAll scale es := by
      rw [itemsAll, items, Run.items, Run.items, List.map_append, List.append_assoc]
      rfl
    rw [hitems, settled, signedChords]
    exact ih scale s
  | @note run n es hr hn hp h ih =>
    have hback := itemsAll_note scale (run.take n.pitch).1 n
    rw [Run.take_eq hn.natural hp] at hback
    rw [settled, Run.take_left hr hn.natural hp, itemsAll_append, hback, itemsAll, items,
      ← List.append_assoc, signedChords]
    have hone := s.alike_leaf run ⟨[n.pitch], n.duration, scale⟩
    refine (hone.append ?_ (ih scale)).of_iff (iff_of_eq (true_and _))
    rw [hone.sounds_iff.2 trivial]
  | @rest d es hd h ih =>
    rw [settled, itemsAll_append, itemsAll, signedChords]
    have hone := s.alike_leaf [] ⟨[], d, scale⟩
    refine (hone.append ?_ (ih scale)).of_iff (iff_of_eq (true_and _))
    rw [hone.sounds_iff.2 trivial]
  | @chord run notes es hr hne hn hp h ih =>
    rw [settled, Run.deal_left hr hn hp, itemsAll_append, itemsAll_chord, itemsAll, items,
      ← List.append_assoc, signedChords]
    have hone := s.alike_chord hr hn hp (chordDuration notes) (chordDuration notes).reduced scale
    refine (hone.append ?_ (ih scale)).of_iff ?_
    · rw [Scope.sounds_append, Scope.sounds_append, Scope.sounds_run, Scope.sounds_run]
      simp [Scope.sounds]
    · rw [List.forall_mem_cons]
  | @tuplet size elements notes es hf hi h ihInner ih =>
    rw [settled, itemsAll, itemsAll, items, items, signedChords]
    have hone := ihInner (tupletScale size) s
    refine (hone.append ?_ (ih scale)).of_iff ?_
    · rw [Scope.length_sounds, Scope.length_sounds, leaves_settled]
      simp [List.flatMap_map, Run.items, Leaf.reduced]
    · rw [List.forall_mem_append]

end Element

namespace Bar

theorem length_sounds_settled (key : KeySignature) (b : Bar) :
    (Bar.sounds key b.settled).length = (Bar.sounds key b).length := by
  rw [sounds_eq, sounds_eq, Scope.length_sounds, Scope.length_sounds, settled, items, items,
    Element.leaves_settled, List.flatMap_map]
  rfl

theorem sounds_settled_iff (key : KeySignature) {b : Bar} (h : Element.Notated [] b) :
    Bar.sounds key b.settled = Bar.sounds key b ↔
      ∀ x ∈ Element.signedChords [] b, x.1.Kept x.2 := by
  rw [sounds_eq, sounds_eq]
  exact (h.alike_settled .unit key.alteration?).sounds_iff

end Bar

end Tunebook
