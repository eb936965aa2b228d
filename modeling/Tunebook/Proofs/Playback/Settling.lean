import Mathlib.Algebra.BigOperators.Group.List.Lemmas
import Mathlib.Algebra.Order.BigOperators.GroupWithZero.List
import Tunebook.Proofs.Playback.Exactness
import Tunebook.Proofs.Tune.Canonical

namespace Tunebook

def Leaf.reduced (l : Leaf) : Leaf :=
  { l with length := l.length.reduced }

namespace Duration

theorem reduced_zero : zero.reduced = zero := by decide

theorem reduced_den_dvd (d : Duration) : d.reduced.den.toNat ∣ d.den.toNat := by
  rw [reduced_den]
  exact Nat.div_dvd_of_dvd (commonDivisor_dvd_right _ _)

theorem ofFraction?_mul_left {g : Nat} (hg : 0 < g) (num den : Nat) :
    ofFraction? (g * num) (g * den) = ofFraction? num den := by
  by_cases h : Nat.gcd num den = 0
  · obtain ⟨rfl, rfl⟩ := Nat.gcd_eq_zero_iff.1 h
    rfl
  · have hpos := Nat.pos_of_ne_zero h
    have hdiv : commonDivisor (g * num) (g * den) = g * commonDivisor num den := by
      rw [commonDivisor, commonDivisor, Nat.gcd_mul_left, Nat.max_eq_right hpos,
        Nat.max_eq_right (Nat.mul_pos hg hpos)]
    simp only [ofFraction?, hdiv, Nat.mul_div_mul_left _ _ hg]

theorem mul?_reduced (a b : Duration) : a.reduced.mul? b = a.mul? b := by
  have hg := commonDivisor_pos a.num.toNat a.den.toNat
  have hnum := Nat.mul_div_cancel' (commonDivisor_dvd_left a.num.toNat a.den.toNat)
  have hden := Nat.mul_div_cancel' (commonDivisor_dvd_right a.num.toNat a.den.toNat)
  rw [← reduced_num] at hnum
  rw [← reduced_den] at hden
  rw [mul?, mul?, ← ofFraction?_mul_left hg, ← Nat.mul_assoc, ← Nat.mul_assoc, hnum, hden]

end Duration

theorem tupletDuration?_reduced (size : UInt32) (d : Duration) :
    tupletDuration? size d.reduced = tupletDuration? size d := by
  rw [tupletDuration?, tupletDuration?, Duration.mul?_reduced]

theorem chordDuration_reduced (notes : List Note) :
    chordDuration (notes.map Note.reduced) = (chordDuration notes).reduced := by
  cases notes with
  | nil => exact Duration.reduced_zero.symm
  | cons n notes => rfl

theorem Run.deal_reduced (run : Run) (notes : List Note) :
    ((run.deal notes).1.map fun n => n.note.reduced) = notes.map Note.reduced := by
  conv_rhs => rw [← run.deal_notes notes, List.map_map]
  rfl

/-- Each number divides one of the others. -/
def EachDivides (ds ms : List Nat) : Prop :=
  ∀ d ∈ ds, ∃ m ∈ ms, d ∣ m

namespace EachDivides

theorem refl (ds : List Nat) : EachDivides ds ds :=
  fun d hd => ⟨d, hd, Nat.dvd_refl d⟩

theorem append {ds ds' ms ms' : List Nat} (h : EachDivides ds ms) (h' : EachDivides ds' ms') :
    EachDivides (ds ++ ds') (ms ++ ms') := by
  intro d hd
  rcases List.mem_append.1 hd with hd | hd
  · obtain ⟨m, hm, hdvd⟩ := h d hd
    exact ⟨m, List.mem_append_left _ hm, hdvd⟩
  · obtain ⟨m, hm, hdvd⟩ := h' d hd
    exact ⟨m, List.mem_append_right _ hm, hdvd⟩

theorem flatMap {α : Type} {f g : α → List Nat} {as : List α}
    (h : ∀ a ∈ as, EachDivides (f a) (g a)) : EachDivides (as.flatMap f) (as.flatMap g) := by
  intro d hd
  obtain ⟨a, ha, hd⟩ := List.mem_flatMap.1 hd
  obtain ⟨m, hm, hdvd⟩ := h a ha d hd
  exact ⟨m, List.mem_flatMap.2 ⟨a, ha, hm⟩, hdvd⟩

theorem reduced (d : Duration) : EachDivides [d.reduced.den.toNat] [d.den.toNat] := by
  intro n hn
  rw [List.mem_singleton.1 hn]
  exact ⟨_, List.mem_cons_self, d.reduced_den_dvd⟩

end EachDivides

def Run.items (run : Run) : List Item :=
  run.map fun a => .sign a.1.letter a.2

namespace Element

theorem itemsAll_append (scale : Duration) (es fs : List Element) :
    itemsAll scale (es ++ fs) = itemsAll scale es ++ itemsAll scale fs := by
  induction es with
  | nil => rw [itemsAll, List.nil_append, List.nil_append]
  | cons e es ih => rw [List.cons_append, itemsAll, itemsAll, ih, List.append_assoc]

theorem itemsAll_run (scale : Duration) (run : Run) :
    itemsAll scale run.elements = run.items := by
  induction run with
  | nil => rw [Run.elements, List.map_nil, itemsAll, Run.items, List.map_nil]
  | cons a run ih =>
    rw [Run.elements, List.map_cons, itemsAll, ← Run.elements, ih, items]
    rfl

theorem itemsAll_note (scale : Duration) (sign : Option Int8) (n : Note) :
    itemsAll scale (Figure.note ⟨sign, n⟩).elements =
      Run.items (SignedNote.run [⟨sign, n⟩]) ++ [.leaf ⟨[n.pitch], n.duration.reduced, scale⟩] := by
  rw [Figure.elements, itemsAll_append, itemsAll_run]
  rfl

theorem itemsAll_chord (scale : Duration) (run : Run) (notes : List Note) :
    itemsAll scale (Figure.chord (run.deal notes).1).elements =
      Run.items (SignedNote.run (run.deal notes).1) ++
        [.leaf ⟨notes.map Note.pitch, (chordDuration notes).reduced, scale⟩] := by
  rw [Figure.elements, itemsAll_append, itemsAll_run, Run.deal_reduced, itemsAll, items, itemsAll,
    chordDuration_reduced, List.map_map]
  rfl

theorem leaves_run (run : Run) : run.items.filterMap Item.leaf? = [] := by
  rw [Run.items, List.filterMap_map, List.filterMap_eq_nil_iff]
  intro a _
  rfl

/-- What takes time comes back, with lengths in lowest terms. -/
theorem leaves_settled (scale : Duration) (run : Run) (es : List Element) :
    (itemsAll scale (settled run es)).filterMap Item.leaf? =
      ((itemsAll scale es).filterMap Item.leaf?).map Leaf.reduced := by
  fun_induction settled run es generalizing scale with
  | case1 => rfl
  | case2 run pitch value es ih => exact ih scale
  | case3 run n es ih =>
    rw [itemsAll_append, itemsAll_note, itemsAll, List.filterMap_append, List.filterMap_append,
      List.filterMap_append, List.map_append, leaves_run, ih]
    rfl
  | case4 run d es ih =>
    rw [itemsAll_append, itemsAll, List.filterMap_append, List.filterMap_append, List.map_append,
      ih]
    rfl
  | case5 run notes es ih =>
    rw [itemsAll_append, itemsAll_chord, itemsAll, List.filterMap_append, List.filterMap_append,
      List.filterMap_append, List.map_append, leaves_run, ih]
    rfl
  | case6 run size elements notes es ihInner ih =>
    rw [itemsAll, itemsAll, items, items, List.filterMap_append, List.filterMap_append,
      List.map_append, ihInner, ih]

theorem leadDuration?_run (run : Run) (es : List Element) :
    leadDuration? (run.elements ++ es) = leadDuration? es := by
  induction run with
  | nil => rfl
  | cons a run ih => exact ih

/-- Without tuplets, the first length comes back in lowest terms. -/
theorem leadDuration?_settled (run : Run) (es : List Element)
    (h : ∀ e ∈ es, e.isTuplet = false) :
    leadDuration? (settled run es) = (leadDuration? es).map Duration.reduced := by
  fun_induction settled run es with
  | case1 => rw [leadDuration?, Option.map_some, Duration.reduced_zero]
  | case2 run pitch value es ih => exact ih (List.forall_mem_cons.1 h).2
  | case3 run n es ih =>
    rw [Figure.elements, List.append_assoc, leadDuration?_run]
    rfl
  | case4 run d es ih => rfl
  | case5 run notes es ih =>
    rw [Figure.elements, List.append_assoc, leadDuration?_run, Run.deal_reduced]
    exact congrArg some (chordDuration_reduced notes)
  | case6 run size elements notes es ihInner ih => cases h _ List.mem_cons_self

theorem duration?_tuplet_settled {size : UInt32} {elements : List Element} {notes : Nat}
    (h : Filled size elements notes) :
    (tuplet size (settled [] elements) notes).duration? =
      (tuplet size elements notes).duration? := by
  rw [duration?, duration?, leadDuration?_settled [] elements h.flat]
  cases leadDuration? elements with
  | none => rfl
  | some d => exact tupletDuration?_reduced size d

theorem denominatorsAll_append (es fs : List Element) :
    denominatorsAll (es ++ fs) = denominatorsAll es ++ denominatorsAll fs := by
  induction es with
  | nil => rw [denominatorsAll, List.nil_append, List.nil_append]
  | cons e es ih =>
    rw [List.cons_append, denominatorsAll, denominatorsAll, ih, List.append_assoc]

theorem denominatorsAll_run (run : Run) : denominatorsAll run.elements = [] := by
  induction run with
  | nil => rfl
  | cons a run ih => exact ih

theorem Notated.denominators_settled {run : Run} {es : List Element} (h : Notated run es) :
    EachDivides (denominatorsAll (settled run es)) (denominatorsAll es) := by
  induction h with
  | nil =>
    rw [settled]
    exact EachDivides.refl _
  | accidental h ih =>
    rw [settled, denominatorsAll, denominators, List.nil_append]
    exact ih
  | @note run n es hr hn hp h ih =>
    rw [settled, Run.take_left hr hn.natural hp, denominatorsAll_append, denominatorsAll]
    apply EachDivides.append _ ih
    rw [Figure.elements, denominatorsAll_append, denominatorsAll_run]
    exact EachDivides.reduced n.duration
  | @rest d es hd h ih =>
    rw [settled, denominatorsAll_append, denominatorsAll]
    exact (EachDivides.reduced d).append ih
  | @chord run notes es hr hne hn hp h ih =>
    rw [settled, Run.deal_left hr hn hp, denominatorsAll_append, denominatorsAll]
    apply EachDivides.append _ ih
    rw [Figure.elements, denominatorsAll_append, denominatorsAll_run, Run.deal_reduced,
      denominatorsAll, denominators, chordDuration_reduced]
    exact EachDivides.reduced (chordDuration notes)
  | @tuplet size elements notes es hf hi h ihInner ih =>
    rw [settled, denominatorsAll, denominatorsAll, denominators, denominators,
      duration?_tuplet_settled hf]
    exact ((EachDivides.refl _).append ihInner).append ih

theorem atLeastOne_pos (n : UInt32) : 0 < (Resolution.atLeastOne n).toNat := by
  unfold Resolution.atLeastOne
  split
  · decide
  · rename_i hn
    exact Nat.pos_of_ne_zero fun h => hn (UInt32.toNat_inj.1 h)

theorem Notated.denominators_pos {run : Run} {es : List Element} (h : Notated run es) :
    ∀ d ∈ denominatorsAll es, 0 < d := by
  induction h with
  | nil => simp [denominatorsAll]
  | accidental h ih => exact ih
  | @note run n es hr hn hp h ih =>
    rw [denominatorsAll, denominators, List.singleton_append, List.forall_mem_cons]
    exact ⟨n.duration.den_pos hn.den_ne_zero, ih⟩
  | @rest d es hd h ih =>
    rw [denominatorsAll, denominators, List.singleton_append, List.forall_mem_cons]
    exact ⟨d.den_pos hd, ih⟩
  | @chord run notes es hr hne hn hp h ih =>
    obtain ⟨n, ns, rfl⟩ := List.exists_cons_of_ne_nil hne
    rw [denominatorsAll, denominators, List.singleton_append, List.forall_mem_cons]
    exact ⟨n.duration.den_pos (hn n List.mem_cons_self).den_ne_zero, ih⟩
  | @tuplet size elements notes es hf hi h ihInner ih =>
    rw [denominatorsAll, denominators, List.forall_mem_append, List.forall_mem_append,
      List.forall_mem_map]
    exact ⟨⟨fun d _ => atLeastOne_pos d.den, ihInner⟩, ih⟩

end Element

namespace Voice

theorem played_settled (v : Voice) : v.settled.played = v.played.map Bar.settled := by
  have hphrase (p : Phrase) :
      p.settled?.toList.flatMap Phrase.played = p.played.map Bar.settled := by
    cases p with
    | bar b => rfl
    | repeated r =>
      rw [Phrase.settled?]
      split
      · rename_i hempty
        simp only [Repeat.isEmpty, Bool.and_eq_true, List.isEmpty_iff] at hempty
        simp [Phrase.played, Repeat.played, hempty]
      · simp [Phrase.played, Repeat.played, Repeat.settled]
  rw [settled, played, played, List.map_flatMap]
  induction v.phrases with
  | nil => rfl
  | cons p ps ih =>
    rw [List.flatMap_cons, ← hphrase, ← ih, List.filterMap_cons]
    cases p.settled? with
    | none => rfl
    | some q => simp

theorem leaves_settled (v : Voice) : v.settled.leaves = v.leaves.map Leaf.reduced := by
  rw [leaves, leaves, played_settled, List.flatMap_map, List.map_flatMap]
  apply List.flatMap_congr
  intro b _
  exact Element.leaves_settled .unit [] b

end Voice

namespace Tune

variable {t : Tune} {ticks ticks' : UInt32}

theorem WellFormed.notated (h : t.WellFormed) {v : Voice} (hv : v ∈ t.voices) {b : Bar}
    (hb : b ∈ v.played) : Element.Notated [] b :=
  (h.bars v hv b (Voice.mem_bars_of_played hb)).2

theorem WellFormed.denominators_settled (h : t.WellFormed) :
    EachDivides t.settled.denominators t.denominators := by
  have hvoices : EachDivides
      ((t.voices.map Voice.settled).flatMap fun v => v.played.flatMap Element.denominatorsAll)
      (t.voices.flatMap fun v => v.played.flatMap Element.denominatorsAll) := by
    rw [List.flatMap_map]
    apply EachDivides.flatMap
    intro v hv
    rw [Voice.played_settled, List.flatMap_map]
    apply EachDivides.flatMap
    intro b hb
    exact (h.notated hv hb).denominators_settled
  exact (EachDivides.refl [_]).append hvoices

theorem WellFormed.resolution?_settled_dvd (h : t.WellFormed) (hticks : t.resolution? = some ticks)
    (hticks' : t.settled.resolution? = some ticks') : ticks'.toNat ∣ ticks.toNat := by
  apply (resolution?_dvd_iff hticks' ticks.toNat).2
  intro d hd
  obtain ⟨m, hm, hdvd⟩ := h.denominators_settled d hd
  exact hdvd.trans ((resolution?_dvd_iff hticks ticks.toNat).1 (Nat.dvd_refl _) m hm)

theorem WellFormed.resolution?_pos (h : t.WellFormed) (hticks : t.resolution? = some ticks) :
    0 < ticks.toNat := by
  have hpos : ∀ d ∈ t.denominators, 0 < d := by
    rw [denominators, List.forall_mem_cons]
    refine ⟨Element.atLeastOne_pos _, ?_⟩
    simp only [List.forall_mem_flatMap]
    intro v hv b hb
    exact (h.notated hv hb).denominators_pos
  have hdvd := (resolution?_dvd_iff hticks t.denominators.prod).2 fun d hd => List.dvd_prod hd
  exact Nat.pos_of_dvd_of_pos hdvd (List.prod_pos hpos)

end Tune

end Tunebook
