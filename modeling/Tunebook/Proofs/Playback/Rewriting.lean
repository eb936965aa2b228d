import Tunebook.Proofs.Playback.ChordSigns
import Tunebook.Proofs.Playback.Timing

namespace Tunebook

namespace Leaf

/-- How long a leaf lasts, in quarter notes. Its ticks are rounded down when the unit length is
applied, and again when the scale is. -/
def lasts (c : Clock) (l : Leaf) : ℚ :=
  ⌊(⌊c.ticksPerQuarter.toNat * 4 * l.length.value * c.unitLength.value⌋₊ : ℚ) *
    l.scale.value⌋₊ / c.ticksPerQuarter.toNat

/-- The leaves up to the last one that sounds. -/
def heard : List Leaf → List Leaf
  | [] => []
  | l :: ls => if l.pitches.isEmpty && (heard ls).isEmpty then [] else l :: heard ls

/-- When each pitch starts and how long it lasts, if the leaves take that long. -/
def times (lasts : Leaf → ℚ) (start : ℚ) : List Leaf → List (ℚ × ℚ)
  | [] => []
  | l :: ls => l.pitches.map (fun _ => (start, lasts l)) ++ times lasts (start + lasts l) ls

theorem ticks_div_eq_lasts {c : Clock} {l : Leaf} (hticks : (l.ticks? c).isSome = true)
    (hne : l.length.den ≠ 0) (hd : l.length.den.toNat ∣ c.ticksPerQuarter.toNat) :
    (l.ticks c : ℚ) / c.ticksPerQuarter.toNat = l.lasts c := by
  obtain ⟨n, hn⟩ := Option.isSome_iff_exists.1 hticks
  rw [ticks_of_some hn, Clock.ticks?_eq_floor hn hne hd, lasts]

theorem lasts_reduced {l : Leaf} (c : Clock) (hne : l.length.den ≠ 0) :
    l.reduced.lasts c = l.lasts c := by
  have hvalue : l.reduced.length.value = l.length.value := Duration.value_reduced hne
  rw [lasts, lasts, hvalue]
  rfl

/-- Rounding down twice at a coarser resolution loses more. -/
theorem mul_floor_le (q : ℕ) {x scale : ℚ} (hx : 0 ≤ x) (hs : 0 ≤ scale) :
    q * ⌊(⌊x⌋₊ : ℚ) * scale⌋₊ ≤ ⌊(⌊q * x⌋₊ : ℚ) * scale⌋₊ := by
  have hinner : q * ⌊x⌋₊ ≤ ⌊q * x⌋₊ := by
    apply Nat.le_floor
    rw [Nat.cast_mul]
    exact mul_le_mul_of_nonneg_left (Nat.floor_le hx) (Nat.cast_nonneg q)
  have hinner' : (q : ℚ) * ⌊x⌋₊ ≤ ⌊q * x⌋₊ := by exact_mod_cast hinner
  apply Nat.le_floor
  calc ((q * ⌊(⌊x⌋₊ : ℚ) * scale⌋₊ : ℕ) : ℚ) = q * ⌊(⌊x⌋₊ : ℚ) * scale⌋₊ := Nat.cast_mul _ _
    _ ≤ q * (⌊x⌋₊ * scale) := by
      apply mul_le_mul_of_nonneg_left _ (Nat.cast_nonneg q)
      exact Nat.floor_le (mul_nonneg (Nat.cast_nonneg _) hs)
    _ = q * ⌊x⌋₊ * scale := (mul_assoc _ _ _).symm
    _ ≤ ⌊q * x⌋₊ * scale := mul_le_mul_of_nonneg_right hinner' hs

theorem lasts_le_of_dvd {ticks ticks' : UInt32} (l : Leaf) (unitLength : Duration)
    (h : ticks'.toNat ∣ ticks.toNat) (hpos : 0 < ticks.toNat) :
    l.lasts ⟨ticks', unitLength⟩ ≤ l.lasts ⟨ticks, unitLength⟩ := by
  obtain ⟨q, hq⟩ := h
  have hq0 : (q : ℚ) ≠ 0 := by
    rintro h0
    rw [Nat.cast_eq_zero.1 h0, Nat.mul_zero] at hq
    omega
  have ht0 : (0 : ℚ) < ticks'.toNat := by
    apply Nat.cast_pos.2
    apply Nat.pos_of_ne_zero
    intro h0
    rw [h0, Nat.zero_mul] at hq
    omega
  let x : ℚ := ticks'.toNat * 4 * l.length.value * unitLength.value
  have hx : 0 ≤ x := mul_nonneg (mul_nonneg (by positivity) l.length.value_nonneg)
    unitLength.value_nonneg
  have hfine : ticks.toNat * 4 * l.length.value * unitLength.value = q * x := by
    rw [hq, Nat.cast_mul]
    ring
  have hfloor : (q : ℚ) * ⌊(⌊x⌋₊ : ℚ) * l.scale.value⌋₊ ≤ ⌊(⌊q * x⌋₊ : ℚ) * l.scale.value⌋₊ := by
    exact_mod_cast mul_floor_le q hx l.scale.value_nonneg
  rw [lasts, lasts, hfine, div_le_div_iff₀ ht0 (Nat.cast_pos.2 hpos), hq, Nat.cast_mul]
  calc (⌊(⌊x⌋₊ : ℚ) * l.scale.value⌋₊ : ℚ) * (ticks'.toNat * q)
      = q * ⌊(⌊x⌋₊ : ℚ) * l.scale.value⌋₊ * ticks'.toNat := by ring
    _ ≤ ⌊(⌊q * x⌋₊ : ℚ) * l.scale.value⌋₊ * ticks'.toNat :=
      mul_le_mul_of_nonneg_right hfloor ht0.le

theorem length_times (f : Leaf → ℚ) (start : ℚ) (ls : List Leaf) :
    (times f start ls).length = (ls.flatMap pitches).length := by
  induction ls generalizing start with
  | nil => rfl
  | cons l ls ih => rw [times, List.length_append, List.length_map, ih, List.flatMap_cons,
      List.length_append]

theorem times_map_reduced (f : Leaf → ℚ) (start : ℚ) (ls : List Leaf) :
    times f start (ls.map reduced) = times (fun l => f l.reduced) start ls := by
  induction ls generalizing start with
  | nil => rfl
  | cons l ls ih =>
    rw [List.map_cons, times, times, ih]
    rfl

theorem times_congr {f g : Leaf → ℚ} {ls : List Leaf} (start : ℚ) (h : ∀ l ∈ ls, f l = g l) :
    times f start ls = times g start ls := by
  induction ls generalizing start with
  | nil => rfl
  | cons l ls ih =>
    rw [List.forall_mem_cons] at h
    rw [times, times, h.1, ih _ h.2]

/-- If leaves can only become shorter, what is lost before a note is never made up for. -/
theorem times_eq_iff {f g : Leaf → ℚ} {ls : List Leaf} {a b : ℚ} (hab : b ≤ a)
    (hfg : ∀ l ∈ ls, g l ≤ f l) :
    times g b ls = times f a ls ↔
      (heard ls ≠ [] → b = a) ∧ ∀ l ∈ heard ls, g l = f l := by
  induction ls generalizing a b with
  | nil => simp [times, heard]
  | cons l ls ih =>
    rw [List.forall_mem_cons] at hfg
    have hrest := ih (add_le_add hab hfg.1) hfg.2
    have hlen : (l.pitches.map fun _ => (b, g l)).length =
        (l.pitches.map fun _ => (a, f l)).length := by
      rw [List.length_map, List.length_map]
    rw [times, times, append_eq_append_iff_of_length hlen, List.map_inj_left, hrest, heard]
    simp only [Prod.mk.injEq]
    split
    · -- nothing sounds from here on
      rename_i hsilent
      rw [Bool.and_eq_true, List.isEmpty_iff, List.isEmpty_iff] at hsilent
      simp [hsilent]
    · rename_i hsound
      rw [Bool.and_eq_true, List.isEmpty_iff, List.isEmpty_iff, not_and_or] at hsound
      rw [List.forall_mem_cons]
      constructor
      · rintro ⟨hhead, hstart, htail⟩
        rcases hsound with hp | hh
        · obtain ⟨p, hp⟩ := List.exists_mem_of_ne_nil _ hp
          exact ⟨fun _ => (hhead p hp).1, (hhead p hp).2, htail⟩
        · -- the sums agree and neither part is larger, so the parts agree
          have hsum := hstart hh
          exact ⟨fun _ => by linarith [hfg.1], by linarith [hfg.1], htail⟩
      · rintro ⟨hstart, hl, htail⟩
        have hba : b = a := hstart (List.cons_ne_nil _ _)
        exact ⟨fun _ _ => ⟨hba, hl⟩, fun _ => by rw [hba, hl], htail⟩

end Leaf

namespace NoteEvent

def written (e : NoteEvent) : Nat × Letter × Int8 :=
  (e.voice, e.pitch.letter, e.pitch.octave)

def inQuarters (ticks : UInt32) (e : NoteEvent) : ℚ × ℚ :=
  (e.start.toNat / ticks.toNat, e.duration.toNat / ticks.toNat)

end NoteEvent

namespace Part

theorem map_written_timings (part : Part) (start : Nat) (ls : List Leaf) :
    (part.timings start ls).map (fun x => (x.voice, x.letter, x.octave)) =
      ls.flatMap fun l => l.pitches.map fun pitch => (part.voice, pitch.letter, pitch.octave) := by
  induction ls generalizing start with
  | nil => rfl
  | cons l ls ih =>
    rw [timings_cons, List.map_append, ih, List.flatMap_cons, chime, List.map_map]
    rfl

theorem map_inQuarters_timings (part : Part) (ticks : UInt32) (start : Nat) (ls : List Leaf) :
    (part.timings start ls).map
        (fun x => ((x.start : ℚ) / ticks.toNat, (x.duration : ℚ) / ticks.toNat)) =
      Leaf.times (fun l => (l.ticks part.clock : ℚ) / ticks.toNat) (start / ticks.toNat) ls := by
  induction ls generalizing start with
  | nil => rfl
  | cons l ls ih =>
    rw [timings_cons, List.map_append, ih, Leaf.times, Nat.cast_add, add_div, chime, List.map_map]
    rfl

end Part

namespace Voice

def sounds (key : KeySignature) (v : Voice) : List Pitch :=
  v.played.flatMap (Bar.sounds key)

theorem length_sounds_settled (key : KeySignature) (v : Voice) :
    (v.settled.sounds key).length = (v.sounds key).length := by
  rw [sounds, sounds, played_settled, List.flatMap_map, List.length_flatMap, List.length_flatMap]
  congr 1
  apply List.map_congr_left
  intro b _
  exact Bar.length_sounds_settled key b

theorem sounds_settled_iff (key : KeySignature) {v : Voice}
    (h : ∀ b ∈ v.played, Element.Notated [] b) :
    v.settled.sounds key = v.sounds key ↔
      ∀ b ∈ v.played, ∀ x ∈ Element.signedChords [] b, x.1.Kept x.2 := by
  rw [sounds, sounds, played_settled, List.flatMap_map,
    flatMap_eq_flatMap_iff fun b _ => Bar.length_sounds_settled key b]
  constructor
  · intro hall b hb
    exact (Bar.sounds_settled_iff key (h b hb)).1 (hall b hb)
  · intro hall b hb
    exact (Bar.sounds_settled_iff key (h b hb)).2 (hall b hb)

end Voice

namespace Tune

variable {t : Tune} {ticks ticks' : UInt32} {events events' : List NoteEvent}

theorem forall_mem_zipIdx_voices {P : Voice → Prop} :
    (∀ v ∈ t.voices.zipIdx, P v.1) ↔ ∀ v ∈ t.voices, P v := by
  conv_rhs => rw [← t.voices.zipIdx_map_fst 0, List.forall_mem_map]

theorem zipIdx_settled (t : Tune) :
    t.settled.voices.zipIdx = t.voices.zipIdx.map (Prod.map Voice.settled id) :=
  List.zipIdx_map

theorem events?_written (h : t.events? ticks = some events) :
    events.map NoteEvent.written =
      t.voices.zipIdx.flatMap fun v => v.1.leaves.flatMap fun l =>
        l.pitches.map fun pitch => (v.2, pitch.letter, pitch.octave) := by
  have htimings := congrArg (List.map fun x => (x.voice, x.letter, x.octave)) (events?_timings h)
  rw [List.map_map, timings, List.map_flatMap] at htimings
  simp only [Part.map_written_timings] at htimings
  exact htimings

theorem written_settled (h : t.events? ticks = some events)
    (h' : t.settled.events? ticks' = some events') :
    events'.map NoteEvent.written = events.map NoteEvent.written := by
  rw [events?_written h, events?_written h', zipIdx_settled, List.flatMap_map]
  apply List.flatMap_congr
  intro v _
  rw [Prod.map_fst, Voice.leaves_settled, List.flatMap_map]
  rfl

theorem events?_sounds (h : t.events? ticks = some events) :
    events.map NoteEvent.voiced =
      t.voices.zipIdx.flatMap fun v => (v.1.sounds t.key).map fun pitch => (v.2, pitch) := by
  obtain ⟨parts, hparts, rfl⟩ := events?_eq_some_iff.1 h
  apply map_flatten_of_forall₂
  refine hparts.imp ?_
  intro v es hes
  rw [Part.bars?_voiced hes, Voice.sounds, List.map_flatMap]

/-- The notes have the accidentals they had exactly if every chord keeps its last ones. -/
theorem WellFormed.voiced_settled_iff (hwell : t.WellFormed) (h : t.events? ticks = some events)
    (h' : t.settled.events? ticks' = some events') :
    events'.map NoteEvent.voiced = events.map NoteEvent.voiced ↔
      ∀ v ∈ t.voices, ∀ b ∈ v.played, ∀ x ∈ Element.signedChords [] b, x.1.Kept x.2 := by
  have hlength : ∀ v ∈ t.voices.zipIdx,
      ((v.1.settled.sounds t.key).map fun pitch => (v.2, pitch)).length =
        ((v.1.sounds t.key).map fun pitch => (v.2, pitch)).length := by
    intro v _
    rw [List.length_map, List.length_map, Voice.length_sounds_settled]
  have hpair (index : Nat) : Function.Injective fun pitch : Pitch => (index, pitch) :=
    Prod.mk_right_injective index
  rw [events?_sounds h, events?_sounds h', zipIdx_settled, List.flatMap_map]
  refine (flatMap_eq_flatMap_iff hlength).trans ?_
  simp only [List.map_inj_right (hpair _)]
  rw [@forall_mem_zipIdx_voices t fun v => v.settled.sounds t.key = v.sounds t.key]
  apply forall₂_congr
  intro v hv
  exact Voice.sounds_settled_iff t.key fun b hb => hwell.notated hv hb

/-- Lengths that are fractions last as long as their ticks at the resolution of the tune. -/
theorem events?_inQuarters (hden : ∀ v ∈ t.voices, ∀ l ∈ v.leaves, l.length.den ≠ 0)
    (hticks : t.resolution? = some ticks) (h : t.events? ticks = some events) :
    events.map (NoteEvent.inQuarters ticks) =
      t.voices.zipIdx.flatMap fun v => Leaf.times (Leaf.lasts (t.clock ticks)) 0 v.1.leaves := by
  have htimings := congrArg (List.map fun x : Timing =>
    ((x.start : ℚ) / ticks.toNat, (x.duration : ℚ) / ticks.toNat)) (events?_timings h)
  rw [List.map_map, timings, List.map_flatMap] at htimings
  simp only [Part.map_inQuarters_timings, Nat.cast_zero, zero_div] at htimings
  refine htimings.trans (List.flatMap_congr ?_)
  intro v hv
  have hv := List.fst_mem_of_mem_zipIdx hv
  have hfit := (events?_isSome_iff t ticks).1 ⟨events, h⟩ v.1 hv
  apply Leaf.times_congr
  intro l hl
  obtain ⟨b, hb, hlb⟩ := List.mem_flatMap.1 hl
  exact Leaf.ticks_div_eq_lasts (hfit.counted l hl) (hden v.1 hv l hl)
    (den_dvd_resolution? hticks hv hb hlb)

theorem WellFormed.leaf_den_ne_zero (hwell : t.WellFormed) {v : Voice} (hv : v ∈ t.voices)
    {l : Leaf} (hl : l ∈ v.leaves) : l.length.den ≠ 0 := by
  obtain ⟨b, hb, hlb⟩ := List.mem_flatMap.1 hl
  have hmem := Element.den_mem_denominatorsAll .unit b l hlb
  have hpos := (hwell.notated hv hb).denominators_pos _ hmem
  intro h0
  rw [h0] at hpos
  exact absurd hpos (by decide)

theorem WellFormed.settled_leaf_den_ne_zero (hwell : t.WellFormed) :
    ∀ v ∈ t.settled.voices, ∀ l ∈ v.leaves, l.length.den ≠ 0 := by
  intro v' hv'
  obtain ⟨v, hv, rfl⟩ := List.mem_map.1 hv'
  rw [Voice.leaves_settled, List.forall_mem_map]
  intro l hl
  exact l.length.reduced_den_ne_zero (hwell.leaf_den_ne_zero hv hl)

theorem WellFormed.times_settled (hwell : t.WellFormed) (c : Clock) {v : Voice}
    (hv : v ∈ t.voices) :
    Leaf.times (Leaf.lasts c) 0 v.settled.leaves = Leaf.times (Leaf.lasts c) 0 v.leaves := by
  rw [Voice.leaves_settled, Leaf.times_map_reduced]
  apply Leaf.times_congr
  intro l hl
  exact Leaf.lasts_reduced c (hwell.leaf_den_ne_zero hv hl)

theorem WellFormed.times_settled_iff (hwell : t.WellFormed) (hticks : t.resolution? = some ticks)
    (hticks' : t.settled.resolution? = some ticks') {v : Voice} (hv : v ∈ t.voices) :
    Leaf.times (Leaf.lasts (t.settled.clock ticks')) 0 v.settled.leaves =
        Leaf.times (Leaf.lasts (t.clock ticks)) 0 v.leaves ↔
      ∀ l ∈ Leaf.heard v.leaves, l.lasts (t.clock ticks') = l.lasts (t.clock ticks) := by
  have hdvd := hwell.resolution?_settled_dvd hticks hticks'
  have hle : ∀ l ∈ v.leaves, l.lasts (t.clock ticks') ≤ l.lasts (t.clock ticks) := by
    intro l _
    exact l.lasts_le_of_dvd t.defaultLength hdvd (hwell.resolution?_pos hticks)
  have hback : Leaf.times (Leaf.lasts (t.settled.clock ticks')) 0 v.settled.leaves =
      Leaf.times (Leaf.lasts (t.clock ticks')) 0 v.leaves :=
    hwell.times_settled (t.clock ticks') hv
  rw [hback, Leaf.times_eq_iff le_rfl hle]
  exact and_iff_right fun _ => rfl

/-- The notes have the times they had exactly if no length before them or of them is rounded to
another. -/
theorem WellFormed.inQuarters_settled_iff (hwell : t.WellFormed)
    (hticks : t.resolution? = some ticks) (hticks' : t.settled.resolution? = some ticks')
    (h : t.events? ticks = some events) (h' : t.settled.events? ticks' = some events') :
    events'.map (NoteEvent.inQuarters ticks') = events.map (NoteEvent.inQuarters ticks) ↔
      ∀ v ∈ t.voices, ∀ l ∈ Leaf.heard v.leaves,
        l.lasts (t.clock ticks') = l.lasts (t.clock ticks) := by
  have hlength : ∀ v ∈ t.voices.zipIdx,
      (Leaf.times (Leaf.lasts (t.settled.clock ticks')) 0 v.1.settled.leaves).length =
        (Leaf.times (Leaf.lasts (t.clock ticks)) 0 v.1.leaves).length := by
    intro v hv
    rw [hwell.times_settled _ (List.fst_mem_of_mem_zipIdx hv), Leaf.length_times,
      Leaf.length_times]
  have hden : ∀ v ∈ t.voices, ∀ l ∈ v.leaves, l.length.den ≠ 0 := fun v hv l hl =>
    hwell.leaf_den_ne_zero hv hl
  rw [events?_inQuarters hden hticks h,
    events?_inQuarters hwell.settled_leaf_den_ne_zero hticks' h', zipIdx_settled, List.flatMap_map]
  refine (flatMap_eq_flatMap_iff hlength).trans ?_
  refine (@forall_mem_zipIdx_voices t fun v =>
    Leaf.times (Leaf.lasts (t.settled.clock ticks')) 0 v.settled.leaves =
      Leaf.times (Leaf.lasts (t.clock ticks)) 0 v.leaves).trans ?_
  exact forall₂_congr fun v hv => hwell.times_settled_iff hticks hticks' hv

end Tune

namespace Compilation

/-- Whatever text is compiled, and the canonical text of its tune after it: the same notes are
played by the same voices in the same order. They have the same accidentals exactly if in each chord
every letter keeps its last one, and the same times in quarter notes exactly if in no voice a length
up to the last note is rounded to another at the two resolutions. -/
theorem canonical_played_iff (text : String) (c c' : Compilation) (h : ofText text = .ok c)
    (h' : ofText c.tune.canonical = .ok c') :
    c'.events.map NoteEvent.written = c.events.map NoteEvent.written ∧
      (c'.events.map NoteEvent.voiced = c.events.map NoteEvent.voiced ↔
        ∀ v ∈ c.tune.voices, ∀ b ∈ v.played,
          ∀ x ∈ Element.signedChords [] b, x.1.Kept x.2) ∧
      (c'.events.map (NoteEvent.inQuarters c'.ticksPerQuarter) =
          c.events.map (NoteEvent.inQuarters c.ticksPerQuarter) ↔
        ∀ v ∈ c.tune.voices, ∀ l ∈ Leaf.heard v.leaves,
          l.lasts c'.clock = l.lasts c.clock) := by
  obtain ⟨hread, hticks, hevents⟩ := ofText_eq_ok h
  obtain ⟨hread', hticks', hevents'⟩ := ofText_eq_ok h'
  have hwell := Tune.ofTokens_sound (Lexed.ofText_scannable text) hread
  have htune : c'.tune = c.tune.settled := ((hwell.read_canonical_iff c'.tune).1 hread').1
  have hclock : c'.clock = c.tune.clock c'.ticksPerQuarter := by
    rw [clock, htune]
    rfl
  rw [htune] at hticks' hevents'
  rw [hclock]
  exact ⟨Tune.written_settled hevents hevents', hwell.voiced_settled_iff hevents hevents',
    hwell.inQuarters_settled_iff hticks hticks' hevents hevents'⟩

end Compilation

/-- A triplet, and a note whose length is not in lowest terms. -/
def Tune.unreduced : Tune :=
  let note (letter : Letter) (length : Duration) : Element := .note ⟨⟨letter, 0, 0⟩, length⟩
  let triplet : Element := .tuplet 3 [note .c ⟨3, 8⟩, note .d ⟨3, 8⟩, note .e ⟨3, 8⟩] 3
  { blank with voices := [⟨none, [.bar [triplet, note .f ⟨32, 16⟩]], false⟩] }

/-- A chord with a sharp in one octave and a natural in the other. -/
def Tune.crossed : Tune :=
  let low : Pitch := ⟨.c, 0, 0⟩
  let high : Pitch := ⟨.c, 1, 0⟩
  let chord : Element := .chord [⟨high, .unit⟩, ⟨low, .unit⟩, ⟨high, .unit⟩]
  { blank with voices :=
      [⟨none, [.bar [.accidental low 1, .accidental high 0, chord]], false⟩] }

namespace Compilation

/-- Two texts, the second of them the canonical text of what the first is read as. -/
theorem exists_rewritten {text text' : String} {t : Tune} {P Q : Compilation → Prop}
    [DecidablePred P] [DecidablePred Q] (hread : Tune.read text = .ok t)
    (hcanonical : Canonical.tune t = text'.toList)
    (h : (ofText text).toOption.any (fun c => P c) = true)
    (h' : (ofText text').toOption.any (fun c => Q c) = true) :
    ∃ c c', ofText text = .ok c ∧ ofText c.tune.canonical = .ok c' ∧ P c ∧ Q c' := by
  obtain ⟨c, hc, hP⟩ := exists_of_any h
  obtain ⟨c', hc', hQ⟩ := exists_of_any h'
  have htune : c.tune = t := Except.ok.inj ((ofText_eq_ok hc).1.symm.trans hread)
  have htext : c.tune.canonical = text' := by
    rw [htune, Tune.canonical, hcanonical, String.ofList_toList]
  rw [← htext] at hc'
  exact ⟨c, c', hc, hc', of_decide_eq_true hP, of_decide_eq_true hQ⟩

/-- The note in lowest terms calls for half the ticks, and the triplet is cut to nothing. In the
chord the sharp comes to stand last. -/
theorem canonical_played_iff_coarser :
    (∃ c c', ofText "L:1/8\n(3C3/8D3/8E3/8F32/16" = .ok c ∧ ofText c.tune.canonical = .ok c' ∧
      (c.ticksPerQuarter = 16 ∧ c.events.map NoteEvent.duration = [2, 2, 2, 16]) ∧
      (c'.ticksPerQuarter = 8 ∧ c'.events.map NoteEvent.duration = [0, 0, 0, 8]) ∧
      ¬∀ v ∈ c.tune.voices, ∀ l ∈ Leaf.heard v.leaves, l.lasts c'.clock = l.lasts c.clock) ∧
    ∃ c c', ofText "[c^C=c]" = .ok c ∧ ofText c.tune.canonical = .ok c' ∧
      c.events.map (fun e => e.pitch.accidental) = [0, 0, 0] ∧
      c'.events.map (fun e => e.pitch.accidental) = [1, 1, 1] ∧
      ¬∀ v ∈ c.tune.voices, ∀ b ∈ v.played, ∀ x ∈ Element.signedChords [] b, x.1.Kept x.2 := by
  constructor
  · have hread : Tune.read "L:1/8\n(3C3/8D3/8E3/8F32/16" = .ok .unreduced := by
      with_unfolding_all rfl
    have hcanonical : Canonical.tune .unreduced =
        "X:1\nM:4/4\nL:1/8\nQ:120\nK:C\n(3 C3/8 D3/8 E3/8 F2 |\n".toList := by
      simp only [Tune.unreduced, Canonical.tune, Canonical.voice, Canonical.music, Canonical.phrase,
        Canonical.bar, Canonical.words, List.flatMap_cons, List.flatMap_nil]
      decide +kernel
    have hcompiled : ∃ c c', ofText "L:1/8\n(3C3/8D3/8E3/8F32/16" = .ok c ∧
        ofText c.tune.canonical = .ok c' ∧
        (c.ticksPerQuarter = 16 ∧ c.events.map NoteEvent.duration = [2, 2, 2, 16]) ∧
        c'.ticksPerQuarter = 8 ∧ c'.events.map NoteEvent.duration = [0, 0, 0, 8] :=
      exists_rewritten hread hcanonical (by decide +kernel) (by decide +kernel)
    obtain ⟨c, c', hc, hc', hlong, hshort⟩ := hcompiled
    refine ⟨c, c', hc, hc', hlong, hshort, fun hall => ?_⟩
    have htimes := (canonical_played_iff _ c c' hc hc').2.2.2 hall
    have hquarters (ticks : UInt32) (es : List NoteEvent) :
        (es.map (NoteEvent.inQuarters ticks)).map Prod.snd =
          (es.map NoteEvent.duration).map fun d => (d.toNat : ℚ) / ticks.toNat := by
      rw [List.map_map, List.map_map]
      rfl
    have hlengths := congrArg (List.map Prod.snd) htimes
    rw [hquarters, hquarters, hlong.1, hlong.2, hshort.1, hshort.2] at hlengths
    have hfirst : ((0 : ℕ) : ℚ) / (8 : ℕ) = (2 : ℕ) / (16 : ℕ) := (List.cons.inj hlengths).1
    norm_num at hfirst
  · have hread : Tune.read "[c^C=c]" = .ok .crossed := by with_unfolding_all rfl
    have hcanonical : Canonical.tune .crossed =
        "X:1\nM:4/4\nL:1/8\nQ:120\nK:C\n[=c^Cc] |\n".toList := by
      simp only [Tune.crossed, Canonical.tune, Canonical.voice, Canonical.music, Canonical.phrase,
        Canonical.bar, Canonical.words, List.flatMap_cons, List.flatMap_nil]
      decide +kernel
    have hcompiled : ∃ c c', ofText "[c^C=c]" = .ok c ∧ ofText c.tune.canonical = .ok c' ∧
        c.events.map (fun e => e.pitch.accidental) = [0, 0, 0] ∧
        c'.events.map (fun e => e.pitch.accidental) = [1, 1, 1] :=
      exists_rewritten hread hcanonical (by decide +kernel) (by decide +kernel)
    obtain ⟨c, c', hc, hc', hnatural, hsharp⟩ := hcompiled
    refine ⟨c, c', hc, hc', hnatural, hsharp, fun hkept => ?_⟩
    have hvoiced := (canonical_played_iff _ c c' hc hc').2.1.2 hkept
    have hsigns := congrArg (List.map fun x => x.2.accidental) hvoiced
    rw [List.map_map, List.map_map] at hsigns
    have hsame : [1, 1, 1] = [(0 : Int8), 0, 0] := hsharp.symm.trans (hsigns.trans hnatural)
    exact absurd hsame (by decide)

end Compilation

end Tunebook
