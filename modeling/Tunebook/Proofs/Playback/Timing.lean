import Tunebook.Compilation
import Tunebook.Proofs.Lists
import Tunebook.Proofs.Playback.Items

namespace Tunebook

namespace Leaf

def ticks? (c : Clock) (l : Leaf) : Option UInt32 :=
  c.ticks? l.scale l.length

def ticks (c : Clock) (l : Leaf) : Nat :=
  (l.ticks? c).elim 0 UInt32.toNat

def span (c : Clock) : List Leaf → Nat
  | [] => 0
  | l :: ls => l.ticks c + span c ls

/-- Every leaf has its ticks, and 32 bits are enough for all of them from `start` on. -/
structure Fit (c : Clock) (start : Nat) (ls : List Leaf) : Prop where
  counted : ∀ l ∈ ls, (l.ticks? c).isSome = true
  bound : start + span c ls < UInt32.size

@[simp] theorem span_nil (c : Clock) : span c [] = 0 := rfl

@[simp] theorem span_cons (c : Clock) (l : Leaf) (ls : List Leaf) :
    span c (l :: ls) = l.ticks c + span c ls := rfl

theorem span_append (c : Clock) (ls ms : List Leaf) :
    span c (ls ++ ms) = span c ls + span c ms := by
  induction ls with
  | nil => rw [List.nil_append, span_nil, Nat.zero_add]
  | cons l ls ih => rw [List.cons_append, span_cons, span_cons, ih, Nat.add_assoc]

theorem ticks_of_some {c : Clock} {l : Leaf} {n : UInt32} (h : l.ticks? c = some n) :
    l.ticks c = n.toNat := by
  rw [ticks, h]
  rfl

theorem fit_append {c : Clock} {start : Nat} {ls ms : List Leaf} :
    Fit c start (ls ++ ms) ↔ Fit c start ls ∧ Fit c (start + span c ls) ms := by
  constructor
  · rintro ⟨hcounted, hbound⟩
    rw [List.forall_mem_append] at hcounted
    rw [span_append] at hbound
    exact ⟨⟨hcounted.1, by omega⟩, hcounted.2, by omega⟩
  · rintro ⟨hls, hms⟩
    refine ⟨List.forall_mem_append.2 ⟨hls.counted, hms.counted⟩, ?_⟩
    have hbound := hms.bound
    rw [span_append]
    omega

end Leaf

/-- Which note is played when, whatever its accidental. -/
structure Timing where
  voice : Nat
  letter : Letter
  octave : Int8
  start : Nat
  duration : Nat

def NoteEvent.timing (e : NoteEvent) : Timing :=
  ⟨e.voice, e.pitch.letter, e.pitch.octave, e.start.toNat, e.duration.toNat⟩

namespace Part

/-- The pitches of a leaf start together and last as long as the leaf. -/
def chime (part : Part) (start : Nat) (l : Leaf) : List Timing :=
  l.pitches.map fun pitch =>
    ⟨part.voice, pitch.letter, pitch.octave, start, l.ticks part.clock⟩

/-- Each leaf starts after the ticks of all leaves before it. -/
def timings (part : Part) (start : Nat) (ls : List Leaf) : List Timing :=
  (withEarlier ls).flatMap fun x => part.chime (start + Leaf.span part.clock x.1) x.2

theorem timings_nil (part : Part) (start : Nat) : part.timings start [] = [] := rfl

theorem timings_cons (part : Part) (start : Nat) (l : Leaf) (ls : List Leaf) :
    part.timings start (l :: ls) =
      part.chime start l ++ part.timings (start + l.ticks part.clock) ls := by
  unfold timings
  rw [withEarlier_cons, List.flatMap_cons, List.flatMap_map]
  simp only [Leaf.span_nil, Leaf.span_cons, Nat.add_zero, Nat.add_assoc]

theorem timings_append (part : Part) (start : Nat) (ls ms : List Leaf) :
    part.timings start (ls ++ ms) =
      part.timings start ls ++ part.timings (start + Leaf.span part.clock ls) ms := by
  induction ls generalizing start with
  | nil => rw [List.nil_append, timings_nil, List.nil_append, Leaf.span_nil, Nat.add_zero]
  | cons l ls ih =>
    rw [List.cons_append, timings_cons, timings_cons, ih, List.append_assoc, Leaf.span_cons,
      Nat.add_assoc]

theorem map_timing_sound {part : Part} {l : Leaf} {n : UInt32} (p : Playhead)
    (h : l.ticks? part.clock = some n) :
    (l.pitches.map (part.sound p n)).map NoteEvent.timing = part.chime p.tick.toNat l := by
  rw [List.map_map, chime, Leaf.ticks_of_some h]
  apply List.map_congr_left
  intro pitch _
  rw [Function.comp_apply, sound, NoteEvent.timing, Scope.resolve]
  split <;> rfl

/-- The leaves are played from `start` until `stop`, and these are their events. -/
structure Laid (part : Part) (start stop : Nat) (ls : List Leaf) (events : List NoteEvent) :
    Prop where
  fit : Leaf.Fit part.clock start ls
  stop_eq : stop = start + Leaf.span part.clock ls
  timing : events.map NoteEvent.timing = part.timings start ls

theorem laid_nil (part : Part) (tick : UInt32) : Laid part tick.toNat tick.toNat [] [] :=
  ⟨⟨by simp, tick.toNat_lt_size⟩, rfl, rfl⟩

theorem Laid.append {part : Part} {start middle stop : Nat} {ls ms : List Leaf}
    {es fs : List NoteEvent} (h : Laid part start middle ls es)
    (h' : Laid part middle stop ms fs) : Laid part start stop (ls ++ ms) (es ++ fs) := by
  obtain rfl := h.stop_eq
  refine ⟨Leaf.fit_append.2 ⟨h.fit, h'.fit⟩, ?_, ?_⟩
  · rw [h'.stop_eq, Leaf.span_append, Nat.add_assoc]
  · rw [List.map_append, h.timing, h'.timing, timings_append]

/-- One item: what takes time sounds at once and moves the time on. An accidental does neither. -/
theorem item?_laid {part : Part} {p q : Playhead} {item : Item} {events : List NoteEvent}
    (h : part.item? p item = some (events, q)) :
    Laid part p.tick.toNat q.tick.toNat item.leaf?.toList events := by
  cases item with
  | sign letter value =>
    obtain ⟨rfl, rfl⟩ := Prod.mk.inj (Option.some.inj h)
    exact laid_nil part p.tick
  | leaf l =>
    simp only [item?, Option.bind_eq_some_iff, Option.map_eq_some_iff, Prod.mk.injEq] at h
    obtain ⟨n, hn, next, hnext, rfl, rfl⟩ := h
    have hticks : l.ticks? part.clock = some n := hn
    have htick := (Playhead.advance?_eq_some_iff.1 hnext).1
    have hspan : Leaf.span part.clock [l] = n.toNat := by
      rw [Leaf.span_cons, Leaf.span_nil, Leaf.ticks_of_some hticks, Nat.add_zero]
    change Laid part p.tick.toNat next.tick.toNat [l] _
    refine ⟨⟨?_, ?_⟩, ?_, ?_⟩
    · simp [hticks]
    · rw [hspan, ← htick]
      exact next.tick.toNat_lt_size
    · rw [hspan, htick]
    · rw [map_timing_sound p hticks, timings_cons, timings_nil, List.append_nil]

theorem item?_isSome {part : Part} {p : Playhead} {item : Item}
    (h : Leaf.Fit part.clock p.tick.toNat item.leaf?.toList) :
    ∃ events q, part.item? p item = some (events, q) := by
  cases item with
  | sign letter value => exact ⟨_, _, rfl⟩
  | leaf l =>
    have hl : l ∈ (Item.leaf l).leaf?.toList := by simp [Item.leaf?]
    obtain ⟨n, hn⟩ := Option.isSome_iff_exists.1 (h.counted l hl)
    have hbound : p.tick.toNat + (l.ticks part.clock + 0) < UInt32.size := h.bound
    rw [Leaf.ticks_of_some hn, Nat.add_zero] at hbound
    let next : Playhead := ⟨UInt32.ofNatLT _ hbound, p.scope⟩
    have hnext : p.advance? n = some next :=
      Playhead.advance?_eq_some_iff.2 ⟨UInt32.toNat_ofNatLT, rfl⟩
    have hticks : part.clock.ticks? l.scale l.length = some n := hn
    refine ⟨l.pitches.map (part.sound p n), next, ?_⟩
    rw [item?, hticks, Option.bind_some, hnext]
    rfl

theorem items?_laid {part : Part} {p q : Playhead} {items : List Item} {events : List NoteEvent}
    (h : part.items? p items = some (events, q)) :
    Laid part p.tick.toNat q.tick.toNat (items.filterMap Item.leaf?) events := by
  induction items generalizing p events with
  | nil =>
    obtain ⟨rfl, rfl⟩ := Prod.mk.inj (Option.some.inj h)
    exact laid_nil part p.tick
  | cons item items ih =>
    simp only [items?, Option.bind_eq_some_iff, Option.map_eq_some_iff, Prod.mk.injEq] at h
    obtain ⟨⟨first, middle⟩, hfirst, ⟨others, last⟩, hothers, rfl, rfl⟩ := h
    rw [Item.filterMap_leaf?_cons]
    exact (item?_laid hfirst).append (ih hothers)

theorem items?_isSome {part : Part} {p : Playhead} {items : List Item}
    (h : Leaf.Fit part.clock p.tick.toNat (items.filterMap Item.leaf?)) :
    ∃ events q, part.items? p items = some (events, q) := by
  induction items generalizing p with
  | nil => exact ⟨_, _, rfl⟩
  | cons item items ih =>
    rw [Item.filterMap_leaf?_cons, Leaf.fit_append] at h
    obtain ⟨first, middle, hfirst⟩ := item?_isSome h.1
    have hothers := h.2
    rw [← (item?_laid hfirst).stop_eq] at hothers
    obtain ⟨others, last, hlast⟩ := ih hothers
    refine ⟨first ++ others, last, ?_⟩
    rw [items?, hfirst, Option.bind_some, hlast]
    rfl

theorem bars?_laid {part : Part} {key : KeySignature} {tick : UInt32} {bs : List Bar}
    {events : List NoteEvent} (h : part.bars? key tick bs = some events) :
    ∃ stop, Laid part tick.toNat stop
      (bs.flatMap fun b => (Bar.items b).filterMap Item.leaf?) events := by
  induction bs generalizing tick events with
  | nil =>
    obtain rfl := Option.some.inj h
    exact ⟨_, laid_nil part tick⟩
  | cons b bs ih =>
    simp only [bars?_cons, Option.bind_eq_some_iff, Option.map_eq_some_iff] at h
    obtain ⟨⟨first, middle⟩, hfirst, others, hothers, rfl⟩ := h
    obtain ⟨stop, hlaid⟩ := ih hothers
    exact ⟨stop, (items?_laid hfirst).append hlaid⟩

theorem bars?_isSome {part : Part} {key : KeySignature} {tick : UInt32} {bs : List Bar}
    (h : Leaf.Fit part.clock tick.toNat
      (bs.flatMap fun b => (Bar.items b).filterMap Item.leaf?)) :
    ∃ events, part.bars? key tick bs = some events := by
  induction bs generalizing tick with
  | nil => exact ⟨_, rfl⟩
  | cons b bs ih =>
    rw [List.flatMap_cons, Leaf.fit_append] at h
    obtain ⟨first, middle, hfirst⟩ :=
      @items?_isSome part ⟨tick, key.alteration?⟩ (Bar.items b) h.1
    have hothers := h.2
    rw [← (items?_laid hfirst).stop_eq] at hothers
    obtain ⟨others, hlast⟩ := ih hothers
    refine ⟨first ++ others, ?_⟩
    rw [bars?_cons, hfirst, Option.bind_some, hlast]
    rfl

theorem mem_timings {part : Part} {start : Nat} {ls : List Leaf} {x : Timing}
    (h : x ∈ part.timings start ls) :
    x.voice = part.voice ∧ start ≤ x.start ∧
      x.start + x.duration ≤ start + Leaf.span part.clock ls := by
  induction ls generalizing start with
  | nil => simp [timings_nil] at h
  | cons l ls ih =>
    rw [timings_cons, List.mem_append] at h
    rw [Leaf.span_cons]
    rcases h with h | h
    · obtain ⟨pitch, -, rfl⟩ := List.mem_map.1 h
      exact ⟨rfl, Nat.le_refl _, by dsimp only; omega⟩
    · obtain ⟨hvoice, hstart, hend⟩ := ih h
      exact ⟨hvoice, by omega, by omega⟩

theorem timings_pairwise (part : Part) (start : Nat) (ls : List Leaf) :
    (part.timings start ls).Pairwise fun x y => x.start ≤ y.start := by
  induction ls generalizing start with
  | nil => exact List.Pairwise.nil
  | cons l ls ih =>
    rw [timings_cons, List.pairwise_append]
    refine ⟨?_, ih _, ?_⟩
    · rw [chime, List.pairwise_map]
      exact List.pairwise_of_forall fun _ _ => Nat.le_refl _
    · intro x hx y hy
      obtain ⟨pitch, -, rfl⟩ := List.mem_map.1 hx
      have hstart := (mem_timings hy).2.1
      dsimp only
      omega

end Part

namespace Tune

def timings (t : Tune) (ticks : UInt32) : List Timing :=
  t.voices.zipIdx.flatMap fun v => Part.timings ⟨t.clock ticks, v.2⟩ 0 v.1.leaves

/-- By voice, and in each voice by time. -/
theorem timings_pairwise (t : Tune) (ticks : UInt32) :
    (t.timings ticks).Pairwise fun x y =>
      x.voice < y.voice ∨ x.voice = y.voice ∧ x.start ≤ y.start := by
  have hindex : t.voices.zipIdx.Pairwise fun v w => v.2 < w.2 := by
    rw [← List.pairwise_map, List.zipIdx_map_snd]
    exact List.pairwise_lt_range' 1
  rw [timings, List.pairwise_flatMap]
  constructor
  · intro v _
    refine (Part.timings_pairwise _ 0 v.1.leaves).imp_of_mem ?_
    intro x y hx hy hxy
    rw [(Part.mem_timings hx).1, (Part.mem_timings hy).1]
    exact Or.inr ⟨rfl, hxy⟩
  · refine hindex.imp ?_
    intro v w hvw x hx y hy
    rw [(Part.mem_timings hx).1, (Part.mem_timings hy).1]
    exact Or.inl hvw

theorem events?_isSome_iff (t : Tune) (ticks : UInt32) :
    (∃ events, t.events? ticks = some events) ↔
      ∀ v ∈ t.voices, Leaf.Fit (t.clock ticks) 0 v.leaves := by
  have hvoice (v : Voice) (index : Nat) :
      (∃ es, Part.bars? ⟨t.clock ticks, index⟩ t.key 0 v.played = some es) ↔
        Leaf.Fit (t.clock ticks) 0 v.leaves := by
    constructor
    · rintro ⟨es, hes⟩
      obtain ⟨stop, hlaid⟩ := Part.bars?_laid hes
      exact hlaid.fit
    · intro hfit
      exact @Part.bars?_isSome ⟨t.clock ticks, index⟩ t.key 0 v.played hfit
  have hparts : (∃ events, t.events? ticks = some events) ↔
      ∃ parts, List.Forall₂
        (fun v es => Part.bars? ⟨t.clock ticks, v.2⟩ t.key 0 v.1.played = some es)
        t.voices.zipIdx parts := by
    simp only [events?_eq_some_iff]
    constructor
    · rintro ⟨_, parts, hparts, -⟩
      exact ⟨parts, hparts⟩
    · rintro ⟨parts, hparts⟩
      exact ⟨_, parts, hparts, rfl⟩
  rw [hparts, exists_forall₂_iff]
  simp only [hvoice]
  conv_rhs => rw [← t.voices.zipIdx_map_fst 0, List.forall_mem_map]

theorem events?_timings {t : Tune} {ticks : UInt32} {events : List NoteEvent}
    (h : t.events? ticks = some events) : events.map NoteEvent.timing = t.timings ticks := by
  obtain ⟨parts, hparts, rfl⟩ := events?_eq_some_iff.1 h
  apply map_flatten_of_forall₂
  refine hparts.imp ?_
  intro v es hes
  obtain ⟨stop, hlaid⟩ := Part.bars?_laid hes
  exact hlaid.timing

theorem mem_events? {t : Tune} {ticks : UInt32} {events : List NoteEvent} {e : NoteEvent}
    (h : t.events? ticks = some events) (he : e ∈ events) :
    e.voice < t.voices.length ∧ e.start.toNat + e.duration.toNat < UInt32.size := by
  have hmem : e.timing ∈ t.timings ticks := by
    rw [← events?_timings h]
    exact List.mem_map_of_mem he
  obtain ⟨v, hv, hvmem⟩ := List.mem_flatMap.1 hmem
  obtain ⟨hvoice, -, hend⟩ := Part.mem_timings hvmem
  have hfit := (events?_isSome_iff t ticks).1 ⟨events, h⟩ v.1 (List.fst_mem_of_mem_zipIdx hv)
  have hindex : v.2 < t.voices.length := List.snd_lt_of_mem_zipIdx hv
  constructor
  · exact Nat.lt_of_le_of_lt (Nat.le_of_eq hvoice) hindex
  · exact Nat.lt_of_le_of_lt hend hfit.bound

/-- Compiling a tune fails only for want of ticks. -/
theorem ofTune_eq_error_iff {t : Tune} {ticks : UInt32} {e : TuneError}
    (h : t.resolution? = some ticks) :
    Compilation.ofTune t = .error e ↔ e = .tooManyTicks ∧ t.events? ticks = none := by
  simp only [Compilation.ofTune, h]
  cases t.events? ticks with
  | none => simp [eq_comm]
  | some events => simp

/-- Whatever the tune and the resolution: it has events if and only if every leaf has its ticks and
in no voice they come to more than 32 bits can count; a lack of ticks is the only error. The
events come by voice and leaf by leaf, one for each pitch, and each starts after the ticks of all
earlier leaves of its voice and lasts for those of its own. -/
theorem events?_laid_out (t : Tune) (ticks : UInt32) :
    ((∃ events, t.events? ticks = some events) ↔
        ∀ v ∈ t.voices, Leaf.Fit (t.clock ticks) 0 v.leaves) ∧
      (∀ e, t.resolution? = some ticks →
        (Compilation.ofTune t = .error e ↔ e = .tooManyTicks ∧ t.events? ticks = none)) ∧
      ∀ events, t.events? ticks = some events →
        events.map NoteEvent.timing = t.timings ticks ∧
        events.Pairwise (fun e f => e.voice < f.voice ∨ e.voice = f.voice ∧ e.start ≤ f.start) ∧
        ∀ e ∈ events, e.start.toNat + e.duration.toNat < UInt32.size := by
  refine ⟨events?_isSome_iff t ticks, fun e h => ofTune_eq_error_iff h, ?_⟩
  intro events h
  have htimings := events?_timings h
  refine ⟨htimings, ?_, ?_⟩
  · have hpairwise := t.timings_pairwise ticks
    rw [← htimings, List.pairwise_map] at hpairwise
    exact hpairwise
  · intro e he
    have hmem : e.timing ∈ t.timings ticks := by
      rw [← htimings]
      exact List.mem_map_of_mem he
    obtain ⟨v, hv, hvmem⟩ := List.mem_flatMap.1 hmem
    have hfit := (events?_isSome_iff t ticks).1 ⟨events, h⟩ v.1 (List.fst_mem_of_mem_zipIdx hv)
    have hend := (Part.mem_timings hvmem).2.2
    exact Nat.lt_of_le_of_lt hend hfit.bound

/-- A triplet with a rest in it, and a chord that is repeated, against a second voice. -/
def descant : Tune :=
  let note (letter : Letter) (length : Duration) : Note := ⟨⟨letter, 0, 0⟩, length⟩
  let triplet : Element :=
    .tuplet 3 [.note (note .c .unit), .rest .unit, .note (note .d .unit), .note (note .e .unit)] 3
  let chord : Element := .chord [note .c ⟨2, 1⟩, note .g .unit]
  { blank with voices :=
      [⟨none, [.bar [triplet], .repeated ⟨[[chord]], [], []⟩], false⟩,
        ⟨some "b", [.bar [.rest .unit, .note (note .a .unit)]], false⟩] }

theorem events?_laid_out_descant :
    descant.resolution? = some 24 ∧ (∀ e, Compilation.ofTune descant ≠ .error e) ∧
      (∀ v ∈ descant.voices, Leaf.Fit (descant.clock 24) 0 v.leaves) ∧
      ∃ events, descant.events? 24 = some events ∧
        events.map NoteEvent.timing = descant.timings 24 ∧
        events.map (fun e => (e.voice, e.start, e.duration)) =
          [(0, 0, 8), (0, 16, 8), (0, 24, 8), (0, 32, 24), (0, 32, 24), (0, 56, 24), (0, 56, 24),
            (1, 12, 12)] := by
  have hresolution : descant.resolution? = some 24 := by decide +kernel
  have hsome : (descant.events? 24).isSome = true := by decide +kernel
  have hlist : (descant.events? 24).map (List.map fun e => (e.voice, e.start, e.duration)) = some
      [(0, 0, 8), (0, 16, 8), (0, 24, 8), (0, 32, 24), (0, 32, 24), (0, 56, 24), (0, 56, 24),
        (1, 12, 12)] := by decide +kernel
  obtain ⟨events, h⟩ := Option.isSome_iff_exists.1 hsome
  obtain ⟨hiff, herror, hevents⟩ := events?_laid_out descant 24
  rw [h] at hlist
  refine ⟨hresolution, ?_, hiff.1 ⟨events, h⟩, events, h, (hevents events h).1,
    Option.some.inj hlist⟩
  intro e he
  have hnone := ((herror e hresolution).1 he).2
  rw [h] at hnone
  cases hnone

end Tune

end Tunebook
