import Tunebook.Proofs.Midi.Decoding

namespace Tunebook.Midi

/-- The order at one tick: setup first, then releases, then new notes. -/
def Event.rank : Event → Nat
  | noteOff .. => 1
  | noteOn .. => 2
  | _ => 0

/-- The same events by tick and rank. Those of one tick and rank are as they were given. -/
structure Arranged (given arranged : List TimedEvent) : Prop where
  sorted : arranged.Pairwise fun a b =>
    a.tick < b.tick ∨ a.tick = b.tick ∧ a.event.rank ≤ b.event.rank
  stable : ∀ tick rank,
    arranged.filter (fun e => e.tick == tick && e.event.rank == rank) =
      given.filter fun e => e.tick == tick && e.event.rank == rank

/-- Ticks that 32 bits cannot count are held to the last one. -/
def heldTick (tick : Nat) : Nat :=
  min tick (UInt32.size - 1)

/-- The tick of the file for a tick of the tune, when a quarter note of the tune has `quarter`
ticks. No header holds more than 32767 of them; there the file has 480, and the nearest is taken. -/
def fileTick (quarter tick : Nat) : Nat :=
  if quarter ≤ 32767 then tick else (tick * 480 + quarter / 2) / quarter

/-- When a note is struck and when it is released, which is at least one tick later. -/
def struck (params : Params) (quarter : Nat) (e : NoteEvent) : List TimedEvent :=
  let channel := params.channel.toNat % 16
  let start := fileTick quarter e.start.toNat
  let stop := fileTick quarter (heldTick (e.start.toNat + e.duration.toNat))
  [⟨start, .noteOn channel e.pitch.midiKey (max 1 (min 127 params.velocity.toNat))⟩,
    ⟨heldTick (start + max 1 (stop - start)), .noteOff channel e.pitch.midiKey 0⟩]

/-- What comes before the notes. The tempo is for the first voice alone, and its length of a beat is
cut to 24 bits. -/
def opening (params : Params) (tempo : UInt32) (voice : Nat) : List TimedEvent :=
  let beat := 60000000 / max 1 (params.tempo.getD tempo).toNat
  (if voice = 0 then [⟨0, .tempo (beat % 16777216)⟩] else []) ++
    params.program.toList.map fun number =>
      ⟨0, .program (params.channel.toNat % 16) (number.toNat % 128)⟩

/-- Notes without length are left out. -/
def score (params : Params) (quarter tempo : UInt32) (events : List NoteEvent) (voice : Nat) :
    List TimedEvent :=
  opening params tempo voice ++
    (events.filter fun e => e.voice == voice && 0 < e.duration.toNat).flatMap
      (struck params quarter.toNat)

def lastVoice (events : List NoteEvent) : Nat :=
  (events.map NoteEvent.voice).max?.getD 0

/-- Sorting keeps the order of members that no comparison tells apart. -/
theorem filter_mergeSort {α : Type} {le : α → α → Bool} {p : α → Bool} (as : List α)
    (htrans : ∀ a b c, le a b = true → le b c = true → le a c = true)
    (htotal : ∀ a b, (le a b || le b a) = true)
    (hp : ∀ a b, p a = true → p b = true → le a b = true) :
    (as.mergeSort le).filter p = as.filter p := by
  have hpairwise : (as.filter p).Pairwise fun a b => le a b = true := by
    apply List.pairwise_of_forall_mem_list
    intro a ha b hb
    exact hp a b (List.mem_filter.1 ha).2 (List.mem_filter.1 hb).2
  have hsub := List.sublist_mergeSort htrans htotal hpairwise List.filter_sublist
  have hsub' := hsub.filter p
  rw [List.filter_filter] at hsub'
  simp only [Bool.and_self] at hsub'
  have hlength := ((as.mergeSort_perm le).filter p).length_eq
  exact (hsub'.eq_of_length hlength.symm).symm

theorem rank_event (m : Message) : m.event.rank = m.rank := by
  cases m <;> rfl

namespace TimedMessage

theorem before_iff (a b : TimedMessage) :
    a.before b = true ↔
      a.tick.toNat < b.tick.toNat ∨
        a.tick.toNat = b.tick.toNat ∧ a.message.rank ≤ b.message.rank := by
  simp only [before, Bool.or_eq_true, Bool.and_eq_true, decide_eq_true_eq, beq_iff_eq,
    UInt32.lt_iff_toNat_lt, UInt32.toNat_inj]

theorem before_trans (a b c : TimedMessage) (hab : a.before b = true) (hbc : b.before c = true) :
    a.before c = true := by
  rw [before_iff] at hab hbc ⊢
  omega

theorem before_total (a b : TimedMessage) : (a.before b || b.before a) = true := by
  rw [Bool.or_eq_true, before_iff, before_iff]
  omega

theorem arranged_mergeSort (ms : List TimedMessage) :
    Arranged (ms.map event) ((ms.mergeSort before).map event) := by
  constructor
  · have hsorted := List.pairwise_mergeSort before_trans before_total ms
    rw [List.pairwise_map]
    refine hsorted.imp ?_
    intro a b hab
    have hle := (before_iff a b).1 hab
    simpa only [event, rank_event] using hle
  · intro tick rank
    rw [List.filter_map, List.filter_map]
    apply congrArg
    apply filter_mergeSort ms before_trans before_total
    intro a b ha hb
    simp only [Function.comp_apply, event, rank_event, Bool.and_eq_true, beq_iff_eq] at ha hb
    rw [before_iff]
    omega

end TimedMessage

/-- The messages of a track in the order of the notes. -/
def cues (params : Params) (quarter tempo : UInt32) (events : List NoteEvent) (number : Nat) :
    List TimedMessage :=
  setup params tempo number ++
    (events.filter fun e => e.voice == number && e.duration != 0).flatMap (strike params quarter)

theorem track_eq_mergeSort (params : Params) (quarter tempo : UInt32) (events : List NoteEvent)
    (number : Nat) :
    track params quarter tempo events number =
      (cues params quarter tempo events number).mergeSort TimedMessage.before := rfl

theorem toNat_and_fifteen (b : UInt8) : (b &&& 0x0f).toNat = b.toNat % 16 := by
  rw [UInt8.toNat_and]
  exact Nat.and_two_pow_sub_one_eq_mod b.toNat 4

theorem toNat_and_127 (b : UInt8) : (b &&& 0x7f).toNat = b.toNat % 128 := by
  rw [UInt8.toNat_and]
  exact Nat.and_two_pow_sub_one_eq_mod b.toNat 7

theorem loudness_toNat (velocity : UInt8) :
    (loudness velocity).toNat = max 1 (min 127 velocity.toNat) := by
  apply UInt8.toNat_ofNat_of_lt'
  change _ < 256
  omega

theorem midiKey_toNat (p : Pitch) : (UInt8.ofNat p.midiKey).toNat = p.midiKey := by
  apply UInt8.toNat_ofNat_of_lt'
  have hle : p.midiKey ≤ 127 := Nat.min_le_left _ _
  change _ < 256
  omega

theorem addTicks_toNat (a b : UInt32) : (addTicks a b).toNat = heldTick (a.toNat + b.toNat) := by
  apply UInt32.toNat_ofNat_of_lt'
  have hsize : 0 < UInt32.size := by decide
  omega

/-- Rescaling makes no tick later, so it fits. -/
theorem fileTick_le (quarter tick : Nat) : fileTick quarter tick ≤ tick := by
  unfold fileTick
  split
  · exact Nat.le_refl _
  · have hmul : tick * 480 ≤ tick * quarter := Nat.mul_le_mul_left tick (by omega)
    apply Nat.le_of_lt_succ
    rw [Nat.div_lt_iff_lt_mul (by omega), Nat.succ_mul]
    omega

theorem rescale_toNat (quarter tick : UInt32) :
    (rescale quarter tick).toNat = fileTick quarter.toNat tick.toNat := by
  have hle := fileTick_le quarter.toNat tick.toNat
  have hlt := tick.toNat_lt_size
  have hmax : quarter ≤ maxDivision ↔ quarter.toNat ≤ 32767 := UInt32.le_iff_toNat_le
  unfold rescale fileTick at *
  simp only [hmax]
  split
  · rfl
  · rename_i hq
    rw [if_neg hq] at hle
    apply UInt32.toNat_ofNat_of_lt'
    exact Nat.lt_of_le_of_lt hle hlt

theorem division_toNat (quarter : UInt32) :
    (division quarter).toNat = if quarter.toNat ≤ 32767 then max quarter.toNat 1 else 480 := by
  have hmax : quarter ≤ maxDivision ↔ quarter.toNat ≤ 32767 := UInt32.le_iff_toNat_le
  have hzero : quarter = 0 ↔ quarter.toNat = 0 := UInt32.toNat_inj.symm
  unfold division
  simp only [hmax, hzero]
  split_ifs with hle h0
  · rw [h0]
    rfl
  · exact (Nat.max_eq_left (by omega)).symm
  · rfl

theorem map_event_strike (params : Params) (quarter : UInt32) (e : NoteEvent) :
    (strike params quarter e).map TimedMessage.event = struck params quarter.toNat e := by
  have hlength (start stop : Nat) :
      (UInt32.ofNat (max 1 (fileTick quarter.toNat (heldTick stop) - start))).toNat =
        max 1 (fileTick quarter.toNat (heldTick stop) - start) := by
    have hfile := fileTick_le quarter.toNat (heldTick stop)
    have hheld : heldTick stop ≤ UInt32.size - 1 := Nat.min_le_right _ _
    have hone : 1 < UInt32.size := by decide
    apply UInt32.toNat_ofNat_of_lt'
    omega
  simp only [strike, struck, List.map_cons, List.map_nil, TimedMessage.event, Message.event,
    addTicks_toNat, rescale_toNat, hlength, toNat_and_fifteen, midiKey_toNat, loudness_toNat]

theorem map_event_setup (params : Params) (tempo : UInt32) (number : Nat) :
    (setup params tempo number).map TimedMessage.event = opening params tempo number := by
  unfold setup opening
  rw [List.map_append]
  congr 1
  · split <;> rfl
  · cases params.program with
    | none => rfl
    | some n =>
      simp only [List.map_cons, List.map_nil, TimedMessage.event, Message.event,
        toNat_and_fifteen, toNat_and_127, Option.toList_some]
      rfl

theorem map_event_cues (params : Params) (quarter tempo : UInt32) (events : List NoteEvent)
    (number : Nat) :
    (cues params quarter tempo events number).map TimedMessage.event =
      score params quarter tempo events number := by
  have hfilter : (events.filter fun e => e.voice == number && e.duration != 0) =
      events.filter fun e => e.voice == number && 0 < e.duration.toNat := by
    apply List.filter_congr
    intro e _
    have hzero : e.duration = 0 ↔ e.duration.toNat = 0 := UInt32.toNat_inj.symm
    rw [Bool.eq_iff_iff]
    simp only [Bool.and_eq_true, bne_iff_ne, ne_eq, decide_eq_true_eq, hzero, Nat.pos_iff_ne_zero]
  rw [cues, List.map_append, map_event_setup, List.map_flatMap, hfilter, score]
  simp only [map_event_strike]

theorem sound_strike (params : Params) (quarter : UInt32) (e : NoteEvent) :
    ∀ m ∈ strike params quarter e, m.message.Sound := by
  have hchannel : (params.channel &&& 0x0f).toNat < 16 := by
    rw [toNat_and_fifteen]
    exact Nat.mod_lt _ (by decide)
  have hkey : (UInt8.ofNat e.pitch.midiKey).toNat < 128 := by
    have hle : e.pitch.midiKey ≤ 127 := Nat.min_le_left _ _
    rw [midiKey_toNat]
    omega
  have hvelocity : (loudness params.velocity).toNat < 128 := by
    rw [loudness_toNat]
    omega
  rw [strike, List.forall_mem_cons, List.forall_mem_singleton]
  exact ⟨⟨hchannel, hkey, hvelocity⟩, hchannel, hkey⟩

theorem sound_setup (params : Params) (tempo : UInt32) (number : Nat) :
    ∀ m ∈ setup params tempo number, m.message.Sound := by
  unfold setup
  rw [List.forall_mem_append]
  constructor
  · split
    · rw [List.forall_mem_singleton]
      trivial
    · simp
  · cases params.program with
    | none => simp
    | some n =>
      rw [List.forall_mem_singleton]
      refine ⟨?_, ?_⟩
      · rw [toNat_and_fifteen]
        exact Nat.mod_lt _ (by decide)
      · rw [toNat_and_127]
        exact Nat.mod_lt _ (by decide)

theorem sound_track (params : Params) (quarter tempo : UInt32) (events : List NoteEvent)
    (number : Nat) : ∀ m ∈ track params quarter tempo events number, m.message.Sound := by
  intro m hm
  rw [track_eq_mergeSort, List.mem_mergeSort, cues, List.mem_append] at hm
  rcases hm with hm | hm
  · exact sound_setup params tempo number m hm
  · obtain ⟨e, -, hm⟩ := List.mem_flatMap.1 hm
    exact sound_strike params quarter e m hm

theorem track?_track (params : Params) (quarter tempo : UInt32) (events : List NoteEvent)
    (number : Nat) :
    Cursor.track? ⟨0, none, trackData (track params quarter tempo events number)⟩ =
      some (trackOf (track params quarter tempo events number)) := by
  have hsorted := List.pairwise_mergeSort TimedMessage.before_trans TimedMessage.before_total
    (cues params quarter tempo events number)
  apply Cursor.track?_deltas 0 none (sound_track params quarter tempo events number)
  · intro m _
    exact Nat.zero_le _
  · refine hsorted.imp ?_
    intro a b hab
    have hle := (TimedMessage.before_iff a b).1 hab
    omega

theorem trackCount_eq (events : List NoteEvent) : trackCount events = lastVoice events + 1 := by
  have hfold (n : Nat) : events.foldl (fun n e => max n (e.voice + 1)) (n + 1) =
      (events.map NoteEvent.voice).foldl max n + 1 := by
    induction events generalizing n with
    | nil => rfl
    | cons e events ih =>
      have hmax : max (n + 1) (e.voice + 1) = max n e.voice + 1 := by omega
      rw [List.foldl_cons, hmax, ih, List.map_cons, List.foldl_cons]
  have hmax : (events.map NoteEvent.voice).foldl max 0 = lastVoice events := by
    rw [List.foldl_max, lastVoice, Nat.zero_max]
  rw [trackCount, hfold 0, hmax]

theorem lastVoice_lt {events : List NoteEvent} {n : Nat} (hn : 0 < n)
    (h : ∀ e ∈ events, e.voice < n) : lastVoice events < n := by
  unfold lastVoice
  cases hmax : (events.map NoteEvent.voice).max? with
  | none => exact hn
  | some v =>
    obtain ⟨e, he, rfl⟩ := List.mem_map.1 (List.max?_mem hmax)
    exact h e he

theorem length_track_le (params : Params) (quarter tempo : UInt32) (events : List NoteEvent)
    (number : Nat) : (track params quarter tempo events number).length ≤ 2 * events.length + 2 := by
  have hsetup : (setup params tempo number).length ≤ 2 := by
    unfold setup
    rw [List.length_append]
    split <;> cases params.program <;> simp
  have hstrikes (es : List NoteEvent) :
      (es.flatMap (strike params quarter)).length = 2 * es.length := by
    induction es with
    | nil => rfl
    | cons e es ih =>
      rw [List.flatMap_cons, List.length_append, ih, List.length_cons]
      change 2 + 2 * es.length = _
      omega
  have hfilter := events.length_filter_le fun e => e.voice == number && e.duration != 0
  rw [track_eq_mergeSort, List.length_mergeSort, cues, List.length_append, hstrikes]
  omega

/-- A hundred million notes fit into any track. -/
theorem length_trackData_lt {params : Params} {quarter tempo : UInt32} {events : List NoteEvent}
    (h : events.length ≤ 100000000) (number : Nat) :
    (trackData (track params quarter tempo events number)).length < UInt32.size := by
  have hdeltas := length_deltas_le 0 (track params quarter tempo events number)
  have htrack := length_track_le params quarter tempo events number
  rw [trackData, List.length_append]
  change _ + 4 < 4294967296
  omega

/-- The count of tracks fits its two bytes, and the length of each track its four. -/
structure Writable (events : List NoteEvent) (quarter tempo : UInt32) (params : Params) : Prop where
  voices : ∀ e ∈ events, e.voice < 65535
  sizes : ∀ number ≤ lastVoice events,
    (trackData (track params quarter tempo events number)).length < UInt32.size

theorem writable_of_length {events : List NoteEvent} {quarter tempo : UInt32} {params : Params}
    (hvoices : ∀ e ∈ events, e.voice < 65535) (hlength : events.length ≤ 100000000) :
    Writable events quarter tempo params :=
  ⟨hvoices, fun number _ => length_trackData_lt hlength number⟩

def contents (events : List NoteEvent) (quarter tempo : UInt32) (params : Params) : Contents :=
  ⟨if lastVoice events = 0 then 0 else 1, (division quarter).toNat,
    (List.range (lastVoice events + 1)).map fun number =>
      trackOf (track params quarter tempo events number)⟩

theorem length_tracks (events : List NoteEvent) (quarter tempo : UInt32) (params : Params) :
    (contents events quarter tempo params).tracks.length = lastVoice events + 1 := by
  rw [contents, List.length_map, List.length_range]

theorem tracks_getElem? {events : List NoteEvent} {quarter tempo : UInt32} {params : Params}
    {voice : Nat} {t : Track} (h : (contents events quarter tempo params).tracks[voice]? = some t) :
    t = trackOf (track params quarter tempo events voice) := by
  rw [contents, List.getElem?_map, Option.map_eq_some_iff] at h
  obtain ⟨number, hnumber, rfl⟩ := h
  obtain ⟨hlt, hget⟩ := List.getElem?_eq_some_iff.1 hnumber
  rw [← hget, List.getElem_range]

theorem arranged_track (params : Params) (quarter tempo : UInt32) (events : List NoteEvent)
    (voice : Nat) :
    Arranged (score params quarter tempo events voice)
      (trackOf (track params quarter tempo events voice)).events := by
  rw [← map_event_cues]
  exact TimedMessage.arranged_mergeSort (cues params quarter tempo events voice)

theorem headerSound_file {events : List NoteEvent} (quarter : UInt32)
    (h : ∀ e ∈ events, e.voice < 65535) :
    headerSound (if lastVoice events = 0 then 0 else 1) (lastVoice events + 1)
      (division quarter).toNat (lastVoice events + 1) = true := by
  have hlast := lastVoice_lt (by decide) h
  rw [division_toNat]
  simp only [headerSound, Bool.and_eq_true, Bool.or_eq_true, decide_eq_true_eq, bne_iff_ne,
    beq_iff_eq]
  refine ⟨⟨⟨⟨?_, ?_⟩, trivial⟩, ?_⟩, ?_⟩ <;> split_ifs <;> omega

theorem Writable.read?_eq {events : List NoteEvent} {quarter tempo : UInt32} {params : Params}
    (h : Writable events quarter tempo params) :
    Contents.read? (file events quarter tempo params) =
      some (contents events quarter tempo params) := by
  let tracks := (List.range (lastVoice events + 1)).map (track params quarter tempo events)
  have hlength : tracks.length = lastVoice events + 1 := by
    rw [List.length_map, List.length_range]
  have hheader := headerSound_file quarter h.voices
  rw [← hlength] at hheader
  have hcount : tracks.length < UInt16.size := by
    have hlast := lastVoice_lt (by decide) h.voices
    rw [hlength]
    change _ < 65536
    omega
  have hsizes : ∀ ms ∈ tracks, (trackData ms).length < UInt32.size := by
    rw [List.forall_mem_map]
    intro number hnumber
    exact h.sizes number (Nat.le_of_lt_succ (List.mem_range.1 hnumber))
  have htracks : ∀ ms ∈ tracks, Cursor.track? ⟨0, none, trackData ms⟩ = some (trackOf ms) := by
    rw [List.forall_mem_map]
    intro number _
    exact track?_track params quarter tempo events number
  have hread := Contents.read?_chunks hheader hcount hsizes htracks
  simp only [hlength, tracks, List.flatMap_map, List.map_map, headerData,
    List.append_assoc] at hread
  rw [file, trackCount_eq]
  simp only [List.append_assoc, Nat.add_eq_right]
  exact hread

/-- Whatever events a file is written for, as long as its counts and lengths fit their bytes: it is
read to the last byte, with a track for each voice up to the last that plays, and each track is the
score of its voice in the order of time, ending with its last event. -/
theorem read?_file (events : List NoteEvent) (quarter tempo : UInt32) (params : Params)
    (h : Writable events quarter tempo params) :
    ∃ c, Contents.read? (file events quarter tempo params) = some c ∧
      c.format = (if lastVoice events = 0 then 0 else 1) ∧
      c.division = (if quarter.toNat ≤ 32767 then max quarter.toNat 1 else 480) ∧
      c.tracks.length = lastVoice events + 1 ∧
      ∀ voice t, c.tracks[voice]? = some t →
        Arranged (score params quarter tempo events voice) t.events ∧
          t.finish = lastTick 0 t.events := by
  refine ⟨_, h.read?_eq, rfl, division_toNat quarter, length_tracks events quarter tempo params, ?_⟩
  intro voice t ht
  obtain rfl := tracks_getElem? ht
  exact ⟨arranged_track params quarter tempo events voice, rfl⟩

/-- Two voices, of which the second is silent until the last ticks there are, at a resolution that
no header holds, with a program and a tempo of their own. -/
theorem read?_file_rescaled :
    let events : List NoteEvent := [⟨⟨.c, 0, 0⟩, 0, 0, 96000⟩, ⟨⟨.c, 0, 1⟩, 0, 96000, 1⟩,
      ⟨⟨.e, 0, 0⟩, 1, 4294967294, 5⟩]
    let params : Params := ⟨200, 19, some 40, some 60⟩
    Writable events 96000 120 params ∧
      (score params 96000 120 events 1).map TimedEvent.tick = [0, 21474836, 21474837] ∧
      ∃ c, Contents.read? (file events 96000 120 params) = some c ∧ c.format = 1 ∧
        c.division = 480 ∧ c.tracks.length = 2 ∧
        ∀ voice t, c.tracks[voice]? = some t →
          Arranged (score params 96000 120 events voice) t.events := by
  intro events params
  have hwritable : Writable events 96000 120 params :=
    writable_of_length (by decide) (by decide)
  have hscore : (score params 96000 120 events 1).map TimedEvent.tick =
      [0, 21474836, 21474837] := by decide +kernel
  obtain ⟨c, hread, hformat, hdivision, hlength, htracks⟩ :=
    read?_file events 96000 120 params hwritable
  refine ⟨hwritable, hscore, c, hread, hformat, hdivision, hlength, ?_⟩
  intro voice t ht
  exact (htracks voice t ht).1

end Tunebook.Midi
