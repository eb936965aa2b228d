import Tunebook.Proofs.Midi.Balance

namespace Tunebook.Midi

/-- The length of a beat that an event sets. -/
def Event.beat? : Event → Option Nat
  | tempo microseconds => some microseconds
  | _ => none

def beats (es : List TimedEvent) : List (Nat × Nat) :=
  es.filterMap fun e => e.event.beat?.map fun beat => (e.tick, beat)

theorem mergeSort_cons_of_forall_le {α : Type} {le : α → α → Bool}
    (htrans : ∀ a b c, le a b = true → le b c = true → le a c = true)
    (htotal : ∀ a b, (le a b || le b a) = true) (a : α) (as : List α)
    (h : ∀ b ∈ as, le a b = true) : (a :: as).mergeSort le = a :: as.mergeSort le := by
  obtain ⟨before, after, hcons, htail, hbefore⟩ := List.mergeSort_cons htrans htotal a as
  have hnil : before = [] := by
    rw [List.eq_nil_iff_forall_not_mem]
    intro b hb
    have hmem : b ∈ as.mergeSort le := by
      rw [htail]
      exact List.mem_append_left after hb
    have hle := h b (List.mem_mergeSort.1 hmem)
    have hnot := hbefore b hb
    rw [hle] at hnot
    cases hnot
  rw [hcons, htail, hnil]
  rfl

theorem TimedMessage.before_of_setup {a : TimedMessage} (htick : a.tick = 0)
    (hrank : a.message.rank = 0) (b : TimedMessage) : a.before b = true := by
  rw [before_iff, htick, hrank]
  change 0 < b.tick.toNat ∨ 0 = b.tick.toNat ∧ 0 ≤ b.message.rank
  omega

section

variable (events : List NoteEvent) (quarter tempo : UInt32) (params : Params)

theorem track_zero_eq_cons : ∃ ms, track params quarter tempo events 0 =
    ⟨0, .tempo (microseconds (params.tempo.getD tempo))⟩ :: ms := by
  have hsorted (ms : List TimedMessage) := mergeSort_cons_of_forall_le TimedMessage.before_trans
    TimedMessage.before_total ⟨0, .tempo (microseconds (params.tempo.getD tempo))⟩ ms
    fun m _ => TimedMessage.before_of_setup rfl rfl m
  rw [track_eq_mergeSort, cues, setup, if_pos rfl, List.append_assoc, List.singleton_append,
    hsorted]
  exact ⟨_, rfl⟩

/-- What stands before the notes of the first track, and before its first event. -/
theorem file_eq_append : ∃ header size rest : Bytes,
    file events quarter tempo params =
      header ++ trackTag ++ size ++ [0x00, 0xff, 0x51, 0x03] ++
        bigEndian 3 (microseconds (params.tempo.getD tempo)) ++ rest ∧
      header.length = 14 ∧ size.length = 4 := by
  obtain ⟨ms, hms⟩ := track_zero_eq_cons events quarter tempo params
  have hzero : quantity 0 = [0x00] := by
    rw [quantity, leading]
    rfl
  have hthree : quantity 3 = [0x03] := by
    rw [quantity, leading]
    rfl
  refine ⟨headerTag ++ bigEndian 4 6 ++
      headerData (if lastVoice events + 1 = 1 then 0 else 1) (lastVoice events + 1)
        (division quarter).toNat,
    bigEndian 4 (trackData (track params quarter tempo events 0)).length,
    deltas 0 ms ++ endOfTrack ++ ((List.range (lastVoice events)).map Nat.succ).flatMap
      (fun number => trackChunk (track params quarter tempo events number)), ?_, ?_, ?_⟩
  · rw [file, trackCount_eq, List.range_succ_eq_map, List.flatMap_cons, trackChunk]
    simp only [headerData, trackData, hms, deltas, Message.bytes, hthree, List.append_assoc]
    rw [show (0 : UInt32).toNat - (0 : UInt32).toNat = 0 from rfl, hzero]
    rfl
  · rw [List.length_append, List.length_append, length_bigEndian, length_headerData]
    rfl
  · exact length_bigEndian 4 _

theorem beats_opening (voice : Nat) :
    beats (opening params tempo voice) =
      if voice = 0 then [(0, microseconds (params.tempo.getD tempo) % 16777216)] else [] := by
  unfold opening beats
  rw [List.filterMap_append]
  have hprogram : (params.program.toList.map fun number =>
      (⟨0, .program (params.channel.toNat % 16) (number.toNat % 128)⟩ : TimedEvent)).filterMap
        (fun e => e.event.beat?.map fun beat => (e.tick, beat)) = [] := by
    cases params.program <;> rfl
  rw [hprogram, List.append_nil]
  split <;> rfl

/-- Of all that a track tells a player, only the start of the first one sets a tempo. -/
theorem beats_trackOf (voice : Nat) :
    beats (trackOf (track params quarter tempo events voice)).events =
      if voice = 0 then [(0, microseconds (params.tempo.getD tempo) % 16777216)] else [] := by
  have hnotes (es : List NoteEvent) : beats (es.flatMap (struck params quarter.toNat)) = [] := by
    unfold beats
    rw [List.filterMap_flatMap]
    simp [struck, Event.beat?]
  have hscore : beats (score params quarter tempo events voice) =
      if voice = 0 then [(0, microseconds (params.tempo.getD tempo) % 16777216)] else [] := by
    rw [score, beats, List.filterMap_append]
    change beats _ ++ beats _ = _
    rw [hnotes, List.append_nil, beats_opening]
  have hperm := (arranged_track params quarter tempo events voice).perm.filterMap
    fun e => e.event.beat?.map fun beat => (e.tick, beat)
  change (beats _).Perm (beats _) at hperm
  rw [hscore] at hperm
  by_cases hvoice : voice = 0
  · rw [if_pos hvoice] at hperm ⊢
    exact hperm.eq_singleton
  · rw [if_neg hvoice] at hperm ⊢
    exact hperm.eq_nil

end

theorem microseconds_mod_eq_iff {tempo : UInt32} (h : 1 ≤ tempo.toNat) :
    microseconds tempo % 16777216 = 60000000 / tempo.toNat ↔ 4 ≤ tempo.toNat := by
  have hbeat : microseconds tempo = 60000000 / tempo.toNat := by
    rw [microseconds, Nat.max_eq_right h]
  rw [hbeat]
  constructor
  · intro heq
    by_contra hslow
    have hlow : tempo.toNat = 1 ∨ tempo.toNat = 2 ∨ tempo.toNat = 3 := by omega
    rcases hlow with hlow | hlow | hlow <;> simp [hlow] at heq
  · intro hfast
    have hle : 60000000 / tempo.toNat ≤ 60000000 / 4 := Nat.div_le_div_left hfast (by decide)
    apply Nat.mod_eq_of_lt
    omega

/-- Whatever notes a file is written for, and however they are to sound: its first track, which
comes after 14 bytes of header and 8 bytes of its own, starts with the setting of a tempo, in three
bytes. Read as a number they are the lowest 24 bits of the length of a beat. They are the length
itself if and only if there are at least 4 beats a minute. A reader of the file finds this tempo at
the start of the first track and no other anywhere. -/
theorem file_tempo_iff (events : List NoteEvent) (quarter tempo : UInt32) (params : Params)
    (h : 1 ≤ (params.tempo.getD tempo).toNat) :
    ∃ header size payload rest : Bytes,
      file events quarter tempo params =
        header ++ trackTag ++ size ++ [0x00, 0xff, 0x51, 0x03] ++ payload ++ rest ∧
      header.length = 14 ∧ size.length = 4 ∧ payload.length = 3 ∧
      number payload = 60000000 / (params.tempo.getD tempo).toNat % 16777216 ∧
      (number payload = 60000000 / (params.tempo.getD tempo).toNat ↔
        4 ≤ (params.tempo.getD tempo).toNat) ∧
      (Writable events quarter tempo params →
        ∃ c, Contents.read? (file events quarter tempo params) = some c ∧
          ∀ voice t, c.tracks[voice]? = some t →
            beats t.events = if voice = 0 then [(0, number payload)] else []) := by
  obtain ⟨header, size, rest, hfile, hheader, hsize⟩ := file_eq_append events quarter tempo params
  have hnumber : number (bigEndian 3 (microseconds (params.tempo.getD tempo))) =
      microseconds (params.tempo.getD tempo) % 16777216 := number_bigEndian 3 _
  have hbeat : microseconds (params.tempo.getD tempo) =
      60000000 / (params.tempo.getD tempo).toNat := by
    rw [microseconds, Nat.max_eq_right h]
  refine ⟨header, size, _, rest, hfile, hheader, hsize, length_bigEndian 3 _, ?_, ?_, ?_⟩
  · rw [hnumber, hbeat]
  · rw [hnumber]
    exact microseconds_mod_eq_iff h
  · intro hwritable
    refine ⟨_, hwritable.read?_eq, ?_⟩
    intro voice t ht
    obtain rfl := tracks_getElem? ht
    rw [hnumber]
    exact beats_trackOf events quarter tempo params voice

/-- Two voices at 3 beats a minute, where a beat should last 20000000 microseconds, and at 4, where it
lasts 15000000. -/
theorem file_tempo_iff_slow :
    let events : List NoteEvent := [⟨⟨.c, 0, 0⟩, 0, 0, 1⟩, ⟨⟨.e, 0, 0⟩, 1, 0, 1⟩]
    (∃ header size payload rest : Bytes,
      file events 1 3 .standard =
        header ++ trackTag ++ size ++ [0x00, 0xff, 0x51, 0x03] ++ payload ++ rest ∧
      header.length = 14 ∧ size.length = 4 ∧ payload.length = 3 ∧ number payload = 3222784 ∧
      ∃ c, Contents.read? (file events 1 3 .standard) = some c ∧
        ∀ voice t, c.tracks[voice]? = some t →
          beats t.events = if voice = 0 then [(0, 3222784)] else []) ∧
    ∃ header size payload rest : Bytes,
      file events 1 3 ⟨80, 0, none, some 4⟩ =
        header ++ trackTag ++ size ++ [0x00, 0xff, 0x51, 0x03] ++ payload ++ rest ∧
      header.length = 14 ∧ size.length = 4 ∧ payload.length = 3 ∧ number payload = 15000000 ∧
      ∃ c, Contents.read? (file events 1 3 ⟨80, 0, none, some 4⟩) = some c ∧
        ∀ voice t, c.tracks[voice]? = some t →
          beats t.events = if voice = 0 then [(0, 15000000)] else [] := by
  intro events
  have hwritable (params : Params) : Writable events 1 3 params :=
    writable_of_length (by decide) (by decide)
  constructor
  · obtain ⟨header, size, payload, rest, hfile, hheader, hsize, hlength, hnumber, -, hread⟩ :=
      file_tempo_iff events 1 3 .standard (by decide)
    have hslow : number payload = 3222784 := hnumber
    refine ⟨header, size, payload, rest, hfile, hheader, hsize, hlength, hslow, ?_⟩
    rw [← hslow]
    exact hread (hwritable .standard)
  · obtain ⟨header, size, payload, rest, hfile, hheader, hsize, hlength, -, hiff, hread⟩ :=
      file_tempo_iff events 1 3 ⟨80, 0, none, some 4⟩ (by decide)
    have hfast : number payload = 15000000 := hiff.2 (by decide)
    refine ⟨header, size, payload, rest, hfile, hheader, hsize, hlength, hfast, ?_⟩
    rw [← hfast]
    exact hread (hwritable _)

end Tunebook.Midi
