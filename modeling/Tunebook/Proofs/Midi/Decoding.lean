import Tunebook.Proofs.Lists
import Tunebook.Proofs.Midi.Reader

namespace Tunebook.Midi

theorem cut?_append {n : Nat} {as : Bytes} (bs : Bytes) (h : as.length = n) :
    cut? n (as ++ bs) = some (as, bs) := by
  subst h
  simp [cut?]

theorem length_bigEndian (width n : Nat) : (bigEndian width n).length = width := by
  induction width generalizing n with
  | zero => rfl
  | succ width ih => rw [bigEndian, List.length_append, ih, List.length_singleton]

theorem number_append (bytes : Bytes) (b : UInt8) :
    number (bytes ++ [b]) = number bytes * 256 + b.toNat := by
  rw [number, List.foldl_append]
  rfl

theorem number_bigEndian (width n : Nat) : number (bigEndian width n) = n % 256 ^ width := by
  induction width generalizing n with
  | zero => simp [bigEndian, number, Nat.mod_one]
  | succ width ih =>
    have hbyte : (UInt8.ofNat (n % 256)).toNat = n % 256 := by
      apply UInt8.toNat_ofNat_of_lt'
      exact Nat.mod_lt n (by decide)
    rw [bigEndian, number_append, ih, hbyte, Nat.pow_succ', Nat.mod_mul]
    omega

theorem quantity?_cons_low (high : Nat) {b : UInt8} (rest : Bytes) (h : b.toNat < 128) :
    quantity? high (b :: rest) = some (high * 128 + b.toNat, rest) := by
  rw [quantity?, if_pos h]

theorem quantity?_cons_high (high : Nat) {b : UInt8} (rest : Bytes) (h : 128 ≤ b.toNat) :
    quantity? high (b :: rest) = quantity? (high * 128 + (b.toNat - 128)) rest := by
  rw [quantity?, if_neg (by omega)]

theorem toNat_marked (n : Nat) : (UInt8.ofNat (n % 128 + 128)).toNat = n % 128 + 128 := by
  apply UInt8.toNat_ofNat_of_lt'
  change _ < 256
  omega

theorem toNat_unmarked (n : Nat) : (UInt8.ofNat (n % 128)).toNat = n % 128 := by
  apply UInt8.toNat_ofNat_of_lt'
  change _ < 256
  omega

theorem quantity?_leading (n : Nat) (rest : Bytes) :
    quantity? 0 (leading n ++ rest) = quantity? n rest := by
  induction n using Nat.strongRecOn generalizing rest with
  | ind n ih =>
    rw [leading]
    split
    · rename_i h
      rw [h, List.nil_append]
    · have hbyte := toNat_marked n
      have hsum : n / 128 * 128 + (n % 128 + 128 - 128) = n := by omega
      rw [List.append_assoc, ih (n / 128) (by omega), List.singleton_append,
        quantity?_cons_high _ _ (by omega), hbyte, hsum]

theorem quantity?_quantity (n : Nat) (rest : Bytes) :
    quantity? 0 (quantity n ++ rest) = some (n, rest) := by
  have hbyte := toNat_unmarked n
  have hsum : n / 128 * 128 + n % 128 = n := by omega
  rw [quantity, List.append_assoc, quantity?_leading, List.singleton_append,
    quantity?_cons_low _ _ (by omega), hbyte, hsum]

theorem length_leading_le (k n : Nat) (h : n < 128 ^ k) : (leading n).length ≤ k := by
  induction k generalizing n with
  | zero =>
    obtain rfl : n = 0 := by simpa using h
    rw [leading]
    exact Nat.le_refl 0
  | succ k ih =>
    rw [leading]
    split
    · exact Nat.zero_le _
    · have hdiv : n / 128 < 128 ^ k := by
        apply Nat.div_lt_of_lt_mul
        rwa [← Nat.pow_succ']
      have hle := ih (n / 128) hdiv
      rw [List.length_append, List.length_singleton]
      omega

theorem length_quantity_le {n : Nat} (h : n < UInt32.size) : (quantity n).length ≤ 5 := by
  have hdiv : n / 128 < 128 ^ 4 := by
    change n < 4294967296 at h
    omega
  have hle := length_leading_le 4 (n / 128) hdiv
  rw [quantity, List.length_append, List.length_singleton]
  omega

theorem sized?_append {n : Nat} {data : Bytes} (rest : Bytes) (h : data.length = n) :
    sized? (quantity n ++ (data ++ rest)) = some (data, rest) := by
  rw [sized?, quantity?_quantity, Option.bind_some]
  exact cut?_append rest h

theorem channelEvent?_append {status : UInt8} {data : Bytes} (rest : Bytes)
    (hlength : data.length = dataLength status) (hdata : ∀ b ∈ data, b.toNat < 128) :
    channelEvent? status (data ++ rest) = some (channelEvent status data, rest) := by
  have hall : data.all (fun b => b.toNat < 128) = true := by
    rw [List.all_eq_true]
    intro b hb
    exact decide_eq_true (hdata b hb)
  rw [channelEvent?, cut?_append rest hlength, Option.bind_some, if_pos hall]

theorem status_halves {kind : Nat} {channel : UInt8} (hk : kind < 16) (hc : channel.toNat < 16) :
    (UInt8.ofNat (16 * kind) ||| channel).toNat / 16 = kind ∧
      (UInt8.ofNat (16 * kind) ||| channel).toNat % 16 = channel.toNat := by
  have hkind : (UInt8.ofNat (16 * kind)).toNat = 16 * kind := by
    apply UInt8.toNat_ofNat_of_lt'
    change _ < 256
    omega
  have hor : 16 * kind + channel.toNat = 16 * kind ||| channel.toNat :=
    Nat.two_pow_add_eq_or_of_lt (i := 4) hc kind
  rw [UInt8.toNat_or, hkind, ← hor]
  omega

theorem message?_channel {kind : Nat} {channel : UInt8} {data : Bytes} (running : Option UInt8)
    (rest : Bytes) (hk : 8 ≤ kind ∧ kind < 15) (hc : channel.toNat < 16)
    (hlength : data.length = if kind = 12 ∨ kind = 13 then 1 else 2)
    (hdata : ∀ b ∈ data, b.toNat < 128) :
    let status := UInt8.ofNat (16 * kind) ||| channel
    message? running (status :: (data ++ rest)) =
      some (channelEvent status data, some status, rest) := by
  intro status
  have hhalf : status.toNat / 16 = kind := (status_halves (by omega) hc).1
  have hlength' : data.length = dataLength status := by rw [dataLength, hhalf, hlength]
  have hlow : ¬status.toNat < 0x80 := by omega
  have hhigh : status.toNat < 0xf0 := by omega
  rw [message?, if_neg hlow, if_pos hhigh, channelEvent?_append rest hlength' hdata]
  rfl

theorem message?_meta {kind : UInt8} {n : Nat} {data : Bytes} (running : Option UInt8)
    (rest : Bytes) (h : data.length = n) :
    message? running (0xff :: kind :: (quantity n ++ (data ++ rest))) =
      some (metaEvent kind data, none, rest) := by
  have hlow : ¬(0xff : UInt8).toNat < 0x80 := by decide
  have hhigh : ¬(0xff : UInt8).toNat < 0xf0 := by decide
  rw [message?, if_neg hlow, if_neg hhigh, if_pos rfl, metaEvent?, sized?_append rest h]
  rfl

namespace Message

/-- Channels have four bits and data bytes seven. -/
def Sound : Message → Prop
  | tempo _ => True
  | program channel number => channel.toNat < 16 ∧ number.toNat < 128
  | noteOff channel key => channel.toNat < 16 ∧ key.toNat < 128
  | noteOn channel key velocity => channel.toNat < 16 ∧ key.toNat < 128 ∧ velocity.toNat < 128

/-- What a reader makes of the message. Of a tempo it sees the lowest 24 bits. -/
def event : Message → Event
  | tempo microseconds => .tempo (microseconds % 16777216)
  | program channel number => .program channel.toNat number.toNat
  | noteOff channel key => .noteOff channel.toNat key.toNat 0
  | noteOn channel key velocity => .noteOn channel.toNat key.toNat velocity.toNat

theorem event_ne_endOfTrack (m : Message) : m.event ≠ .endOfTrack := by
  cases m <;> simp [event]

theorem read_bytes {m : Message} (h : m.Sound) (running : Option UInt8) (rest : Bytes) :
    ∃ next, message? running (m.bytes ++ rest) = some (m.event, next, rest) := by
  cases m with
  | tempo microseconds =>
    have hlength := length_bigEndian 3 microseconds
    have hevent : metaEvent 0x51 (bigEndian 3 microseconds) = event (.tempo microseconds) := by
      rw [metaEvent, if_neg (by decide), if_pos ⟨rfl, hlength⟩, number_bigEndian]
      rfl
    have hread := @message?_meta 0x51 3 (bigEndian 3 microseconds) running rest hlength
    rw [hevent] at hread
    refine ⟨none, ?_⟩
    rw [bytes, List.append_assoc, List.append_assoc]
    exact hread
  | program channel number =>
    obtain ⟨hkind, hchannel⟩ := @status_halves 12 channel (by decide) h.1
    have hread := @message?_channel 12 channel [number] running rest (by decide) h.1 rfl
      (by simpa using h.2)
    simp only [channelEvent, hkind, hchannel] at hread
    exact ⟨_, hread⟩
  | noteOff channel key =>
    obtain ⟨hkind, hchannel⟩ := @status_halves 8 channel (by decide) h.1
    have hread := @message?_channel 8 channel [key, 0] running rest (by decide) h.1 rfl
      (by simpa using h.2)
    simp only [channelEvent, hkind, hchannel] at hread
    exact ⟨_, hread⟩
  | noteOn channel key velocity =>
    obtain ⟨hkind, hchannel⟩ := @status_halves 9 channel (by decide) h.1
    have hread := @message?_channel 9 channel [key, velocity] running rest (by decide) h.1 rfl
      (by simpa using h.2)
    simp only [channelEvent, hkind, hchannel] at hread
    exact ⟨_, hread⟩

theorem length_bytes_le (m : Message) : m.bytes.length ≤ 6 := by
  cases m with
  | tempo microseconds =>
    have hquantity : (quantity 3).length = 1 := by
      rw [quantity, leading]
      rfl
    rw [bytes, List.length_append, List.length_append, hquantity, length_bigEndian]
    rfl
  | program channel number => exact Nat.le_add_left 2 4
  | noteOff channel key => exact Nat.le_add_left 3 3
  | noteOn channel key velocity => exact Nat.le_add_left 3 3

end Message

def TimedMessage.event (m : TimedMessage) : TimedEvent :=
  ⟨m.tick.toNat, m.message.event⟩

theorem length_deltas_le (last : UInt32) (ms : List TimedMessage) :
    (deltas last ms).length ≤ 11 * ms.length := by
  induction ms generalizing last with
  | nil => exact Nat.le_refl 0
  | cons m ms ih =>
    have hquantity := length_quantity_le
      (Nat.lt_of_le_of_lt (Nat.sub_le m.tick.toNat last.toNat) m.tick.toNat_lt_size)
    have hbytes := m.message.length_bytes_le
    have hrest := ih m.tick
    rw [deltas, List.length_append, List.length_append, List.length_cons]
    omega

/-- The tick of the last event, or `start` if there is none. -/
def lastTick (start : Nat) : List TimedEvent → Nat
  | [] => start
  | e :: es => lastTick e.tick es

namespace Cursor

theorem track?_of_next? {c next : Cursor} {e : Event} (h : c.next? = some (e, next)) :
    c.track? =
      if e = .endOfTrack then (if next.rest.isEmpty then some ⟨[], next.tick⟩ else none)
      else next.track?.map fun t => { t with events := ⟨next.tick, e⟩ :: t.events } := by
  rw [track?]
  split
  · rename_i hnone
    rw [h] at hnone
    cases hnone
  · rename_i e' next' hsome
    rw [h] at hsome
    obtain ⟨rfl, rfl⟩ := Prod.mk.inj (Option.some.inj hsome)
    rfl

theorem next?_message {m : Message} (h : m.Sound) (tick delta : Nat) (running : Option UInt8)
    (rest : Bytes) :
    ∃ status, next? ⟨tick, running, quantity delta ++ m.bytes ++ rest⟩ =
      some (m.event, ⟨tick + delta, status, rest⟩) := by
  obtain ⟨status, hread⟩ := m.read_bytes h running rest
  refine ⟨status, ?_⟩
  rw [next?, List.append_assoc, quantity?_quantity, Option.bind_some, hread]
  rfl

theorem track?_endOfTrack (tick : Nat) (running : Option UInt8) :
    track? ⟨tick, running, endOfTrack⟩ = some ⟨[], tick⟩ := by
  have hnext : next? ⟨tick, running, endOfTrack⟩ = some (.endOfTrack, ⟨tick, none, []⟩) := rfl
  rw [track?_of_next? hnext, if_pos rfl]
  rfl

/-- The messages of a track come back in their order, each at its tick. Ticks are written as the
differences of neighbours, so they must not go down. -/
theorem track?_deltas {ms : List TimedMessage} (last : UInt32) (running : Option UInt8)
    (hsound : ∀ m ∈ ms, m.message.Sound) (hlast : ∀ m ∈ ms, last.toNat ≤ m.tick.toNat)
    (hticks : ms.Pairwise fun a b => a.tick.toNat ≤ b.tick.toNat) :
    track? ⟨last.toNat, running, deltas last ms ++ endOfTrack⟩ =
      some ⟨ms.map TimedMessage.event, lastTick last.toNat (ms.map TimedMessage.event)⟩ := by
  induction ms generalizing last running with
  | nil => exact track?_endOfTrack last.toNat running
  | cons m ms ih =>
    rw [List.forall_mem_cons] at hsound hlast
    rw [List.pairwise_cons] at hticks
    obtain ⟨status, hnext⟩ := next?_message hsound.1 last.toNat (m.tick.toNat - last.toNat) running
      (deltas m.tick ms ++ endOfTrack)
    have htick : last.toNat + (m.tick.toNat - last.toNat) = m.tick.toNat := by
      have hle := hlast.1
      omega
    rw [htick] at hnext
    rw [deltas, List.append_assoc, track?_of_next? hnext, if_neg m.message.event_ne_endOfTrack,
      ih m.tick status hsound.2 hticks.1 hticks.2]
    rfl

end Cursor

theorem chunk?_append {letters data : Bytes} (rest : Bytes) (hl : letters.length = 4)
    (hd : data.length < UInt32.size) :
    chunk? (letters ++ bigEndian 4 data.length ++ data ++ rest) = some (⟨letters, data⟩, rest) := by
  have hnumber : number (bigEndian 4 data.length) = data.length := by
    rw [number_bigEndian]
    exact Nat.mod_eq_of_lt hd
  rw [chunk?, List.append_assoc, List.append_assoc, cut?_append _ hl, Option.bind_some,
    cut?_append _ (length_bigEndian 4 _), Option.bind_some, hnumber, cut?_append rest rfl]
  rfl

theorem chunks?_of_chunk? {bytes rest : Bytes} {chunk : Chunk}
    (h : chunk? bytes = some (chunk, rest)) : chunks? bytes = (chunks? rest).map (chunk :: ·) := by
  have hlength := chunk?_length h
  have hne : ¬bytes.isEmpty = true := by
    rw [List.isEmpty_iff]
    rintro rfl
    cases hlength
  rw [chunks?, if_neg hne]
  split
  · rename_i hnone
    rw [h] at hnone
    cases hnone
  · rename_i chunk' rest' hsome
    rw [h] at hsome
    obtain ⟨rfl, rfl⟩ := Prod.mk.inj (Option.some.inj hsome)
    rfl

def trackData (messages : List TimedMessage) : Bytes :=
  deltas 0 messages ++ endOfTrack

theorem chunks?_trackChunks {tracks : List (List TimedMessage)}
    (h : ∀ ms ∈ tracks, (trackData ms).length < UInt32.size) :
    chunks? (tracks.flatMap trackChunk) =
      some (tracks.map fun ms => ⟨trackTag, trackData ms⟩) := by
  induction tracks with
  | nil =>
    rw [List.flatMap_nil, chunks?]
    rfl
  | cons ms tracks ih =>
    rw [List.forall_mem_cons] at h
    have hchunk : chunk? (trackChunk ms ++ tracks.flatMap trackChunk) =
        some (⟨trackTag, trackData ms⟩, tracks.flatMap trackChunk) :=
      chunk?_append _ rfl h.1
    rw [List.flatMap_cons, chunks?_of_chunk? hchunk, ih h.2]
    rfl

def headerData (format count division : Nat) : Bytes :=
  bigEndian 2 format ++ bigEndian 2 count ++ bigEndian 2 division

theorem length_headerData (format count division : Nat) :
    (headerData format count division).length = 6 := by
  simp only [headerData, List.length_append, length_bigEndian]

theorem number_headerData {format count division : Nat} (hf : format < UInt16.size)
    (hc : count < UInt16.size) (hd : division < UInt16.size) :
    number ((headerData format count division).take 2) = format ∧
      number (((headerData format count division).drop 2).take 2) = count ∧
      number (((headerData format count division).drop 4).take 2) = division := by
  have hword {n : Nat} (hn : n < UInt16.size) : number (bigEndian 2 n) = n := by
    rw [number_bigEndian]
    exact Nat.mod_eq_of_lt hn
  have hfour : (bigEndian 2 format ++ bigEndian 2 count).length = 4 := by
    rw [List.length_append, length_bigEndian, length_bigEndian]
  refine ⟨?_, ?_, ?_⟩
  · rw [headerData, List.append_assoc, List.take_left' (length_bigEndian 2 format), hword hf]
  · rw [headerData, List.append_assoc, List.drop_left' (length_bigEndian 2 format),
      List.take_left' (length_bigEndian 2 count), hword hc]
  · rw [headerData, List.drop_left' hfour, List.take_of_length_le (length_bigEndian 2 _).le,
      hword hd]

def trackOf (messages : List TimedMessage) : Track :=
  ⟨messages.map TimedMessage.event, lastTick 0 (messages.map TimedMessage.event)⟩

theorem mapM_track? {tracks : List (List TimedMessage)}
    (h : ∀ ms ∈ tracks, Cursor.track? ⟨0, none, trackData ms⟩ = some (trackOf ms)) :
    ((tracks.map fun ms => (⟨trackTag, trackData ms⟩ : Chunk)).filter
        fun c => c.tag == tag "MTrk").mapM (fun c => Cursor.track? ⟨0, none, c.data⟩) =
      some (tracks.map trackOf) := by
  have hkept : (tracks.map fun ms => (⟨trackTag, trackData ms⟩ : Chunk)).filter
      (fun c => c.tag == tag "MTrk") = tracks.map fun ms => ⟨trackTag, trackData ms⟩ := by
    rw [List.filter_eq_self, List.forall_mem_map]
    intro ms _
    rfl
  rw [hkept, mapM_eq_some_iff, List.forall₂_map_left_iff, List.forall₂_map_right_iff,
    List.forall₂_same]
  exact h

theorem Contents.read?_chunks {format division : Nat} {tracks : List (List TimedMessage)}
    (hheader : headerSound format tracks.length division tracks.length = true)
    (hcount : tracks.length < UInt16.size)
    (hsize : ∀ ms ∈ tracks, (trackData ms).length < UInt32.size)
    (htracks : ∀ ms ∈ tracks, Cursor.track? ⟨0, none, trackData ms⟩ = some (trackOf ms)) :
    Contents.read? (headerTag ++ bigEndian 4 6 ++ headerData format tracks.length division ++
        tracks.flatMap trackChunk) =
      some ⟨format, division, tracks.map trackOf⟩ := by
  have hlength := length_headerData format tracks.length division
  have hchunk := @chunk?_append headerTag (headerData format tracks.length division)
    (tracks.flatMap trackChunk) rfl (by rw [hlength]; decide)
  rw [hlength] at hchunk
  have hchunks := chunks?_of_chunk? hchunk
  rw [chunks?_trackChunks hsize, Option.map_some] at hchunks
  have hbounds := hheader
  simp only [headerSound, Bool.and_eq_true, decide_eq_true_eq] at hbounds
  have hsmall : format < UInt16.size ∧ division < UInt16.size := by
    change format < 65536 ∧ division < 65536
    omega
  obtain ⟨hformat, hcount', hdivision⟩ := number_headerData hsmall.1 hcount hsmall.2
  rw [Contents.read?, hchunks]
  simp only [hformat, hcount', hdivision, mapM_track? htracks, List.length_map]
  rw [if_pos ⟨rfl, hlength.ge, hheader⟩]

end Tunebook.Midi
