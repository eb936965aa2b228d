import Mathlib.Algebra.Order.Group.Nat
import Mathlib.Data.Nat.Basic
import Tunebook.Midi.File

namespace Tunebook.Midi

abbrev Bytes := List UInt8

/-- What a track tells a player. Messages that have no name here are kept as bytes. -/
inductive Event where
  | tempo (microseconds : Nat)
  | program (channel number : Nat)
  | noteOff (channel key velocity : Nat)
  | noteOn (channel key velocity : Nat)
  | endOfTrack
  | other (status : UInt8) (data : Bytes)
deriving DecidableEq

structure TimedEvent where
  tick : Nat
  event : Event
deriving DecidableEq

structure Track where
  events : List TimedEvent
  /-- The tick at which the track ends. -/
  finish : Nat

structure Contents where
  format : Nat
  division : Nat
  tracks : List Track

def cut? (n : Nat) (bytes : Bytes) : Option (Bytes × Bytes) :=
  if n ≤ bytes.length then some (bytes.take n, bytes.drop n) else none

def number (bytes : Bytes) : Nat :=
  bytes.foldl (fun high b => high * 256 + b.toNat) 0

/-- A variable-length quantity of any number of bytes, `high` being the groups of seven bits already
read. -/
def quantity? (high : Nat) : Bytes → Option (Nat × Bytes)
  | [] => none
  | b :: bytes =>
    if b.toNat < 128 then some (high * 128 + b.toNat, bytes)
    else quantity? (high * 128 + (b.toNat - 128)) bytes

def sized? (bytes : Bytes) : Option (Bytes × Bytes) :=
  (quantity? 0 bytes).bind fun x => cut? x.1 x.2

/-- The high half of a status byte is the kind of the message, the low half its channel. -/
def channelEvent (status : UInt8) (data : Bytes) : Event :=
  match status.toNat / 16, data with
  | 8, [key, velocity] => .noteOff (status.toNat % 16) key.toNat velocity.toNat
  | 9, [key, velocity] => .noteOn (status.toNat % 16) key.toNat velocity.toNat
  | 12, [number] => .program (status.toNat % 16) number.toNat
  | _, _ => .other status data

/-- Program changes and channel pressures have one data byte, the other messages two. -/
def dataLength (status : UInt8) : Nat :=
  if status.toNat / 16 = 12 ∨ status.toNat / 16 = 13 then 1 else 2

def channelEvent? (status : UInt8) (bytes : Bytes) : Option (Event × Bytes) :=
  (cut? (dataLength status) bytes).bind fun x =>
    if x.1.all (fun b => b.toNat < 128) then some (channelEvent status x.1, x.2) else none

def metaEvent (kind : UInt8) (data : Bytes) : Event :=
  if kind = 0x2f then .endOfTrack
  else if kind = 0x51 ∧ data.length = 3 then .tempo (number data)
  else .other 0xff (kind :: data)

def metaEvent? : Bytes → Option (Event × Bytes)
  | [] => none
  | kind :: bytes => (sized? bytes).map fun x => (metaEvent kind x.1, x.2)

/-- An event, the status that a message without one takes over from it, and the rest. Only messages
of channels hand on their status. -/
def message? (running : Option UInt8) : Bytes → Option (Event × Option UInt8 × Bytes)
  | [] => none
  | b :: bytes =>
    if b.toNat < 0x80 then
      running.bind fun status =>
        (channelEvent? status (b :: bytes)).map fun x => (x.1, some status, x.2)
    else if b.toNat < 0xf0 then (channelEvent? b bytes).map fun x => (x.1, some b, x.2)
    else if b = 0xff then (metaEvent? bytes).map fun x => (x.1, none, x.2)
    else if b = 0xf0 ∨ b = 0xf7 then (sized? bytes).map fun x => (.other b x.1, none, x.2)
    else none

structure Cursor where
  tick : Nat
  running : Option UInt8
  rest : Bytes

def Cursor.next? (c : Cursor) : Option (Event × Cursor) :=
  (quantity? 0 c.rest).bind fun x =>
    (message? c.running x.2).map fun y => (y.1, ⟨c.tick + x.1, y.2.1, y.2.2⟩)

theorem cut?_length {n : Nat} {bytes : Bytes} {x : Bytes × Bytes} (h : cut? n bytes = some x) :
    x.2.length ≤ bytes.length := by
  unfold cut? at h
  split at h
  · obtain rfl := Option.some.inj h
    simp
  · cases h

theorem quantity?_length {high : Nat} {bytes : Bytes} {x : Nat × Bytes}
    (h : quantity? high bytes = some x) : x.2.length < bytes.length := by
  induction bytes generalizing high with
  | nil => cases h
  | cons b bytes ih =>
    rw [quantity?] at h
    split at h
    · obtain rfl := Option.some.inj h
      exact Nat.lt_succ_self _
    · exact Nat.lt_succ_of_lt (ih h)

theorem sized?_length {bytes : Bytes} {x : Bytes × Bytes} (h : sized? bytes = some x) :
    x.2.length ≤ bytes.length := by
  obtain ⟨y, hy, hx⟩ := Option.bind_eq_some_iff.1 h
  have hcut := cut?_length hx
  have hquantity := quantity?_length hy
  omega

theorem channelEvent?_length {status : UInt8} {bytes : Bytes} {x : Event × Bytes}
    (h : channelEvent? status bytes = some x) : x.2.length ≤ bytes.length := by
  obtain ⟨y, hy, hx⟩ := Option.bind_eq_some_iff.1 h
  split at hx
  · obtain rfl := Option.some.inj hx
    exact cut?_length hy
  · cases hx

theorem metaEvent?_length {bytes : Bytes} {x : Event × Bytes} (h : metaEvent? bytes = some x) :
    x.2.length ≤ bytes.length := by
  cases bytes with
  | nil => cases h
  | cons kind bytes =>
    obtain ⟨y, hy, rfl⟩ := Option.map_eq_some_iff.1 h
    exact Nat.le_succ_of_le (sized?_length hy)

theorem message?_length {running : Option UInt8} {bytes : Bytes}
    {x : Event × Option UInt8 × Bytes} (h : message? running bytes = some x) :
    x.2.2.length ≤ bytes.length := by
  cases bytes with
  | nil => cases h
  | cons b bytes =>
    rw [message?] at h
    split_ifs at h
    · obtain ⟨status, -, hs⟩ := Option.bind_eq_some_iff.1 h
      obtain ⟨y, hy, rfl⟩ := Option.map_eq_some_iff.1 hs
      exact channelEvent?_length hy
    · obtain ⟨y, hy, rfl⟩ := Option.map_eq_some_iff.1 h
      exact Nat.le_succ_of_le (channelEvent?_length hy)
    · obtain ⟨y, hy, rfl⟩ := Option.map_eq_some_iff.1 h
      exact Nat.le_succ_of_le (metaEvent?_length hy)
    · obtain ⟨y, hy, rfl⟩ := Option.map_eq_some_iff.1 h
      exact Nat.le_succ_of_le (sized?_length hy)

theorem Cursor.next?_length {c : Cursor} {x : Event × Cursor} (h : c.next? = some x) :
    x.2.rest.length < c.rest.length := by
  obtain ⟨y, hy, hx⟩ := Option.bind_eq_some_iff.1 h
  obtain ⟨z, hz, rfl⟩ := Option.map_eq_some_iff.1 hx
  exact Nat.lt_of_le_of_lt (message?_length hz) (quantity?_length hy)

/-- The events up to the end of the track, which has to be the end of the bytes as well. -/
def Cursor.track? (c : Cursor) : Option Track :=
  match h : c.next? with
  | none => none
  | some (e, next) =>
    if e = .endOfTrack then
      if next.rest.isEmpty then some ⟨[], next.tick⟩ else none
    else
      have : next.rest.length < c.rest.length := next?_length h
      next.track?.map fun t => { t with events := ⟨next.tick, e⟩ :: t.events }
termination_by c.rest.length

structure Chunk where
  tag : Bytes
  data : Bytes

/-- A tag of four letters, the number of data bytes, and the data. -/
def chunk? (bytes : Bytes) : Option (Chunk × Bytes) :=
  (cut? 4 bytes).bind fun tag =>
    (cut? 4 tag.2).bind fun size =>
      (cut? (number size.1) size.2).map fun data => (⟨tag.1, data.1⟩, data.2)

theorem chunk?_length {bytes : Bytes} {x : Chunk × Bytes} (h : chunk? bytes = some x) :
    x.2.length < bytes.length := by
  obtain ⟨tag, htag, h⟩ := Option.bind_eq_some_iff.1 h
  obtain ⟨size, hsize, h⟩ := Option.bind_eq_some_iff.1 h
  obtain ⟨data, hdata, rfl⟩ := Option.map_eq_some_iff.1 h
  have h2 := cut?_length hsize
  have h3 := cut?_length hdata
  unfold cut? at htag
  split at htag
  · obtain rfl := Option.some.inj htag
    rw [List.length_drop] at h2
    dsimp only
    omega
  · cases htag

def chunks? (bytes : Bytes) : Option (List Chunk) :=
  if bytes.isEmpty then some []
  else
    match h : chunk? bytes with
    | none => none
    | some (chunk, rest) =>
      have : rest.length < bytes.length := chunk?_length h
      (chunks? rest).map (chunk :: ·)
termination_by bytes.length

def tag (letters : String) : Bytes :=
  letters.toList.map Char.toUInt8

/-- What a header has to be like before `count` tracks of a division into quarter notes. -/
def headerSound (format count division tracks : Nat) : Bool :=
  format ≤ 2 && (format != 0 || count == 1) && count == tracks && 0 < division &&
    division < 0x8000

/-- Reads the header and the tracks. More is taken than `file` writes: chunks of any tag, which are
passed over, all kinds of messages, messages that take over the status of the one before, and
quantities of any length. The format allows quantities of four bytes, where `file` makes five from
2 ^ 28 ticks on. Refused are data bytes of eight bits, a track that does not end where its chunk
does, a header that counts other tracks than there are, and bytes that belong to no chunk. -/
def Contents.read? (bytes : Bytes) : Option Contents :=
  match chunks? bytes with
  | none | some [] => none
  | some (header :: chunks) =>
    let format := number (header.data.take 2)
    let count := number ((header.data.drop 2).take 2)
    let division := number ((header.data.drop 4).take 2)
    let tracks? :=
      (chunks.filter fun c => c.tag == tag "MTrk").mapM fun c => Cursor.track? ⟨0, none, c.data⟩
    match tracks? with
    | none => none
    | some tracks =>
      if header.tag = tag "MThd" ∧ 6 ≤ header.data.length ∧
          headerSound format count division tracks.length then
        some ⟨format, division, tracks⟩
      else none

end Tunebook.Midi
