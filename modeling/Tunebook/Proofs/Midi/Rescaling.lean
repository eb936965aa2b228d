import Mathlib.Algebra.Order.Group.Int
import Tunebook.Proofs.Midi.Balance

namespace Tunebook.Midi

/-- A tick of the file is at most half a tick from the place of a tick of the tune, which has
`quarter` ticks to the quarter note where the file has 480. -/
def Near (quarter tick fileTick : Nat) : Prop :=
  |2 * ((fileTick : ℤ) * quarter - 480 * tick)| ≤ quarter

def endTick (e : NoteEvent) : Nat :=
  heldTick (e.start.toNat + e.duration.toNat)

/-- Where a file may strike and release the note of an event. -/
structure Placed (quarter : Nat) (e : NoteEvent) (on off : Nat) : Prop where
  struck : Near quarter e.start.toNat on
  after : on < off
  /-- A note that is rounded to nothing lasts a tick, and need not end where it should. -/
  released : on < fileTick quarter (endTick e) → Near quarter (endTick e) off

section

variable {quarter : Nat} (hq : 32767 < quarter)

include hq

theorem fileTick_eq_div (tick : Nat) :
    fileTick quarter tick = (tick * 480 + quarter / 2) / quarter :=
  if_neg (Nat.not_le_of_lt hq)

theorem fileTick_mul_bounds (tick : Nat) :
    fileTick quarter tick * quarter ≤ tick * 480 + quarter / 2 ∧
      tick * 480 + quarter / 2 < fileTick quarter tick * quarter + quarter := by
  rw [fileTick_eq_div hq]
  exact ⟨Nat.div_mul_le_self _ _, Nat.lt_div_mul_add (by omega)⟩

theorem near_fileTick (tick : Nat) : Near quarter tick (fileTick quarter tick) := by
  obtain ⟨hlow, hhigh⟩ := fileTick_mul_bounds hq tick
  have hcast : (fileTick quarter tick : ℤ) * quarter =
      ((fileTick quarter tick * quarter : Nat) : ℤ) := (Nat.cast_mul _ _).symm
  rw [Near, hcast, abs_le]
  omega

theorem fileTick_mono {a b : Nat} (h : a ≤ b) : fileTick quarter a ≤ fileTick quarter b := by
  rw [fileTick_eq_div hq, fileTick_eq_div hq]
  apply Nat.div_le_div_right
  omega

/-- The ticks of the file are so few that there is always a next one. -/
theorem fileTick_succ_lt (tick : UInt32) : fileTick quarter tick.toNat + 1 < UInt32.size := by
  have hlow := (fileTick_mul_bounds hq tick.toNat).1
  have hlt := tick.toNat_lt_size
  change _ < 4294967296 at hlt ⊢
  by_contra hge
  have hmul : 4294967295 * quarter ≤ fileTick quarter tick.toNat * quarter :=
    Nat.mul_le_mul_right quarter (by omega)
  omega

theorem rescale_exact {q : UInt32} (h : q.toNat = quarter) (tick : UInt32) :
    tick.toNat * 480 + quarter / 2 < UInt64.size ∧
      (rescale q tick).toNat = (tick.toNat * 480 + quarter / 2) / quarter := by
  constructor
  · have htick := tick.toNat_lt_size
    have hquarter := q.toNat_lt_size
    change _ < 4294967296 at htick hquarter
    change _ < 18446744073709551616
    omega
  · rw [rescale_toNat, h, fileTick_eq_div hq]

theorem struck_eq (params : Params) (e : NoteEvent) :
    struck params quarter e =
      [⟨fileTick quarter e.start.toNat, .noteOn (params.channel.toNat % 16) e.pitch.midiKey
        (max 1 (min 127 params.velocity.toNat))⟩,
       ⟨max (fileTick quarter e.start.toNat + 1) (fileTick quarter (endTick e)),
        .noteOff (params.channel.toNat % 16) e.pitch.midiKey 0⟩] := by
  have hsucc := fileTick_succ_lt hq e.start
  have hend := fileTick_le quarter (endTick e)
  have hheld : endTick e ≤ UInt32.size - 1 := Nat.min_le_right _ _
  have hrelease : heldTick (fileTick quarter e.start.toNat +
        max 1 (fileTick quarter (endTick e) - fileTick quarter e.start.toNat)) =
      max (fileTick quarter e.start.toNat + 1) (fileTick quarter (endTick e)) := by
    unfold heldTick
    omega
  rw [← hrelease]
  rfl

theorem placed_struck (e : NoteEvent) :
    Placed quarter e (fileTick quarter e.start.toNat)
      (max (fileTick quarter e.start.toNat + 1) (fileTick quarter (endTick e))) := by
  refine ⟨near_fileTick hq _, Nat.lt_of_lt_of_le (Nat.lt_succ_self _) (Nat.le_max_left _ _), ?_⟩
  intro hlater
  rw [Nat.max_eq_right hlater]
  exact near_fileTick hq _

end

theorem notes_trackOf (params : Params) (quarter tempo : UInt32) (events : List NoteEvent)
    (voice : Nat) :
    ((trackOf (track params quarter tempo events voice)).events.filter
        fun e => e.event.rank != 0).Perm
      ((events.filter fun e => e.voice == voice && 0 < e.duration.toNat).flatMap
        (struck params quarter.toNat)) := by
  have hperm := (arranged_track params quarter tempo events voice).perm.filter
    fun e => e.event.rank != 0
  have hopening : (opening params tempo voice).filter (fun e => e.event.rank != 0) = [] := by
    rw [List.filter_eq_nil_iff]
    intro e he
    rw [rank_opening params tempo voice e he]
    exact Bool.false_ne_true
  have hstruck (es : List NoteEvent) :
      (es.flatMap (struck params quarter.toNat)).filter (fun e => e.event.rank != 0) =
        es.flatMap (struck params quarter.toNat) := by
    rw [List.filter_eq_self]
    intro e he
    obtain ⟨note, -, hnote⟩ := List.mem_flatMap.1 he
    simp only [struck, List.mem_cons, List.not_mem_nil, or_false] at hnote
    rcases hnote with rfl | rfl <;> rfl
  rwa [score, List.filter_append, hopening, List.nil_append, hstruck] at hperm

/-- Whatever events a file is written for, if a quarter note of theirs has more ticks than a header
holds: no number on the way is cut, and the file is read back at 480 ticks to the quarter note. In
each track every note with a length has one stroke and one release. They lie within half a tick of
where the event starts and where it ends or the last tick is reached, the release after the stroke.
No note is struck before one that starts earlier. -/
theorem read?_file_near (events : List NoteEvent) (quarter tempo : UInt32) (params : Params)
    (h : Writable events quarter tempo params) (hq : 0x7fff < quarter.toNat) :
    (∀ tick : UInt32, tick.toNat * 480 + quarter.toNat / 2 < UInt64.size ∧
      (rescale quarter tick).toNat = (tick.toNat * 480 + quarter.toNat / 2) / quarter.toNat) ∧
    ∃ c, Contents.read? (file events quarter tempo params) = some c ∧ c.division = 480 ∧
      c.tracks.length = lastVoice events + 1 ∧
      ∀ voice (t : Track), c.tracks[voice]? = some t →
        ∃ on off : NoteEvent → Nat,
          (t.events.filter fun e => e.event.rank != 0).Perm
            ((events.filter fun e => e.voice == voice && 0 < e.duration.toNat).flatMap fun e =>
              [⟨on e, .noteOn (params.channel.toNat % 16) e.pitch.midiKey
                (max 1 (min 127 params.velocity.toNat))⟩,
               ⟨off e, .noteOff (params.channel.toNat % 16) e.pitch.midiKey 0⟩]) ∧
          (∀ e ∈ events, Placed quarter.toNat e (on e) (off e)) ∧
          ∀ e ∈ events, ∀ e' ∈ events, e.start.toNat ≤ e'.start.toNat → on e ≤ on e' := by
  have hdivision : (division quarter).toNat = 480 := by
    rw [division_toNat, if_neg (by omega)]
  refine ⟨rescale_exact hq rfl, _, h.read?_eq, hdivision, length_tracks _ _ _ _, ?_⟩
  intro voice t ht
  obtain rfl := tracks_getElem? ht
  refine ⟨fun e => fileTick quarter.toNat e.start.toNat,
    fun e => max (fileTick quarter.toNat e.start.toNat + 1) (fileTick quarter.toNat (endTick e)),
    ?_, fun e _ => placed_struck hq e, fun _ _ _ _ hle => fileTick_mono hq hle⟩
  have hnotes := notes_trackOf params quarter tempo events voice
  rwa [funext (struck_eq hq params)] at hnotes

/-- A note that starts a hair before the first tick of the file and lasts for as long as ticks can
be counted, beside one without length. -/
theorem read?_file_near_long :
    let events : List NoteEvent := [⟨⟨.e, 0, 0⟩, 0, 200, 4294967295⟩, ⟨⟨.g, 0, 0⟩, 0, 200, 0⟩]
    Writable events 96001 120 .standard ∧
      ∃ c, Contents.read? (file events 96001 120 .standard) = some c ∧
        ∀ t : Track, c.tracks[0]? = some t →
          (t.events.filter fun e => e.event.rank != 0).Perm
            [⟨1, .noteOn 0 64 80⟩, ⟨21474613, .noteOff 0 64 0⟩] := by
  intro events
  have hwritable : Writable events 96001 120 .standard := writable_of_length (by decide) (by decide)
  obtain ⟨-, c, hread, -, -, htracks⟩ :=
    read?_file_near events 96001 120 .standard hwritable (by decide)
  refine ⟨hwritable, c, hread, ?_⟩
  intro t ht
  obtain ⟨on, off, hnotes, hplaced, -⟩ := htracks 0 t ht
  have hlong := hplaced ⟨⟨.e, 0, 0⟩, 0, 200, 4294967295⟩ List.mem_cons_self
  have hon : on ⟨⟨.e, 0, 0⟩, 0, 200, 4294967295⟩ = 1 := by
    have hnear : |2 * ((on ⟨⟨.e, 0, 0⟩, 0, 200, 4294967295⟩ : ℤ) * 96001 - 480 * 200)| ≤ 96001 :=
      hlong.struck
    rw [abs_le] at hnear
    omega
  have hoff : off ⟨⟨.e, 0, 0⟩, 0, 200, 4294967295⟩ = 21474613 := by
    have hnear : |2 * ((off ⟨⟨.e, 0, 0⟩, 0, 200, 4294967295⟩ : ℤ) * 96001 - 480 * 4294967295)| ≤
        96001 := hlong.released (by rw [hon]; decide +kernel)
    rw [abs_le] at hnear
    omega
  have hfilter : (events.filter fun e => e.voice == 0 && 0 < e.duration.toNat) =
      [⟨⟨.e, 0, 0⟩, 0, 200, 4294967295⟩] := by decide +kernel
  rw [hfilter, List.flatMap_singleton, hon, hoff] at hnotes
  exact hnotes

end Tunebook.Midi
