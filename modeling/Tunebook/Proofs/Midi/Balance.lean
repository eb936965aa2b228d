import Tunebook.Proofs.Midi.Score
import Tunebook.Proofs.Playback.Exactness
import Tunebook.Proofs.Playback.Timing

namespace Tunebook.Midi

namespace Event

/-- A note of the key, with a velocity: without one it counts as a release. -/
def strikes (key : Nat) : Event → Bool
  | noteOn _ k velocity => k == key && velocity != 0
  | _ => false

def releases (key : Nat) : Event → Bool
  | noteOff _ k _ => k == key
  | noteOn _ k velocity => k == key && velocity == 0
  | _ => false

def isStrike : Event → Bool
  | noteOn _ _ velocity => velocity != 0
  | _ => false

theorem silent_of_rank (key : Nat) {e : Event} (h : e.rank = 0) :
    e.releases key = false ∧ e.strikes key = false ∧ e.isStrike = false := by
  cases e with
  | noteOff channel k velocity => cases h
  | noteOn channel k velocity => cases h
  | _ => exact ⟨rfl, rfl, rfl⟩

end Event

def strikeCount (key : Nat) (es : List TimedEvent) : Nat :=
  es.countP fun e => e.event.strikes key

def releaseCount (key : Nat) (es : List TimedEvent) : Nat :=
  es.countP fun e => e.event.releases key

/-- The key is released as often as struck, and what is released up to a tick was struck before
that tick. The order of the events does not matter. -/
structure Balanced (key : Nat) (es : List TimedEvent) : Prop where
  even : releaseCount key es = strikeCount key es
  before : ∀ tick, releaseCount key (es.filter fun e => e.tick ≤ tick) ≤
    strikeCount key (es.filter fun e => e.tick < tick)

theorem Arranged.perm {given arranged : List TimedEvent} (h : Arranged given arranged) :
    arranged.Perm given := by
  rw [List.perm_iff_count]
  intro e
  have hcount := congrArg (List.count e) (h.stable e.tick e.event.rank)
  rwa [List.count_filter (by simp), List.count_filter (by simp)] at hcount

/-- Wherever an arranged track is cut, there is a tick with all before it heard and all after it to
come. -/
theorem Arranged.exists_tick {given heard later : List TimedEvent}
    (h : Arranged given (heard ++ later)) (hne : heard ≠ []) :
    ∃ tick, (∀ e ∈ heard, e.tick ≤ tick) ∧ ∀ e ∈ later, tick ≤ e.tick := by
  obtain ⟨earlier, last, rfl⟩ := (List.eq_nil_or_concat' heard).resolve_left hne
  obtain ⟨hheard, -, hlater⟩ := List.pairwise_append.1 h.sorted
  obtain ⟨-, -, hearlier⟩ := List.pairwise_append.1 hheard
  refine ⟨last.tick, ?_, ?_⟩
  · intro e he
    rcases List.mem_append.1 he with he | he
    · have hle := hearlier e he last List.mem_cons_self
      omega
    · rw [List.mem_singleton.1 he]
  · intro e he
    have hle := hlater last (by simp) e he
    omega

/-- At no point of an arranged track has a key been released more often than struck. -/
theorem Arranged.releaseCount_le {given arranged heard : List TimedEvent} {key : Nat}
    (h : Arranged given arranged) (hb : Balanced key given) (hp : heard <+: arranged) :
    releaseCount key heard ≤ strikeCount key heard := by
  obtain ⟨later, rfl⟩ := hp
  by_cases hne : heard = []
  · subst hne
    exact Nat.le_refl 0
  obtain ⟨tick, hheard, hlater⟩ := h.exists_tick hne
  have hreleases : releaseCount key heard ≤
      releaseCount key (given.filter fun e => e.tick ≤ tick) := by
    have hperm := (h.perm.filter fun e => e.tick ≤ tick).countP_eq fun e => e.event.releases key
    have hself : heard.filter (fun e => e.tick ≤ tick) = heard := by
      rw [List.filter_eq_self]
      intro e he
      exact decide_eq_true (hheard e he)
    unfold releaseCount
    rw [← hperm, List.filter_append, hself, List.countP_append]
    exact Nat.le_add_right _ _
  have hstrikes : strikeCount key (given.filter fun e => e.tick < tick) ≤
      strikeCount key heard := by
    have hperm := (h.perm.filter fun e => e.tick < tick).countP_eq fun e => e.event.strikes key
    have hnone : later.filter (fun e => e.tick < tick) = [] := by
      rw [List.filter_eq_nil_iff]
      intro e he
      have hle := hlater e he
      rw [decide_eq_true_eq]
      omega
    unfold strikeCount
    rw [← hperm, List.filter_append, hnone, List.append_nil]
    exact List.filter_sublist.countP_le
  have hbefore := hb.before tick
  omega

theorem Arranged.releaseCount_eq {given arranged : List TimedEvent} {key : Nat}
    (h : Arranged given arranged) (hb : Balanced key given) :
    releaseCount key arranged = strikeCount key arranged := by
  have hreleases := h.perm.countP_eq fun e => e.event.releases key
  have hstrikes := h.perm.countP_eq fun e => e.event.strikes key
  have heven := hb.even
  unfold releaseCount strikeCount at *
  omega

namespace Balanced

variable {key : Nat}

theorem nil : Balanced key [] :=
  ⟨rfl, fun _ => Nat.le_refl 0⟩

theorem append {es fs : List TimedEvent} (he : Balanced key es) (hf : Balanced key fs) :
    Balanced key (es ++ fs) := by
  constructor
  · have hes := he.even
    have hfs := hf.even
    unfold releaseCount strikeCount at *
    rw [List.countP_append, List.countP_append]
    omega
  · intro tick
    have hes := he.before tick
    have hfs := hf.before tick
    unfold releaseCount strikeCount at *
    rw [List.filter_append, List.filter_append, List.countP_append, List.countP_append]
    omega

theorem flatMap {α : Type} {f : α → List TimedEvent} {as : List α}
    (h : ∀ a ∈ as, Balanced key (f a)) : Balanced key (as.flatMap f) := by
  induction as with
  | nil => exact nil
  | cons a as ih =>
    rw [List.forall_mem_cons] at h
    exact h.1.append (ih h.2)

theorem of_setup {es : List TimedEvent} (h : ∀ e ∈ es, e.event.rank = 0) : Balanced key es := by
  have hreleases (fs : List TimedEvent) (hf : fs ⊆ es) : releaseCount key fs = 0 := by
    apply List.countP_eq_zero.2
    intro e he
    rw [(e.event.silent_of_rank key (h e (hf he))).1]
    exact Bool.false_ne_true
  have hstrikes : strikeCount key es = 0 := by
    apply List.countP_eq_zero.2
    intro e he
    rw [(e.event.silent_of_rank key (h e he)).2.1]
    exact Bool.false_ne_true
  constructor
  · rw [hreleases es (List.Subset.refl es), hstrikes]
  · intro tick
    rw [hreleases _ List.filter_sublist.subset]
    exact Nat.zero_le _

theorem of_note {start stop channel velocity k : Nat} (hlt : start < stop) (hv : velocity ≠ 0) :
    Balanced key [⟨start, .noteOn channel k velocity⟩, ⟨stop, .noteOff channel k 0⟩] := by
  constructor
  · simp [releaseCount, strikeCount, Event.releases, Event.strikes, hv, List.countP_cons]
  · intro tick
    by_cases hstop : stop ≤ tick
    · have hstart : start < tick := by omega
      have hle : start ≤ tick := by omega
      simp [releaseCount, strikeCount, Event.releases, Event.strikes, hv, hstop, hstart, hle,
        List.countP_cons]
    · by_cases hstart : start ≤ tick <;>
        simp [releaseCount, Event.releases, hv, hstop, hstart]

end Balanced

theorem balanced_struck (key : Nat) (params : Params) (quarter : Nat) {e : NoteEvent}
    (hd : 0 < e.duration.toNat) (hend : e.start.toNat + e.duration.toNat < UInt32.size) :
    Balanced key (struck params quarter e) := by
  have hle := fileTick_le quarter e.start.toNat
  apply Balanced.of_note
  · unfold heldTick
    omega
  · omega

theorem rank_opening (params : Params) (tempo : UInt32) (voice : Nat) :
    ∀ e ∈ opening params tempo voice, e.event.rank = 0 := by
  intro e he
  rcases List.mem_append.1 he with he | he
  · split at he
    · rw [List.mem_singleton.1 he]
      rfl
    · cases he
  · obtain ⟨number, -, rfl⟩ := List.mem_map.1 he
    rfl

section

variable {events : List NoteEvent} (params : Params) (quarter tempo : UInt32) (voice : Nat)

theorem balanced_score (key : Nat)
    (h : ∀ e ∈ events, e.start.toNat + e.duration.toNat < UInt32.size) :
    Balanced key (score params quarter tempo events voice) := by
  apply Balanced.append
  · exact Balanced.of_setup (rank_opening params tempo voice)
  · apply Balanced.flatMap
    intro e he
    rw [List.mem_filter, Bool.and_eq_true, decide_eq_true_eq] at he
    exact balanced_struck key params quarter.toNat he.2.2 (h e he.1)

theorem countP_isStrike_score :
    (score params quarter tempo events voice).countP (fun e => e.event.isStrike) =
      events.countP fun e => e.voice == voice && 0 < e.duration.toNat := by
  have hopening : (opening params tempo voice).countP (fun e => e.event.isStrike) = 0 := by
    apply List.countP_eq_zero.2
    intro e he
    rw [(e.event.silent_of_rank 0 (rank_opening params tempo voice e he)).2.2]
    exact Bool.false_ne_true
  have hone (e : NoteEvent) :
      (struck params quarter.toNat e).countP (fun e => e.event.isStrike) = 1 := by
    have hv : max 1 (min 127 params.velocity.toNat) ≠ 0 := by omega
    simp [struck, Event.isStrike, hv]
  have hnotes (es : List NoteEvent) :
      (es.flatMap (struck params quarter.toNat)).countP (fun e => e.event.isStrike) =
        es.length := by
    induction es with
    | nil => rfl
    | cons e es ih =>
      rw [List.flatMap_cons, List.countP_append, hone, ih, List.length_cons, Nat.add_comm]
  rw [score, List.countP_append, hopening, hnotes, Nat.zero_add, List.countP_eq_length_filter]

end

end Tunebook.Midi

namespace Tunebook.Compilation

open Midi

/-- Whatever text is compiled, and whatever its file is to sound like: as long as the file can be
written, it is read, and in each track of it every key is released as often as it is struck and at
no point more often. A track strikes once for each event of its voice that has a length. -/
theorem midi_balanced (text : String) (c : Compilation) (params : Params)
    (h : ofText text = .ok c) (hvoices : c.tune.voices.length ≤ 65535)
    (hsizes : ∀ number ≤ lastVoice c.events,
      (trackData (track params c.ticksPerQuarter c.tune.tempo c.events number)).length <
        UInt32.size) :
    ∃ f, Contents.read? (c.midi params) = some f ∧ f.tracks.length = lastVoice c.events + 1 ∧
      ∀ voice t, f.tracks[voice]? = some t →
        (∀ key, releaseCount key t.events = strikeCount key t.events ∧
          ∀ heard, heard <+: t.events → releaseCount key heard ≤ strikeCount key heard) ∧
        t.events.countP (fun e => e.event.isStrike) =
          c.events.countP fun e => e.voice == voice && 0 < e.duration.toNat := by
  obtain ⟨-, -, hevents⟩ := ofText_eq_ok h
  have hwritable : Writable c.events c.ticksPerQuarter c.tune.tempo params := by
    refine ⟨fun e he => ?_, hsizes⟩
    have hlt := (Tune.mem_events? hevents he).1
    omega
  refine ⟨_, hwritable.read?_eq, length_tracks _ _ _ _, ?_⟩
  intro voice t ht
  obtain rfl := tracks_getElem? ht
  have harranged := arranged_track params c.ticksPerQuarter c.tune.tempo c.events voice
  have hbalanced (key : Nat) := balanced_score params c.ticksPerQuarter c.tune.tempo voice key
    fun e he => (Tune.mem_events? hevents he).2
  constructor
  · intro key
    exact ⟨harranged.releaseCount_eq (hbalanced key),
      fun heard hp => harranged.releaseCount_le (hbalanced key) hp⟩
  · rw [harranged.perm.countP_eq]
    exact countP_isStrike_score params c.ticksPerQuarter c.tune.tempo voice

/-- Notes far shorter than a tick of the file, and a key that is struck twice at once. -/
theorem midi_balanced_short :
    ∃ c, ofText "L:1/4\nC/65536C/65536[CC]" = .ok c ∧ c.tune.voices.length ≤ 65535 ∧
      c.ticksPerQuarter = 65536 ∧
      ∃ f, Contents.read? (c.midi .standard) = some f ∧ f.tracks.length = 1 ∧
        ∀ t, f.tracks[0]? = some t →
          t.events.countP (fun e => e.event.isStrike) = 4 ∧
            releaseCount 60 t.events = strikeCount 60 t.events ∧
            ∀ heard, heard <+: t.events → releaseCount 60 heard ≤ strikeCount 60 heard := by
  obtain ⟨c, hc, hcheck⟩ := exists_of_any
    (show (ofText "L:1/4\nC/65536C/65536[CC]").toOption.any (fun c =>
      decide (c.tune.voices.length ≤ 65535 ∧ c.ticksPerQuarter = 65536 ∧ c.events.length = 4 ∧
        lastVoice c.events = 0 ∧
        c.events.countP (fun e => e.voice == 0 && 0 < e.duration.toNat) = 4)) = true by
      decide +kernel)
  obtain ⟨hvoices, hticks, hlength, hlast, hcount⟩ := of_decide_eq_true hcheck
  have hsize (number : Nat) : (trackData (track .standard c.ticksPerQuarter c.tune.tempo c.events
      number)).length < UInt32.size := length_trackData_lt (by omega) number
  obtain ⟨f, hread, htracks, hbalanced⟩ :=
    midi_balanced _ c .standard hc hvoices fun number _ => hsize number
  refine ⟨c, hc, hvoices, hticks, f, hread, by rw [htracks, hlast], ?_⟩
  intro t ht
  obtain ⟨hkeys, hstrikes⟩ := hbalanced 0 t ht
  exact ⟨hstrikes.trans hcount, hkeys 60⟩

end Tunebook.Compilation
