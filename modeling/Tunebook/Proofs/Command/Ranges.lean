import Tunebook.Proofs.Midi.Score
import Tunebook.Proofs.Settings.Layering

namespace Tunebook

/-- Values that a file takes as they are. -/
structure InBounds (velocity channel program : Option UInt8) : Prop where
  velocity : ∀ v ∈ velocity, 1 ≤ v.toNat ∧ v.toNat ≤ 127
  channel : ∀ c ∈ channel, c.toNat ≤ 15
  program : ∀ p ∈ program, p.toNat ≤ 127

theorem InBounds.over {velocity channel program program' : Option UInt8}
    {velocity' channel' : UInt8} (h : InBounds velocity channel program)
    (h' : InBounds (some velocity') (some channel') program') :
    InBounds (some (velocity.getD velocity')) (some (channel.getD channel'))
      (program.or program') := by
  refine ⟨?_, ?_, ?_⟩
  · cases velocity with
    | none => exact h'.velocity
    | some v => exact h.velocity
  · cases channel with
    | none => exact h'.channel
    | some c => exact h.channel
  · cases program with
    | none => exact h'.program
    | some p => exact h.program

/-- No bit of such a value is masked, and no velocity is held to its range. -/
theorem InBounds.unchanged {velocity channel : UInt8} {program : Option UInt8}
    (h : InBounds (some velocity) (some channel) program) :
    Midi.loudness velocity = velocity ∧ channel &&& 0x0f = channel ∧
      ∀ p ∈ program, p &&& 0x7f = p := by
  have hvelocity := h.velocity velocity rfl
  have hchannel := h.channel channel rfl
  refine ⟨?_, ?_, ?_⟩
  · rw [← UInt8.toNat_inj, Midi.loudness_toNat]
    omega
  · rw [← UInt8.toNat_inj, Midi.toNat_and_fifteen]
    omega
  · intro p hp
    have hprogram := h.program p hp
    rw [← UInt8.toNat_inj, Midi.toNat_and_127]
    omega

theorem inBounds_of_allow {velocity channel program : Option UInt8}
    (h : Command.Arguments.ranges.Allow velocity channel program) :
    InBounds velocity channel program := by
  obtain ⟨hvelocity, hchannel, hprogram⟩ := h
  simp only [UInt8.le_iff_toNat_le] at hvelocity hchannel hprogram
  exact ⟨hvelocity, fun c hc => (hchannel c hc).2, fun p hp => (hprogram p hp).2⟩

namespace Settings

theorem inRange_of_violation?_eq_none {key : String} {low high : UInt8} {value : Option UInt8}
    (h : violation? key low high value = none) :
    ∀ v ∈ value, low.toNat ≤ v.toNat ∧ v.toNat ≤ high.toNat := by
  intro v hv
  rw [Option.mem_def.1 hv, violation?, Option.map_eq_none_iff, Option.filter_eq_none_iff] at h
  have hin := h v rfl
  simp only [Bool.or_eq_true, decide_eq_true_eq, not_or, UInt8.not_lt, UInt8.le_iff_toNat_le] at hin
  exact hin

theorem inBounds_of_violations_eq_nil {s : Settings} (h : violations s = []) :
    InBounds (some s.velocity) (some s.channel) s.program := by
  rw [violations, List.filterMap_eq_nil_iff] at h
  simp only [List.forall_mem_cons, id] at h
  obtain ⟨hvelocity, hchannel, hprogram, -⟩ := h
  exact ⟨inRange_of_violation?_eq_none hvelocity,
    fun c hc => (inRange_of_violation?_eq_none hchannel c hc).2,
    fun p hp => (inRange_of_violation?_eq_none hprogram p hp).2⟩

theorem inBounds_of_ofTables {lib : Libraries} {env : Environment}
    {files : List (String × Toml.Table)} {loaded : Loaded}
    (h : ofTables lib env files = .ok loaded) :
    InBounds (some loaded.settings.velocity) (some loaded.settings.channel)
      loaded.settings.program := by
  obtain ⟨s, -, hnone, rfl⟩ := ofTables_eq_ok h
  exact inBounds_of_violations_eq_nil hnone

end Settings

end Tunebook
