import Tunebook.Proofs.Text
import Tunebook.Proofs.Tune.Notation
import Tunebook.Tune.Reader

namespace Tunebook

theorem KeySignature.ofCode?_of_mem_counts :
    ∀ entry ∈ counts, ofCode? entry.1 = some (ofCount entry.1 entry.2) := by
  decide +kernel

theorem KeySignature.ofCount_code (code : String) (count : Int) :
    (ofCount code count).code = code := by
  unfold ofCount
  split_ifs <;> rfl

theorem KeySignature.ofCode?_eq_some {code : String} {k : KeySignature}
    (h : ofCode? code = some k) : ∃ entry ∈ counts, k = ofCount entry.1 entry.2 := by
  unfold ofCode? at h
  obtain ⟨entry, hf, rfl⟩ := Option.map_eq_some_iff.1 h
  have hn : entry.1 = String.ofList (spelling (Text.trim code.toList)) := by
    simpa using List.find?_some hf
  exact ⟨entry, List.mem_of_find?_eq_some hf, by rw [hn]⟩

theorem KeySignature.ofCode?_code {code : String} {k : KeySignature} (h : ofCode? code = some k) :
    ofCode? k.code = some k := by
  obtain ⟨entry, he, rfl⟩ := ofCode?_eq_some h
  rw [ofCount_code]
  exact ofCode?_of_mem_counts entry he

namespace Header

theorem fraction_den {kind : FieldKind} {value : List Char} {d : Duration}
    (h : fraction kind value = .ok d) : d.den ≠ 0 := by
  unfold fraction at h
  split at h
  · simp [invalid] at h
  · split at h
    · simp [invalid] at h
    · simp [invalid] at h
    · split at h
      · simp [invalid] at h
      · rename_i hd
        simp only [Except.ok.injEq] at h
        subst h
        exact hd

theorem meter_parts {value : List Char} {d : Duration} (h : meter value = .ok d) :
    d.num ≠ 0 ∧ d.den ≠ 0 := by
  unfold meter at h
  split at h
  · simp only [Except.ok.injEq] at h
    subst h
    decide
  · split at h
    · simp only [Except.ok.injEq] at h
      subst h
      decide
    · split at h
      · simp [invalid] at h
      · split at h
        · split at h
          · simp [invalid] at h
          · rename_i hz
            simp only [Except.ok.injEq] at h
            subst h
            simpa using hz
        · simp [invalid] at h

theorem tempo_ne_zero {value : List Char} {n : UInt32} (h : tempo value = .ok n) : n ≠ 0 := by
  unfold tempo at h
  split at h
  · simp at h
  · split at h
    · simp [invalid] at h
    · rename_i hn
      simp only [Except.ok.injEq] at h
      subst h
      exact hn

theorem voiceName_word {value : List Char} {name : String} (h : voiceName value = .ok name) :
    name.toList ≠ [] ∧ ∀ c ∈ name.toList, Text.isBlank c = false := by
  unfold voiceName at h
  split at h
  · simp [invalid] at h
  · rename_i hne
    simp only [Except.ok.injEq] at h
    subst h
    rw [String.toList_ofList]
    exact ⟨hne, Text.firstWord_not_blank value⟩

theorem key_ofCode? {value : List Char} {k : KeySignature} (h : key value = .ok k) :
    KeySignature.ofCode? k.code = some k := by
  unfold key at h
  split at h
  · rename_i hk
    simp only [Except.ok.injEq] at h
    subst h
    exact KeySignature.ofCode?_code hk
  · simp at h

theorem inferredLength_den (meter : Duration) : (inferredLength meter).den ≠ 0 := by
  unfold inferredLength
  split_ifs <;> decide

theorem addTitle_sound {t : Tune} {title : String} (h : t.HeaderSound) (ht : OneLine title) :
    (addTitle t title).HeaderSound := by
  unfold addTitle
  split
  · rename_i he
    have hs : t.subtitles = [] := h.subtitles (by simpa using he)
    refine ⟨fun _ => hs, ?_, h.defaultLength, h.meter, h.tempo, h.key⟩
    intro text hm
    rcases List.mem_cons.1 hm with rfl | hm
    · exact ht
    · exact h.texts text (List.mem_cons_of_mem _ hm)
  · rename_i he
    refine ⟨fun h0 => absurd h0 (by simpa using he), ?_, h.defaultLength, h.meter, h.tempo, h.key⟩
    intro text hm
    by_cases heq : text = title
    · rw [heq]
      exact ht
    · refine h.texts text ?_
      simpa [heq] using hm

theorem apply_sound {t t' : Tune} {kind : FieldKind} {value : String} (h : t.HeaderSound)
    (hv : OneLine value) (ha : apply t kind value = .ok t') : t'.HeaderSound := by
  cases kind <;> simp only [apply] at ha
  case index =>
    obtain ⟨n, -, rfl⟩ := Reading.exists_of_map_eq_ok ha
    exact ⟨h.subtitles, h.texts, h.defaultLength, h.meter, h.tempo, h.key⟩
  case title =>
    rw [Except.ok.injEq] at ha
    subst ha
    exact addTitle_sound h hv
  case composer =>
    rw [Except.ok.injEq] at ha
    subst ha
    refine ⟨h.subtitles, ?_, h.defaultLength, h.meter, h.tempo, h.key⟩
    intro text hm
    by_cases heq : text = value
    · rw [heq]
      exact hv
    · refine h.texts text (List.mem_append_left _ ?_)
      simpa [heq] using hm
  case key =>
    obtain ⟨k, hk, rfl⟩ := Reading.exists_of_map_eq_ok ha
    exact ⟨h.subtitles, h.texts, h.defaultLength, h.meter, h.tempo, key_ofCode? hk⟩
  case defaultLength =>
    obtain ⟨d, hd, rfl⟩ := Reading.exists_of_map_eq_ok ha
    exact ⟨h.subtitles, h.texts, fraction_den hd, h.meter, h.tempo, h.key⟩
  case meter =>
    obtain ⟨d, hd, rfl⟩ := Reading.exists_of_map_eq_ok ha
    exact ⟨h.subtitles, h.texts, h.defaultLength, meter_parts hd, h.tempo, h.key⟩
  case tempo =>
    obtain ⟨n, hn, rfl⟩ := Reading.exists_of_map_eq_ok ha
    exact ⟨h.subtitles, h.texts, h.defaultLength, h.meter, tempo_ne_zero hn, h.key⟩
  case voice =>
    rw [Except.ok.injEq] at ha
    subst ha
    exact h

theorem blank_sound : Tune.blank.HeaderSound := by
  refine ⟨fun _ => rfl, ?_, by decide, by decide, by decide, ?_⟩
  · intro text hm
    rw [show text = "" by simpa [Tune.blank] using hm]
    exact ⟨by simp, rfl⟩
  · exact KeySignature.ofCode?_of_mem_counts ("C", 0) (by decide)

end Header

end Tunebook
