import Tunebook.Proofs.Tune.Reduced
import Tunebook.Proofs.Tune.SameValue
import Tunebook.Tune.Alike

namespace Tunebook

namespace Element

mutual

def pitches : Element → List Pitch
  | note n => [n.pitch]
  | rest _ => []
  | accidental pitch _ => [pitch]
  | chord notes => notes.map Note.pitch
  | tuplet _ elements _ => pitchesAll elements

def pitchesAll : List Element → List Pitch
  | [] => []
  | e :: es => pitches e ++ pitchesAll es

end

end Element

def Phrase.pitches (p : Phrase) : List Pitch :=
  p.bars.flatMap Element.pitchesAll

def Voice.pitches (v : Voice) : List Pitch :=
  v.phrases.flatMap Phrase.pitches

def Tune.pitches (t : Tune) : List Pitch :=
  t.voices.flatMap Voice.pitches

/-- Two things have as many pitches, and something is so if these have the same accidentals. -/
structure UpToSigns (ps qs : List Pitch) (same : Prop) : Prop where
  length : ps.length = qs.length
  same : ps.map Pitch.accidental = qs.map Pitch.accidental → same

namespace UpToSigns

theorem nil {same : Prop} (h : same) : UpToSigns [] [] same :=
  ⟨rfl, fun _ => h⟩

theorem append {ps ps' qs qs' : List Pitch} {same same' : Prop} (h : UpToSigns ps qs same)
    (h' : UpToSigns ps' qs' same') : UpToSigns (ps ++ ps') (qs ++ qs') (same ∧ same') := by
  refine ⟨by rw [List.length_append, List.length_append, h.length, h'.length], ?_⟩
  intro hsigns
  have hlength : (ps.map Pitch.accidental).length = (qs.map Pitch.accidental).length := by
    rw [List.length_map, List.length_map, h.length]
  rw [List.map_append, List.map_append, append_eq_append_iff_of_length hlength] at hsigns
  exact ⟨h.same hsigns.1, h'.same hsigns.2⟩

theorem imp {ps qs : List Pitch} {same same' : Prop} (h : UpToSigns ps qs same)
    (himp : same → same') : UpToSigns ps qs same' :=
  ⟨h.length, fun hsigns => himp (h.same hsigns)⟩

end UpToSigns

theorem Pitch.upToSigns_of_alike {p q : Pitch} (h : p.alike q = true) :
    UpToSigns [p] [q] (p = q) := by
  refine ⟨rfl, fun hsigns => ?_⟩
  have haccidental : p.accidental = q.accidental := (List.cons.inj hsigns).1
  simp only [Pitch.alike, Bool.and_eq_true, beq_iff_eq] at h
  cases p
  cases q
  simp_all

theorem Note.upToSigns_of_alike {n m : Note} (hn : n.duration.den ≠ 0) (hm : m.duration.den ≠ 0)
    (h : n.alike m = true) : UpToSigns [n.pitch] [m.pitch] (n.reduced = m.reduced) := by
  rw [Note.alike, Bool.and_eq_true] at h
  refine (Pitch.upToSigns_of_alike h.1).imp fun hpitch => ?_
  rw [Note.reduced, Note.reduced, hpitch, Duration.reduced_eq_of_alike hn hm h.2]

theorem upToSigns_of_alikeLists {α : Type} {alike : α → α → Bool} {pitches : α → List Pitch}
    {reduced : α → α} {as bs : List α} (h : alikeLists alike as bs = true)
    (hpair : ∀ a ∈ as, ∀ b ∈ bs, alike a b = true →
      UpToSigns (pitches a) (pitches b) (reduced a = reduced b)) :
    UpToSigns (as.flatMap pitches) (bs.flatMap pitches) (as.map reduced = bs.map reduced) := by
  induction as generalizing bs with
  | nil =>
    cases bs with
    | nil => exact .nil rfl
    | cons b bs => cases h
  | cons a as ih =>
    cases bs with
    | nil => cases h
    | cons b bs =>
      rw [alikeLists, Bool.and_eq_true] at h
      have hfirst := hpair a List.mem_cons_self b List.mem_cons_self h.1
      have hothers := ih h.2 fun a' ha b' hb =>
        hpair a' (List.mem_cons_of_mem a ha) b' (List.mem_cons_of_mem b hb)
      rw [List.flatMap_cons, List.flatMap_cons]
      refine (hfirst.append hothers).imp fun hsame => ?_
      rw [List.map_cons, List.map_cons, hsame.1, hsame.2]

namespace Element

mutual

theorem upToSigns_of_alike {e f : Element} (he : ∀ d ∈ e.durations, d.den ≠ 0)
    (hf : ∀ d ∈ f.durations, d.den ≠ 0) (h : e.alike f = true) :
    UpToSigns e.pitches f.pitches (e.reduced = f.reduced) := by
  cases e with
  | note n =>
    cases f with
    | note m =>
      rw [durations, List.forall_mem_singleton] at he hf
      rw [alike] at h
      refine (Note.upToSigns_of_alike he hf h).imp fun hsame => ?_
      rw [reduced, reduced, hsame]
    | _ => simp [alike] at h
  | rest a =>
    cases f with
    | rest b =>
      rw [durations, List.forall_mem_singleton] at he hf
      rw [alike] at h
      refine .nil ?_
      rw [reduced, reduced, Duration.reduced_eq_of_alike he hf h]
    | _ => simp [alike] at h
  | accidental p value =>
    cases f with
    | accidental q value' =>
      rw [alike, Bool.and_eq_true, beq_iff_eq] at h
      refine (Pitch.upToSigns_of_alike h.1).imp fun hpitch => ?_
      rw [reduced, reduced, hpitch, h.2]
    | _ => simp [alike] at h
  | chord ns =>
    cases f with
    | chord ms =>
      rw [durations, List.forall_mem_map] at he hf
      rw [alike] at h
      rw [pitches, pitches, List.map_eq_flatMap, List.map_eq_flatMap]
      refine (upToSigns_of_alikeLists h fun n hn m hm hnm =>
        Note.upToSigns_of_alike (he n hn) (hf m hm) hnm).imp fun hsame => ?_
      rw [reduced, reduced, hsame]
    | _ => simp [alike] at h
  | tuplet size es k =>
    cases f with
    | tuplet size' fs k' =>
      rw [durations] at he hf
      simp only [alike, Bool.and_eq_true, beq_iff_eq] at h
      rw [pitches, pitches]
      refine (upToSigns_of_alikeAll he hf h.1.2).imp fun hsame => ?_
      rw [reduced, reduced, hsame, h.1.1, h.2]
    | _ => simp [alike] at h

theorem upToSigns_of_alikeAll {es fs : List Element} (he : ∀ d ∈ durationsAll es, d.den ≠ 0)
    (hf : ∀ d ∈ durationsAll fs, d.den ≠ 0) (h : alikeAll es fs = true) :
    UpToSigns (pitchesAll es) (pitchesAll fs) (reducedAll es = reducedAll fs) := by
  cases es with
  | nil =>
    cases fs with
    | nil => exact .nil rfl
    | cons f fs => simp [alikeAll] at h
  | cons e es =>
    cases fs with
    | nil => simp [alikeAll] at h
    | cons f fs =>
      rw [durationsAll, List.forall_mem_append] at he hf
      rw [alikeAll, Bool.and_eq_true] at h
      rw [pitchesAll, pitchesAll]
      have hfirst := upToSigns_of_alike he.1 hf.1 h.1
      have hothers := upToSigns_of_alikeAll he.2 hf.2 h.2
      refine (hfirst.append hothers).imp fun hsame => ?_
      rw [reducedAll, reducedAll, hsame.1, hsame.2]

end

end Element

theorem Bar.upToSigns_of_alikeLists {bs cs : List Bar} (hb : Fractional bs) (hc : Fractional cs)
    (h : alikeLists Element.alikeAll bs cs = true) :
    UpToSigns (bs.flatMap Element.pitchesAll) (cs.flatMap Element.pitchesAll)
      (bs.map Bar.reduced = cs.map Bar.reduced) :=
  Tunebook.upToSigns_of_alikeLists h fun b hb' c hc' hbc =>
    Element.upToSigns_of_alikeAll (hb b hb') (hc c hc') hbc

theorem Phrase.upToSigns_of_alike {p q : Phrase} (hp : Fractional p.bars) (hq : Fractional q.bars)
    (h : p.alike q = true) : UpToSigns p.pitches q.pitches (p.reduced = q.reduced) := by
  cases p with
  | bar b =>
    cases q with
    | bar c =>
      have hbars : alikeLists Element.alikeAll [b] [c] = true := by
        rw [alikeLists, alikeLists, Bool.and_true]
        exact h
      refine (Bar.upToSigns_of_alikeLists hp hq hbars).imp fun hsame => ?_
      rw [Phrase.reduced, Phrase.reduced, (List.cons.inj hsame).1]
    | repeated s => cases h
  | repeated r =>
    cases q with
    | bar c => cases h
    | repeated s =>
      simp only [Phrase.alike, Repeat.alike, Bool.and_eq_true] at h
      simp only [Phrase.bars, Repeat.bars, Fractional, List.forall_mem_append] at hp hq
      have hnormal := Bar.upToSigns_of_alikeLists hp.1.1 hq.1.1 h.1.1
      have hfirst := Bar.upToSigns_of_alikeLists hp.1.2 hq.1.2 h.1.2
      have hsecond := Bar.upToSigns_of_alikeLists hp.2 hq.2 h.2
      simp only [Phrase.pitches, Phrase.bars, Repeat.bars, List.flatMap_append]
      refine ((hnormal.append hfirst).append hsecond).imp fun hsame => ?_
      rw [Phrase.reduced, Phrase.reduced, Repeat.reduced, Repeat.reduced, hsame.1.1, hsame.1.2,
        hsame.2]

theorem Voice.upToSigns_of_alike {v w : Voice} (hv : Fractional v.bars) (hw : Fractional w.bars)
    (h : v.alike w = true) : UpToSigns v.pitches w.pitches (v.reduced = w.reduced) := by
  simp only [Voice.alike, Bool.and_eq_true, beq_iff_eq] at h
  simp only [Fractional, Voice.bars, List.forall_mem_flatMap] at hv hw
  refine (upToSigns_of_alikeLists h.1.2 fun p hp q hq hpq =>
    Phrase.upToSigns_of_alike (hv p hp) (hw q hq) hpq).imp fun hsame => ?_
  rw [Voice.reduced, Voice.reduced, h.1.1, h.2, hsame]

namespace Tune

theorem upToSigns_of_alike {t u : Tune} (ht : ∀ d ∈ t.durations, d.den ≠ 0)
    (hu : ∀ d ∈ u.durations, d.den ≠ 0) (h : t.alike u = true) :
    UpToSigns t.pitches u.pitches (t.reduced = u.reduced) := by
  simp only [Tune.alike, Bool.and_eq_true, beq_iff_eq] at h
  obtain ⟨⟨⟨⟨⟨⟨⟨⟨hindex, htitle⟩, hsubtitles⟩, hcomposer⟩, hlength⟩, hmeter⟩, htempo⟩, hkey⟩,
    hvoices⟩ := h
  refine (upToSigns_of_alikeLists hvoices fun v hv w hw hvw =>
    Voice.upToSigns_of_alike (fractional_bars ht hv) (fractional_bars hu hw)
      hvw).imp fun hsame => ?_
  have hlength' := Duration.reduced_eq_of_alike (ht _ t.defaultLength_mem_durations)
    (hu _ u.defaultLength_mem_durations) hlength
  have hmeter' := Duration.reduced_eq_of_alike (ht _ t.meter_mem_durations)
    (hu _ u.meter_mem_durations) hmeter
  rw [Tune.reduced, Tune.reduced, hindex, htitle, hsubtitles, hcomposer, hlength', hmeter', htempo,
    hkey, hsame]

end Tune

theorem alikeLists_of_map_eq {α β : Type} {alike : α → α → Bool} {f : α → β}
    (hf : ∀ a b, f a = f b → alike a b = true) {as bs : List α} (h : as.map f = bs.map f) :
    alikeLists alike as bs = true := by
  induction as generalizing bs with
  | nil =>
    rw [List.map_nil, eq_comm, List.map_eq_nil_iff] at h
    rw [h]
    rfl
  | cons a as ih =>
    obtain ⟨b, bs, rfl, hb, hbs⟩ := List.map_eq_cons_iff.1 h.symm
    rw [alikeLists, hf a b hb.symm, ih hbs.symm]
    rfl

namespace FeedbackKind

/-- The same diagnostic, whatever the terms of the lengths that it cites. -/
def alike : FeedbackKind → FeedbackKind → Bool
  | barLength a b, barLength c d => a.alike c && b.alike d
  | chordLength a b, chordLength c d => a.alike c && b.alike d
  | barOverflow, barOverflow => true
  | _, _ => false

variable {k l : FeedbackKind}

theorem cases_of_reduced_eq (h : k.reduced = l.reduced) :
    (∃ a b c d, k = barLength a b ∧ l = barLength c d ∧ a.reduced = c.reduced ∧
        b.reduced = d.reduced) ∨
      (∃ a b c d, k = chordLength a b ∧ l = chordLength c d ∧ a.reduced = c.reduced ∧
        b.reduced = d.reduced) ∨
      (k = barOverflow ∧ l = barOverflow) := by
  cases k <;> cases l <;> simp_all [reduced]

theorem alike_of_reduced_eq (h : k.reduced = l.reduced) : k.alike l = true := by
  obtain ⟨a, b, c, d, rfl, rfl, hac, hbd⟩ | ⟨a, b, c, d, rfl, rfl, hac, hbd⟩ | ⟨rfl, rfl⟩ :=
    cases_of_reduced_eq h
  · simp [alike, Duration.alike_of_reduced_eq hac, Duration.alike_of_reduced_eq hbd]
  · simp [alike, Duration.alike_of_reduced_eq hac, Duration.alike_of_reduced_eq hbd]
  · rfl

theorem text_eq_of_reduced_eq (h : k.reduced = l.reduced) : k.text = l.text := by
  obtain ⟨a, b, c, d, rfl, rfl, hac, hbd⟩ | ⟨a, b, c, d, rfl, rfl, hac, hbd⟩ | ⟨rfl, rfl⟩ :=
    cases_of_reduced_eq h
  · change _ ++ a.text ++ _ ++ b.text = _ ++ c.text ++ _ ++ d.text
    rw [Duration.text_eq_of_reduced_eq hac, Duration.text_eq_of_reduced_eq hbd]
  · change _ ++ a.text ++ _ ++ b.text = _ ++ c.text ++ _ ++ d.text
    rw [Duration.text_eq_of_reduced_eq hac, Duration.text_eq_of_reduced_eq hbd]
  · rfl

end FeedbackKind

namespace Feedback

def alike (f g : Feedback) : Bool :=
  f.voice == g.voice && f.bar == g.bar && f.kind.alike g.kind

variable {f g : Feedback}

theorem alike_of_reduced_eq (h : f.reduced = g.reduced) : f.alike g = true := by
  obtain ⟨hvoice, hbar, hkind⟩ := Feedback.mk.inj h
  simp [alike, hvoice, hbar, FeedbackKind.alike_of_reduced_eq hkind]

theorem text_eq_of_reduced_eq (h : f.reduced = g.reduced) : f.text = g.text := by
  obtain ⟨hvoice, hbar, hkind⟩ := Feedback.mk.inj h
  rw [text, text, hvoice, hbar, FeedbackKind.text_eq_of_reduced_eq hkind]

theorem report_eq_of_reduced_eq {fs gs : List Feedback}
    (h : fs.map Feedback.reduced = gs.map Feedback.reduced) : report fs = report gs := by
  -- The line of a diagnostic is a function of its lowest terms.
  obtain ⟨line, hline⟩ : ∃ line : Feedback → String,
      (fun f : Feedback => f.text ++ "\n") = line ∘ Feedback.reduced := by
    apply (Function.factorsThrough_iff _).1
    intro f g hfg
    exact congrArg (· ++ "\n") (text_eq_of_reduced_eq hfg)
  rw [report, report, hline, ← List.map_map, ← List.map_map, h]

end Feedback

namespace Tune

/-- Two tunes whose lengths are fractions, that are the same music and whose pitches have the same
accidentals, are played the same or are both too long to play, and the same diagnostics are given
about both in the same words. -/
theorem events?_feedback_of_alike (t u : Tune) (ht : ∀ d ∈ t.durations, d.den ≠ 0)
    (hu : ∀ d ∈ u.durations, d.den ≠ 0) (h : t.alike u = true)
    (hsigns : t.pitches.map Pitch.accidental = u.pitches.map Pitch.accidental) :
    (∀ ticks, t.events? ticks = u.events? ticks) ∧
      alikeLists Feedback.alike t.feedback u.feedback = true ∧
      Feedback.report t.feedback = Feedback.report u.feedback := by
  have hsame := (upToSigns_of_alike ht hu h).same hsigns
  have hfeedback : t.feedback.map Feedback.reduced = u.feedback.map Feedback.reduced := by
    rw [← feedback_reduced ht, hsame, feedback_reduced hu]
  refine ⟨fun ticks => ?_, ?_, Feedback.report_eq_of_reduced_eq hfeedback⟩
  · rw [← events?_reduced ht, hsame, events?_reduced hu]
  · exact alikeLists_of_map_eq (fun _ _ => Feedback.alike_of_reduced_eq) hfeedback

/-- Only the terms of the lengths differ, in a tuplet, a chord and the fields, and then in the
diagnostics too. -/
theorem events?_feedback_of_alike_terms :
    ∃ t u, read "M:2/4\nL:2/16\n[^C4/2E]C|(3D2/4EF" = .ok t ∧
      read "M:1/2\nL:1/8\n[^C2E]C|(3D/EF" = .ok u ∧ t.feedback ≠ u.feedback ∧
      (∀ ticks, t.events? ticks = u.events? ticks) ∧
      alikeLists Feedback.alike t.feedback u.feedback = true ∧
      Feedback.report t.feedback = Feedback.report u.feedback := by
  let t := (read "M:2/4\nL:2/16\n[^C4/2E]C|(3D2/4EF").toOption.getD blank
  let u := (read "M:1/2\nL:1/8\n[^C2E]C|(3D/EF").toOption.getD blank
  have ht : ∀ d ∈ t.durations, d.den ≠ 0 := by decide +kernel
  have hu : ∀ d ∈ u.durations, d.den ≠ 0 := by decide +kernel
  exact ⟨t, u, by with_unfolding_all rfl, by with_unfolding_all rfl, by decide +kernel,
    events?_feedback_of_alike t u ht hu (by decide +kernel) (by decide +kernel)⟩

end Tune

end Tunebook
