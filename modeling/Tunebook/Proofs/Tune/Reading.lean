import Tunebook.Proofs.Lists
import Tunebook.Proofs.Token.Lexing
import Tunebook.Proofs.Tune.Draft
import Tunebook.Proofs.Tune.Header

namespace Tunebook

open Element

/-- The strokes that come from one token: a beat, an open tuplet, a bar line or an ending. -/
inductive Gesture : List Stroke → Prop
  | beat (es : List Element) (h : Beat es) : Gesture (es.map .element)
  | mark (size : UInt32) : Gesture [.element (Tuplet.empty size).toElement]
  | barline (line : Barline) : Gesture [.barline line]
  | ending (which : Ending) : Gesture [.ending which]

namespace Draft

theorem writeAll_single (d : Draft) (stroke : Stroke) : d.writeAll [stroke] = d.write stroke := by
  change (d.write stroke >>= pure) = _
  exact bind_pure _

theorem element_mark_eq_ok {d d' : Draft} {size : UInt32}
    (h : d.element (Tuplet.empty size).toElement = .ok d') : d' = d.storeHeld.mark size := by
  cases ht : d.tuplet with
  | none =>
    rw [element_mark d size ht, Except.ok.injEq] at h
    exact h.symm
  | some t =>
    simp [element, ht, Tuplet.toElement] at h

theorem Sound.writeAll {d d' : Draft} {strokes : List Stroke} (h : d.Sound) (hg : Gesture strokes)
    (hw : d.writeAll strokes = .ok d') : d'.Sound ∧ d'.voice.name = d.voice.name := by
  cases hg with
  | beat es hb =>
    obtain ⟨run, last, rfl, hl⟩ := hb.shape
    rw [writeAll_add d run last h.unfilled hl, Except.ok.injEq] at hw
    subst hw
    exact ⟨h.storeHeld.add hb, by rw [add_name, storeHeld_name]⟩
  | mark size =>
    rw [writeAll_single] at hw
    rw [element_mark_eq_ok hw]
    exact ⟨h.storeHeld.mark, by rw [mark_name, storeHeld_name]⟩
  | barline line =>
    rw [writeAll_single] at hw
    exact ⟨h.barline hw, barline_name hw⟩
  | ending which =>
    rw [writeAll_single] at hw
    exact ⟨h.ending hw, ending_name hw⟩

end Draft

namespace Drafts

theorem ensureCurrent_of_some {ds : Drafts} {i : Nat} (h : ds.current = some i) :
    ds.ensureCurrent = ds := by
  rw [ensureCurrent, h]

theorem write_eq {ds : Drafts} {i : Nat} {d : Draft} (hc : ds.current = some i)
    (hd : ds.drafts[i]? = some d) (stroke : Stroke) :
    ds.write stroke = (d.write stroke).map fun d => { ds with drafts := ds.drafts.set i d } := by
  unfold write
  rw [ensureCurrent_of_some hc]
  simp only [hc, Option.bind_some, hd, Option.map_some]

theorem foldlM_write {ds : Drafts} {i : Nat} {d : Draft} (hc : ds.current = some i)
    (hd : ds.drafts[i]? = some d) (strokes : List Stroke) :
    strokes.foldlM write ds =
      (d.writeAll strokes).map fun d => { ds with drafts := ds.drafts.set i d } := by
  induction strokes generalizing ds d with
  | nil =>
    have hs : ds.drafts.set i d = ds.drafts := by
      obtain ⟨hi, rfl⟩ := List.getElem?_eq_some_iff.1 hd
      exact List.set_getElem_self hi
    change Except.ok ds = Except.ok { ds with drafts := ds.drafts.set i d }
    rw [hs]
  | cons stroke strokes ih =>
    change (ds.write stroke >>= fun ds => strokes.foldlM write ds) =
      (d.write stroke >>= fun d => d.writeAll strokes).map _
    rw [write_eq hc hd]
    cases hw : d.write stroke with
    | error e => rfl
    | ok d' =>
      have hi : i < ds.drafts.length := (List.getElem?_eq_some_iff.1 hd).1
      have hn : (ds.drafts.set i d')[i]? = some d' := List.getElem?_set_self hi
      have hr := @ih { ds with drafts := ds.drafts.set i d' } d' hc hn
      simp only [List.set_set] at hr
      exact hr

def names (ds : Drafts) : List (Option String) :=
  ds.drafts.map fun d => d.voice.name

structure Sound (ds : Drafts) : Prop where
  drafts : ∀ d ∈ ds.drafts, d.Sound
  names : NamesSound ds.names
  current : ∀ i, ds.current = some i → i < ds.drafts.length
  start : ds.current = none → ds.drafts = []

theorem sound_empty : empty.Sound :=
  ⟨by simp [empty], ⟨List.nodup_nil, by simp [Drafts.names, empty], by simp [Drafts.names, empty]⟩,
    by simp [empty], fun _ => rfl⟩

theorem ensureCurrent_current (ds : Drafts) : ∃ i, ds.ensureCurrent.current = some i := by
  unfold ensureCurrent
  split
  · rename_i i hi
    exact ⟨i, hi⟩
  · exact ⟨_, rfl⟩

theorem Sound.ensureCurrent {ds : Drafts} (h : ds.Sound) : ds.ensureCurrent.Sound := by
  unfold Drafts.ensureCurrent
  split
  · exact h
  · rename_i hc
    rw [h.start hc]
    refine ⟨?_, ⟨by simp [Drafts.names], by simp [Drafts.names], ?_⟩, by simp, by simp⟩
    · intro d hd
      rw [List.mem_singleton.1 hd]
      exact Draft.sound_empty none
    · intro name hn
      simp [Drafts.names, Draft.empty, Voice.empty] at hn

theorem Sound.add_named {ds : Drafts} {name : String} (h : ds.Sound)
    (hn : name.toList ≠ [] ∧ ∀ c ∈ name.toList, Text.isBlank c = false)
    (hnew : some name ∉ ds.names) :
    NamesSound (ds.names ++ [some name]) := by
  refine ⟨?_, ?_, ?_⟩
  · rw [List.nodup_append]
    refine ⟨h.names.nodup, by simp, ?_⟩
    rintro a ha b hb rfl
    rw [List.mem_singleton.1 hb] at ha
    exact hnew ha
  · intro other ho
    cases hl : ds.names with
    | nil => simp [hl] at ho
    | cons first others =>
      rw [hl, List.cons_append, List.tail_cons] at ho
      rcases List.mem_append.1 ho with ho | ho
      · exact h.names.named other (by rw [hl]; exact ho)
      · rw [List.mem_singleton.1 ho]
        exact Option.some_ne_none name
  · intro other ho
    rcases List.mem_append.1 ho with ho | ho
    · exact h.names.words other ho
    · rw [Option.some.inj (List.mem_singleton.1 ho)]
      exact hn

theorem Sound.select {ds : Drafts} {name : String} {switch : Bool} (h : ds.Sound)
    (hn : name.toList ≠ [] ∧ ∀ c ∈ name.toList, Text.isBlank c = false) :
    (ds.select name switch).Sound := by
  unfold Drafts.select
  by_cases hf : ds.drafts.findIdx (fun d => d.voice.name == some name) < ds.drafts.length
  · simp only [hf, if_true]
    refine ⟨h.drafts, h.names, ?_, ?_⟩
    · intro i hi
      dsimp only at hi
      split at hi
      · rw [← Option.some.inj hi]
        exact hf
      · exact h.current i hi
    · intro hc
      dsimp only at hc
      split at hc
      · cases hc
      · exact h.start hc
  · simp only [hf, if_false]
    have hnew : some name ∉ ds.names := by
      intro hm
      obtain ⟨d, hd, he⟩ := List.mem_map.1 hm
      exact hf (List.findIdx_lt_length_of_exists ⟨d, hd, by simpa using he⟩)
    have hlen : ds.drafts.findIdx (fun d => d.voice.name == some name) = ds.drafts.length :=
      Nat.le_antisymm List.findIdx_le_length (Nat.le_of_not_lt hf)
    refine ⟨?_, ?_, ?_, ?_⟩
    · intro d hd
      rcases List.mem_append.1 hd with hd | hd
      · exact h.drafts d hd
      · rw [List.mem_singleton.1 hd]
        exact Draft.sound_empty _
    · have hs := h.add_named hn hnew
      rw [Drafts.names, List.map_append]
      exact hs
    · intro i hi
      dsimp only at hi ⊢
      rw [List.length_append, List.length_singleton]
      split at hi
      · rw [← Option.some.inj hi, hlen]
        exact Nat.lt_succ_self _
      · exact Nat.lt_succ_of_lt (h.current i hi)
    · intro hc
      dsimp only at hc
      split at hc
      · cases hc
      · rename_i hs
        simp [hc] at hs

theorem set_names {ds : Drafts} {i : Nat} {d d' : Draft} (hd : ds.drafts[i]? = some d)
    (hn : d'.voice.name = d.voice.name) :
    ({ ds with drafts := ds.drafts.set i d' } : Drafts).names = ds.names := by
  obtain ⟨hi, rfl⟩ := List.getElem?_eq_some_iff.1 hd
  apply List.ext_getElem (by simp [names])
  intro j hj hj'
  by_cases he : i = j
  · subst he
    simpa [names] using hn
  · simp [names, he]

theorem Sound.set {ds : Drafts} {i : Nat} {d d' : Draft} (h : ds.Sound)
    (hd : ds.drafts[i]? = some d) (hs : d'.Sound) (hn : d'.voice.name = d.voice.name) :
    ({ ds with drafts := ds.drafts.set i d' } : Drafts).Sound := by
  refine ⟨?_, ?_, ?_, ?_⟩
  · intro e he
    rcases List.mem_or_eq_of_mem_set he with he | rfl
    · exact h.drafts e he
    · exact hs
  · rw [set_names hd hn]
    exact h.names
  · intro j hj
    simpa using h.current j hj
  · intro hc
    simp [h.start hc]

theorem Sound.foldlM_write {ds ds' : Drafts} {strokes : List Stroke} (h : ds.Sound)
    (hg : Gesture strokes) (hw : strokes.foldlM write ds.ensureCurrent = .ok ds') :
    ds'.Sound := by
  have he := h.ensureCurrent
  obtain ⟨i, hc⟩ := ds.ensureCurrent_current
  have hd : ds.ensureCurrent.drafts[i]? = some (ds.ensureCurrent.drafts.get ⟨i, he.current i hc⟩) :=
    List.getElem?_eq_getElem (he.current i hc)
  rw [Drafts.foldlM_write hc hd] at hw
  cases hr : (ds.ensureCurrent.drafts.get ⟨i, he.current i hc⟩).writeAll strokes with
  | error e =>
    rw [hr] at hw
    cases hw
  | ok d' =>
    rw [hr] at hw
    cases hw
    obtain ⟨hs, hn⟩ := (he.drafts _ (List.getElem_mem _)).writeAll hg hr
    exact he.set hd hs hn

theorem mapM_finish_eq_ok {ds : List Draft} {vs : List Voice} (h : ds.mapM Draft.finish = .ok vs) :
    vs = ds.map Draft.finished := by
  have heach : List.Forall₂ (fun d v => d.finished = v) ds vs := by
    refine (mapM_eq_ok_iff.1 h).imp ?_
    intro d v hd
    exact (Draft.finish_eq_ok hd).2.symm
  rw [← List.forall₂_map_left_iff, List.forall₂_eq_eq_eq] at heach
  exact heach.symm

theorem finish_eq_ok {ds : Drafts} {vs : List Voice} (h : ds.finish = .ok vs) :
    ds.drafts = [] ∧ vs = [.empty none] ∨ ds.drafts ≠ [] ∧ vs = ds.drafts.map Draft.finished := by
  unfold finish at h
  split at h
  · rename_i he
    cases h
    exact Or.inl ⟨by simpa using he, rfl⟩
  · rename_i he
    exact Or.inr ⟨by simpa using he, mapM_finish_eq_ok h⟩

end Drafts

namespace Reading

structure Sound (r : Reading) : Prop where
  header : r.tune.HeaderSound
  drafts : r.drafts.Sound

theorem sound_start : start.Sound :=
  ⟨Header.blank_sound, Drafts.sound_empty⟩

theorem Sound.field {r r' : Reading} {kind : FieldKind} {value : String} (h : r.Sound)
    (hv : OneLine value) (hf : r.field kind value = .ok r') : r'.Sound := by
  unfold Reading.field at hf
  split at hf
  · obtain ⟨name, hn, rfl⟩ := exists_of_map_eq_ok hf
    exact ⟨h.header, h.drafts.select (Header.voiceName_word hn)⟩
  · obtain ⟨tune, ht, rfl⟩ := exists_of_map_eq_ok hf
    exact ⟨Header.apply_sound h.header hv ht, h.drafts⟩

theorem Sound.music {r r' : Reading} {t : PlacedToken} {strokes : List Stroke} (h : r.Sound)
    (hg : Gesture strokes) (hm : r.music t strokes = .ok r') : r'.Sound := by
  unfold Reading.music at hm
  split at hm
  · cases hm
  · rename_i ds hw
    cases hm
    exact ⟨h.header, h.drafts.foldlM_write hg hw⟩

theorem Sound.step {failure : Option LexError} {r : Reading} {t : PlacedToken}
    {ts : Music.Tokens} {next : Reading × Music.Tokens} (h : r.Sound)
    (ht : ∀ u ∈ t :: ts, u.token.Scannable) (hs : r.step failure t ts = .ok next) :
    next.1.Sound ∧ next.2 <:+ ts := by
  have hscan := ht t List.mem_cons_self
  unfold Reading.step at hs
  split at hs
  case h_1 kind value hk =>
    rw [hk] at hscan
    obtain ⟨r', hf, rfl⟩ := exists_of_map_eq_ok hs
    exact ⟨h.field hscan hf, List.suffix_rfl⟩
  case h_2 =>
    cases hs
    exact ⟨h, List.suffix_rfl⟩
  case h_3 line hk =>
    obtain ⟨r', hm, rfl⟩ := exists_of_map_eq_ok hs
    exact ⟨h.music (.barline line) hm, List.suffix_rfl⟩
  case h_4 which hk =>
    obtain ⟨r', hm, rfl⟩ := exists_of_map_eq_ok hs
    exact ⟨h.music (.ending which) hm, List.suffix_rfl⟩
  case h_5 =>
    split at hs
    · cases hs
    · rename_i es rest he
      obtain ⟨r', hm, rfl⟩ := exists_of_map_eq_ok hs
      have hspec := Music.elements_spec hscan (fun u hu => ht u (List.mem_cons_of_mem _ hu)) he
      refine ⟨?_, hspec.2⟩
      rcases hspec.1 with hb | ⟨size, hz⟩
      · exact h.music (.beat es hb) hm
      · dsimp only at hz
        rw [hz] at hm
        exact h.music (.mark size) hm

theorem run_cons (failure : Option LexError) (r : Reading) (t : PlacedToken) (ts : Music.Tokens) :
    r.run failure (t :: ts) =
      match r.step failure t ts with
      | .error e => .error e
      | .ok next => next.1.run failure next.2 := by
  rw [run]
  split <;> rename_i h <;> simp only [h]

theorem Sound.run {failure : Option LexError} {r r' : Reading} {ts : Music.Tokens} (h : r.Sound)
    (ht : ∀ t ∈ ts, t.token.Scannable) (hr : r.run failure ts = .ok r') : r'.Sound := by
  -- a step may take several tokens, so the induction is on how many are left
  induction hn : ts.length using Nat.strong_induction_on generalizing r ts with
  | _ n ih =>
    cases ts with
    | nil =>
      rw [Reading.run] at hr
      rw [(Music.atEnd_eq_ok hr).2]
      exact h
    | cons t ts =>
      rw [run_cons] at hr
      cases hs : r.step failure t ts with
      | error e =>
        rw [hs] at hr
        cases hr
      | ok next =>
        rw [hs] at hr
        obtain ⟨hnext, hsuffix⟩ := h.step ht hs
        have hlt : next.2.length < n := by
          rw [← hn]
          exact Nat.lt_succ_of_le hsuffix.length_le
        refine ih _ hlt hnext ?_ hr rfl
        intro u hu
        exact ht u (List.mem_cons_of_mem _ (hsuffix.subset hu))

theorem Sound.finish {r : Reading} {t : Tune} (h : r.Sound) (hf : r.finish = .ok t) :
    t.WellFormed := by
  unfold Reading.finish at hf
  split at hf
  · cases hf
  · rename_i vs hv
    cases hf
    refine ⟨⟨h.header.subtitles, h.header.texts, ?_, h.header.meter, h.header.tempo, h.header.key⟩,
      ?_, ?_, ?_⟩
    · dsimp only
      split
      · exact h.header.defaultLength
      · exact Header.inferredLength_den _
    all_goals
      dsimp only
      rcases Drafts.finish_eq_ok hv with ⟨-, rfl⟩ | ⟨hne, rfl⟩
    · simp
    · simpa using hne
    · exact ⟨by simp, by simp, by simp [Voice.empty]⟩
    · have hn : r.drafts.drafts.map (Voice.name ∘ Draft.finished) = r.drafts.names :=
        List.map_congr_left fun d _ => Draft.finished_name d
      rw [List.map_map, hn]
      exact h.drafts.names
    · simp [Voice.empty, Voice.bars]
    · intro v hm
      obtain ⟨d, hd, rfl⟩ := List.mem_map.1 hm
      exact (h.drafts.drafts d hd).finished

end Reading

theorem exists_of_any {α : Type} {x : Except TuneError α} {check : α → Bool}
    (h : x.toOption.any check = true) : ∃ a, x = .ok a ∧ check a = true := by
  cases x with
  | error e => cases h
  | ok a => exact ⟨a, rfl, h⟩

namespace Tune

theorem ofTokens_sound {l : Lexed} {t : Tune} (hl : ∀ u ∈ l.tokens, u.token.Scannable)
    (h : ofTokens l = .ok t) : t.WellFormed := by
  unfold ofTokens at h
  split at h
  · cases h
  · rename_i r hr
    exact (Reading.sound_start.run hl hr).finish h

/-- Whatever text a tune was read from: its header, the names of its voices and every bar of them
are as they can be written down. -/
theorem read_wellFormed (text : String) (t : Tune) (h : read text = .ok t) : t.WellFormed :=
  ofTokens_sound (Lexed.ofText_scannable text) h

theorem read_wellFormed_reel :
    ∃ t, read "X:1\nT:Reel\nT:Slow\nK:G\nV:a\n|: (3A/B^c2 [C_E,2^G]z [1 d :|[2 e ||\nV:b\nc' |" =
        .ok t ∧ t.WellFormed := by
  obtain ⟨t, ht, -⟩ := exists_of_any (show (read
    "X:1\nT:Reel\nT:Slow\nK:G\nV:a\n|: (3A/B^c2 [C_E,2^G]z [1 d :|[2 e ||\nV:b\nc' |"
      ).toOption.any (fun _ => true) = true by decide +kernel)
  exact ⟨t, ht, read_wellFormed _ t ht⟩

end Tune

end Tunebook
