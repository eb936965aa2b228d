import Tunebook.Proofs.Tune.Lines

namespace Tunebook

open Element Lexed

namespace Token

theorem fieldValue_escape (text : String) (h : OneLine text) :
    fieldValue (Text.escape text.toList) = text := by
  rw [fieldValue, Text.unescape_escape, h.2, String.ofList_toList]

theorem fieldValue_plain (cs : List Char) (hp : '%' ∉ cs) (hb : ∀ c ∈ cs, Text.isBlank c = false) :
    fieldValue cs = String.ofList cs := by
  rw [fieldValue, Text.unescape_of_not_mem cs hp, Text.trim_of_forall_not_blank cs hb]

end Token

/-- The lines of a header: the kind of the field and what is written after the colon. -/
def Tune.headerLines (t : Tune) : List (FieldKind × List Char) :=
  [(.index, Text.decimal t.index.toNat)] ++
    (if t.title.isEmpty then [] else [(.title, Text.escape t.title.toList)]) ++
    t.subtitles.map (fun title => (.title, Text.escape title.toList)) ++
    t.composer.toList.map (fun composer => (.composer, Text.escape composer.toList)) ++
    [(.meter, Canonical.fraction t.meter), (.defaultLength, Canonical.fraction t.defaultLength),
      (.tempo, Text.decimal t.tempo.toNat), (.key, t.key.code.toList)]

theorem Canonical.header_eq (t : Tune) :
    header t = t.headerLines.flatMap fun line => field line.1 line.2 := by
  unfold header Tune.headerLines
  cases t.composer <;> cases t.title.isEmpty <;>
    simp [textField, List.flatMap_append, List.flatMap_map]
  all_goals rfl

def Tune.headerFields (t : Tune) : List (FieldKind × String) :=
  t.headerLines.map fun line => (line.1, Token.fieldValue line.2)

theorem spells_fields (lines : List (FieldKind × List Char)) (rest : List Char)
    (h : ∀ line ∈ lines, '\n' ∉ line.2) :
    Spells true (lines.flatMap fun line => Canonical.field line.1 line.2)
      (lines.map fun line => .field line.1 (Token.fieldValue line.2)) true rest := by
  induction lines with
  | nil => exact Spells.nil true rest
  | cons line lines ih =>
    have hf := spells_field line.1 line.2
      ((lines.flatMap fun line => Canonical.field line.1 line.2) ++ rest)
      (h line List.mem_cons_self)
    exact hf.append (ih fun l hl => h l (List.mem_cons_of_mem _ hl))

namespace Text

theorem newline_not_mem_of_not_blank {cs : List Char} (h : ∀ c ∈ cs, isBlank c = false) :
    '\n' ∉ cs := by
  intro hm
  exact absurd (h _ hm) (by decide)

theorem newline_not_mem_escape {cs : List Char} (h : '\n' ∉ cs) : '\n' ∉ escape cs := by
  intro hm
  rcases mem_escape cs _ hm with hm | hm
  · exact h hm
  · cases hm

end Text

theorem Canonical.fraction_not_blank (d : Duration) :
    ∀ c ∈ fraction d, Text.isBlank c = false := by
  refine List.forall_mem_append.2 ⟨Text.decimal_not_blank _, ?_⟩
  exact List.forall_mem_cons.2 ⟨by decide, Text.decimal_not_blank _⟩

theorem Canonical.percent_not_mem_fraction (d : Duration) : '%' ∉ fraction d := by
  unfold fraction
  simp only [List.mem_append, List.mem_cons, not_or]
  exact ⟨Text.not_mem_decimal _ _ rfl, by decide, Text.not_mem_decimal _ _ rfl⟩

theorem KeySignature.counts_plain :
    ∀ entry ∈ counts, '%' ∉ entry.1.toList ∧ ∀ c ∈ entry.1.toList, Text.isBlank c = false := by
  have h : (counts.all fun entry =>
      entry.1.toList.all fun c => c != '%' && !Text.isBlank c) = true := by
    decide +kernel
  intro entry he
  have hc := List.all_eq_true.1 (List.all_eq_true.1 h entry he)
  refine ⟨fun hm => absurd (hc _ hm) (by decide), fun c hm => ?_⟩
  have hb := hc c hm
  rw [Bool.and_eq_true, Bool.not_eq_true'] at hb
  exact hb.2

theorem KeySignature.code_plain {k : KeySignature} (h : ofCode? k.code = some k) :
    '%' ∉ k.code.toList ∧ ∀ c ∈ k.code.toList, Text.isBlank c = false := by
  obtain ⟨entry, he, hk⟩ := ofCode?_eq_some h
  rw [hk, ofCount_code]
  exact counts_plain entry he

theorem Tune.HeaderSound.newline_not_mem {t : Tune} (h : t.HeaderSound) :
    ∀ line ∈ t.headerLines, '\n' ∉ line.2 := by
  have htexts : ∀ text ∈ t.title :: t.subtitles ++ t.composer.toList,
      '\n' ∉ Text.escape text.toList :=
    fun text ht => Text.newline_not_mem_escape (h.texts text ht).1
  have hdigits (n : Nat) : '\n' ∉ Text.decimal n :=
    Text.newline_not_mem_of_not_blank (Text.decimal_not_blank n)
  have hfraction (d : Duration) : '\n' ∉ Canonical.fraction d :=
    Text.newline_not_mem_of_not_blank (Canonical.fraction_not_blank d)
  have hkey : '\n' ∉ t.key.code.toList :=
    Text.newline_not_mem_of_not_blank (KeySignature.code_plain h.key).2
  intro line hl
  simp only [headerLines, List.mem_append, List.mem_cons, List.mem_map, List.not_mem_nil,
    or_false] at hl
  rcases hl with (((rfl | hl) | ⟨title, hm, rfl⟩) | ⟨composer, hm, rfl⟩) | rfl | rfl | rfl | rfl
  · exact hdigits _
  · split at hl
    · cases hl
    · rw [List.mem_singleton.1 hl]
      exact htexts t.title (by simp)
  · exact htexts title (by simp [hm])
  · exact htexts composer (by simp [hm])
  · exact hfraction _
  · exact hfraction _
  · exact hdigits _
  · exact hkey

namespace Header

theorem number?_decimal (n : UInt32) : number? (Text.decimal n.toNat) = some n := by
  rw [number?, Text.numeral?_decimal, Option.bind_some, Word.fit32_toNat]

theorem trim_decimal (n : Nat) : Text.trim (Text.decimal n) = Text.decimal n :=
  Text.trim_of_forall_not_blank _ (Text.decimal_not_blank n)

theorem part?_decimal (default n : UInt32) :
    part? default (Text.decimal n.toNat) = some n := by
  unfold part?
  rw [trim_decimal]
  split
  · rename_i h
    exact absurd h (Text.decimal_ne_nil _)
  · exact number?_decimal n

theorem splitOnce_fraction (d : Duration) :
    Text.splitOnce '/' (Canonical.fraction d) =
      some (Text.decimal d.num.toNat, Text.decimal d.den.toNat) :=
  Text.splitOnce_append '/' _ _ (Text.not_mem_decimal _ _ rfl)

theorem fraction_canonical (kind : FieldKind) (d : Duration) (h : d.den ≠ 0) :
    fraction kind (Canonical.fraction d) = .ok d := by
  unfold fraction
  rw [splitOnce_fraction]
  dsimp only
  rw [part?_decimal, part?_decimal]
  dsimp only
  rw [if_neg h]

theorem meter_canonical (d : Duration) (hn : d.num ≠ 0) (hd : d.den ≠ 0) :
    meter (Canonical.fraction d) = .ok d := by
  have hslash : '/' ∈ Canonical.fraction d := by simp [Canonical.fraction]
  unfold meter
  rw [if_neg (fun h => by rw [h] at hslash; exact absurd hslash (by decide)),
    if_neg (fun h => by rw [h] at hslash; exact absurd hslash (by decide)), splitOnce_fraction]
  dsimp only
  rw [trim_decimal, trim_decimal, number?_decimal, number?_decimal]
  dsimp only
  rw [if_neg (by simp [hn, hd])]

theorem tempo_decimal (n : UInt32) (h : n ≠ 0) : tempo (Text.decimal n.toNat) = .ok n := by
  have hr : rate (Text.decimal n.toNat) = .ok n := by
    unfold rate
    rw [Text.splitOnce_eq_none _ _ (Text.not_mem_decimal _ _ rfl), number?_decimal]
  unfold tempo
  rw [hr]
  dsimp only
  rw [if_neg h]

theorem index_decimal (n : UInt32) : index (Text.decimal n.toNat) = .ok n := by
  unfold index
  rw [number?_decimal]

theorem key_code {k : KeySignature} (h : KeySignature.ofCode? k.code = some k) :
    key k.code.toList = .ok k := by
  unfold key
  rw [String.ofList_toList, h]

theorem voiceName_word_eq {name : String} (hne : name.toList ≠ [])
    (hb : ∀ c ∈ name.toList, Text.isBlank c = false) : voiceName name.toList = .ok name := by
  unfold voiceName
  rw [Text.firstWord_of_forall_not_blank _ hb]
  split
  · rename_i h
    exact absurd h hne
  · rw [String.ofList_toList]

end Header

theorem Tune.HeaderSound.headerFields_eq {t : Tune} (h : t.HeaderSound) :
    t.headerFields =
      [(.index, String.ofList (Text.decimal t.index.toNat))] ++
        (if t.title.isEmpty then [] else [(.title, t.title)]) ++
        t.subtitles.map (fun title => (.title, title)) ++
        t.composer.toList.map (fun composer => (.composer, composer)) ++
        [(.meter, String.ofList (Canonical.fraction t.meter)),
          (.defaultLength, String.ofList (Canonical.fraction t.defaultLength)),
          (.tempo, String.ofList (Text.decimal t.tempo.toNat)), (.key, t.key.code)] := by
  have hdigits (n : Nat) : Token.fieldValue (Text.decimal n) = String.ofList (Text.decimal n) :=
    Token.fieldValue_plain _ (Text.not_mem_decimal _ _ rfl) (Text.decimal_not_blank n)
  have hfraction (d : Duration) :
      Token.fieldValue (Canonical.fraction d) = String.ofList (Canonical.fraction d) :=
    Token.fieldValue_plain _ (Canonical.percent_not_mem_fraction d) (Canonical.fraction_not_blank d)
  have hkey : Token.fieldValue t.key.code.toList = t.key.code := by
    obtain ⟨hp, hb⟩ := KeySignature.code_plain h.key
    rw [Token.fieldValue_plain _ hp hb, String.ofList_toList]
  have htitle := Token.fieldValue_escape t.title (h.texts t.title (by simp))
  have hsubtitles : t.subtitles.map (fun title =>
      (FieldKind.title, Token.fieldValue (Text.escape title.toList))) =
      t.subtitles.map fun title => (.title, title) :=
    List.map_congr_left fun title ht => by
      rw [Token.fieldValue_escape title (h.texts title (by simp [ht]))]
  have hcomposer : t.composer.toList.map (fun composer =>
      (FieldKind.composer, Token.fieldValue (Text.escape composer.toList))) =
      t.composer.toList.map fun composer => (.composer, composer) :=
    List.map_congr_left fun composer hc => by
      rw [Token.fieldValue_escape composer (h.texts composer (by simp [hc]))]
  unfold headerFields headerLines
  simp only [List.map_append, List.map_cons, List.map_nil, List.map_map, Function.comp_def, hdigits,
    hfraction, hkey, hsubtitles, hcomposer]
  cases t.title.isEmpty <;> simp [htitle]

namespace Reading

def Takes (r : Reading) (fs : List (FieldKind × String)) (r' : Reading) : Prop :=
  fs.foldlM (fun r f => r.field f.1 f.2) r = .ok r'

theorem Takes.append {r r' r'' : Reading} {fs gs : List (FieldKind × String)}
    (h : r.Takes fs r') (h' : r'.Takes gs r'') : r.Takes (fs ++ gs) r'' := by
  unfold Takes at *
  rw [List.foldlM_append, h]
  exact h'

theorem takes_nil (r : Reading) : r.Takes [] r :=
  rfl

theorem takes_field {r r' : Reading} {kind : FieldKind} {value : String}
    (h : r.field kind value = .ok r') : r.Takes [(kind, value)] r' := by
  change (r.field kind value >>= pure) = _
  rw [h]
  rfl

theorem Takes.run {r r' : Reading} {fs : List (FieldKind × String)} (h : r.Takes fs r')
    (us rest : Music.Tokens) (hk : us.map PlacedToken.token = fs.map fun f => .field f.1 f.2) :
    r.run none (us ++ rest) = r'.run none rest := by
  induction fs generalizing r us with
  | nil =>
    obtain rfl : us = [] := by simpa using hk
    cases h
    rfl
  | cons f fs ih =>
    obtain ⟨u, us, rfl, hu, hus⟩ := List.map_eq_cons_iff.1 hk
    change (r.field f.1 f.2 >>= fun r => fs.foldlM (fun r f => r.field f.1 f.2) r) = _ at h
    cases hf : r.field f.1 f.2 with
    | error e =>
      rw [hf] at h
      cases h
    | ok r1 =>
      rw [hf] at h
      have hs : r.step none u (us ++ rest) = .ok (r1, us ++ rest) := by
        rw [step, hu]
        dsimp only
        rw [hf]
        rfl
      rw [List.cons_append, run_cons, hs]
      exact ih h us hus

theorem takes_subtitles (r : Reading) (titles : List String) (h : r.tune.title.isEmpty = false) :
    r.Takes (titles.map fun title => (.title, title))
      { r with tune := { r.tune with subtitles := r.tune.subtitles ++ titles } } := by
  induction titles generalizing r with
  | nil =>
    rw [List.append_nil]
    exact takes_nil r
  | cons title titles ih =>
    have hf : r.field .title title =
        .ok { r with tune := { r.tune with subtitles := r.tune.subtitles ++ [title] } } := by
      simp [field, Header.apply, Header.addTitle, h, Except.map]
    have hrest := ih { r with tune := { r.tune with subtitles := r.tune.subtitles ++ [title] } } h
    rw [List.append_assoc] at hrest
    exact (takes_field hf).append hrest

theorem takes_titles (r : Reading) (title : String) (subtitles : List String)
    (hr : r.tune.title = "" ∧ r.tune.subtitles = []) (h : title = "" → subtitles = []) :
    r.Takes ((if title.isEmpty then [] else [(.title, title)]) ++
        subtitles.map (fun title => (.title, title)))
      { r with tune := { r.tune with title, subtitles } } := by
  by_cases he : title = ""
  · subst he
    have hsame : ({ r.tune with title := "", subtitles := [] } : Tune) = r.tune := by
      rw [← hr.1, ← hr.2]
    rw [h rfl, hsame]
    exact takes_nil r
  · have hf : r.field .title title = .ok { r with tune := { r.tune with title } } := by
      simp [field, Header.apply, Header.addTitle, hr, Except.map]
    have hrest := takes_subtitles { r with tune := { r.tune with title } } subtitles
      (by simpa using he)
    rw [show ({ r.tune with title } : Tune).subtitles = [] from hr.2, List.nil_append] at hrest
    rw [if_neg (by simpa using he)]
    exact (takes_field hf).append hrest

theorem takes_composer (r : Reading) (composer : Option String) (hr : r.tune.composer = none) :
    r.Takes (composer.toList.map fun composer => (.composer, composer))
      { r with tune := { r.tune with composer } } := by
  cases composer with
  | none =>
    have hsame : ({ r.tune with composer := none } : Tune) = r.tune := by rw [← hr]
    rw [hsame]
    exact takes_nil r
  | some composer =>
    apply takes_field
    simp [field, Header.apply, Except.map]

theorem takes_header {t : Tune} (h : t.HeaderSound) :
    start.Takes t.headerFields ⟨{ t with voices := [] }, .empty, true, false⟩ := by
  rw [h.headerFields_eq]
  let r1 : Reading := { start with tune := { Tune.blank with index := t.index } }
  have h1 : start.Takes [(.index, String.ofList (Text.decimal t.index.toNat))] r1 := by
    apply takes_field
    simp [field, Header.apply, Header.index_decimal, Except.map, start, r1]
  let r2 : Reading :=
    { r1 with tune := { r1.tune with title := t.title, subtitles := t.subtitles } }
  have h2 : r1.Takes ((if t.title.isEmpty then [] else [(.title, t.title)]) ++
      t.subtitles.map (fun title => (.title, title))) r2 :=
    takes_titles r1 t.title t.subtitles ⟨rfl, rfl⟩ h.subtitles
  let r3 : Reading := { r2 with tune := { r2.tune with composer := t.composer } }
  have h3 : r2.Takes (t.composer.toList.map fun composer => (.composer, composer)) r3 :=
    takes_composer r2 t.composer rfl
  let r4 : Reading := { r3 with tune := { r3.tune with meter := t.meter } }
  have h4 : r3.Takes [(.meter, String.ofList (Canonical.fraction t.meter))] r4 := by
    apply takes_field
    simp [field, Header.apply, Header.meter_canonical t.meter h.meter.1 h.meter.2, Except.map, r4,
      r3, r2, r1, start]
  let r5 : Reading :=
    { r4 with tune := { r4.tune with defaultLength := t.defaultLength }, lengthGiven := true }
  have h5 : r4.Takes [(.defaultLength, String.ofList (Canonical.fraction t.defaultLength))] r5 := by
    apply takes_field
    simp [field, Header.apply, Header.fraction_canonical _ t.defaultLength h.defaultLength,
      Except.map, r5]
  let r6 : Reading := { r5 with tune := { r5.tune with tempo := t.tempo } }
  have h6 : r5.Takes [(.tempo, String.ofList (Text.decimal t.tempo.toNat))] r6 := by
    apply takes_field
    simp [field, Header.apply, Header.tempo_decimal t.tempo h.tempo, Except.map, r6, r5]
  have h7 : r6.Takes [(.key, t.key.code)] { r6 with tune := { r6.tune with key := t.key } } := by
    apply takes_field
    simp [field, Header.apply, Header.key_code h.key, Except.map, r6, r5]
  have hall := ((h1.append h2).append h3).append (((h4.append h5).append h6).append h7)
  simp only [List.append_assoc, List.cons_append, List.nil_append] at hall ⊢
  exact hall

/-- The reading stands after the voices `vs`, and each of them will be settled. -/
structure AfterVoices (r : Reading) (tune : Tune) (vs : List Voice) : Prop where
  tune : r.tune = tune
  lengthGiven : r.lengthGiven = true
  inBody : r.inBody = !vs.isEmpty
  finish : r.drafts.drafts.mapM Draft.finish = .ok (vs.map Voice.settled)
  current : r.drafts.current = if vs.isEmpty then none else some (vs.length - 1)

theorem afterVoices_nil (tune : Tune) : AfterVoices ⟨tune, .empty, true, false⟩ tune [] :=
  ⟨rfl, rfl, rfl, rfl, rfl⟩

theorem AfterVoices.names {r : Reading} {tune : Tune} {vs : List Voice}
    (h : r.AfterVoices tune vs) : r.drafts.names = vs.map Voice.name := by
  have hn : r.drafts.names = (r.drafts.drafts.map Draft.finished).map Voice.name := by
    rw [List.map_map]
    exact List.map_congr_left fun d _ => (Draft.finished_name d).symm
  rw [hn, ← Drafts.mapM_finish_eq_ok h.finish, List.map_map]
  rfl

theorem AfterVoices.length {r : Reading} {tune : Tune} {vs : List Voice}
    (h : r.AfterVoices tune vs) : r.drafts.drafts.length = vs.length := by
  have hl := congrArg List.length h.names
  simpa [Drafts.names] using hl

/-- A new name makes a new voice, which becomes the current one. -/
theorem AfterVoices.select {r : Reading} {tune : Tune} {vs : List Voice}
    (h : r.AfterVoices tune vs) (name : String) (hnew : some name ∉ vs.map Voice.name) :
    r.drafts.select name r.inBody =
      ⟨r.drafts.drafts ++ [Draft.empty (some name)], some r.drafts.drafts.length⟩ := by
  have hall : ∀ d ∈ r.drafts.drafts, (d.voice.name == some name) = false := by
    intro d hd
    rw [beq_eq_false_iff_ne]
    intro he
    rw [← h.names, ← he] at hnew
    exact hnew (List.mem_map_of_mem hd)
  have hfind : r.drafts.drafts.findIdx (fun d => d.voice.name == some name) =
      r.drafts.drafts.length :=
    List.findIdx_eq_length.2 hall
  have hswitch : (r.inBody || r.drafts.current.isNone) = true := by
    rw [h.inBody, h.current]
    cases vs <;> rfl
  unfold Drafts.select
  rw [hfind, hswitch]
  simp

end Reading

def Voice.tokens (v : Voice) : List Token :=
  v.name.toList.map (fun name => .field .voice name) ++ v.figures.flatMap Figure.tokens

/-- The voice can be written after the voices `vs`. -/
structure Voice.Follows (v : Voice) (vs : List Voice) : Prop where
  unnamed : v.name = none → vs = []
  fresh : v.name ∉ vs.map Voice.name
  word : ∀ name, v.name = some name →
    name.toList ≠ [] ∧ ∀ c ∈ name.toList, Text.isBlank c = false
  bars : ∀ b ∈ v.bars, Bar.Sound b

namespace Reading

theorem AfterVoices.name {r : Reading} {tune : Tune} {vs : List Voice} {v : Voice}
    (h : r.AfterVoices tune vs) (hv : v.Follows vs) :
    ∃ r', r.Takes (v.name.toList.map fun name => (.voice, name)) r' ∧
      r'.tune = r.tune ∧ r'.lengthGiven = r.lengthGiven ∧
      r'.drafts.ensureCurrent =
        ⟨r.drafts.drafts ++ [Draft.empty v.name], some r.drafts.drafts.length⟩ := by
  cases hn : v.name with
  | none =>
    obtain rfl := hv.unnamed hn
    refine ⟨r, takes_nil r, rfl, rfl, ?_⟩
    unfold Drafts.ensureCurrent
    rw [h.current]
    rfl
  | some name =>
    obtain ⟨hne, hb⟩ := hv.word name hn
    have hfresh := hv.fresh
    rw [hn] at hfresh
    have hsel := h.select name hfresh
    refine ⟨{ r with drafts := r.drafts.select name r.inBody }, ?_, rfl, rfl, ?_⟩
    · apply takes_field
      simp [field, Header.voiceName_word_eq hne hb, Except.map]
    · rw [hsel]
      rfl

theorem AfterVoices.step {r : Reading} {tune : Tune} {vs : List Voice} {v : Voice}
    (h : r.AfterVoices tune vs) (hv : v.Follows vs) (us rest : Music.Tokens)
    (hk : us.map PlacedToken.token = v.tokens) (hr : Music.Clear rest) :
    ∃ r' : Reading, r.run none (us ++ rest) = r'.run none rest ∧
      r'.AfterVoices tune (vs ++ [v]) := by
  obtain ⟨ns, ws, rfl, hns, hws⟩ := List.map_eq_append_iff.1 hk
  obtain ⟨r1, ht, htune, hlength, hens⟩ := h.name hv
  obtain ⟨d, hd, hfin⟩ := Draft.becomes_voice hv.bars
  have hrun := ht.run ns (ws ++ rest) (by rw [hns, List.map_map]; rfl)
  have hcurrent : r1.drafts.ensureCurrent.current = some r.drafts.drafts.length := by rw [hens]
  have hdraft : r1.drafts.ensureCurrent.drafts[r.drafts.drafts.length]? =
      some (Draft.empty v.name) := by
    rw [hens]
    exact List.getElem?_concat_length
  have hline := run_figures v.figures r1 ws rest _ _ d v.figures_ne_nil
    (Voice.figures_sound hv.bars) hws hr hcurrent hdraft hd
  have hset : (r.drafts.drafts ++ [Draft.empty v.name]).set r.drafts.drafts.length d =
      r.drafts.drafts ++ [d] := by
    simp
  refine ⟨r1.written r1.drafts.ensureCurrent r.drafts.drafts.length d, ?_, htune.trans h.tune,
    hlength.trans h.lengthGiven, ?_, ?_, ?_⟩
  · rw [List.append_assoc, hrun, hline]
  · simp [written]
  · simp only [written, hens, hset]
    rw [List.mapM_append, h.finish]
    simp [hfin, bind, Except.bind, pure, Except.pure]
  · simp [written, hens, h.length]

theorem clear_voices (vs : List Voice) (us : Music.Tokens)
    (hk : us.map PlacedToken.token = vs.flatMap Voice.tokens) : Music.Clear us := by
  cases vs with
  | nil =>
    obtain rfl : us = [] := by simpa using hk
    exact Music.clear_nil
  | cons v vs =>
    rw [List.flatMap_cons] at hk
    cases hn : v.name with
    | none =>
      obtain ⟨ws, rest, rfl, hws, -⟩ := List.map_eq_append_iff.1 hk
      rw [Voice.tokens, hn] at hws
      obtain ⟨f, fs, hf⟩ := List.exists_cons_of_ne_nil v.figures_ne_nil
      obtain ⟨k, ks, htok, hc, -⟩ := f.tokens_head
      rw [Option.toList_none, List.map_nil, List.nil_append, hf, List.flatMap_cons, htok] at hws
      obtain ⟨u, ws, rfl, rfl, -⟩ := List.map_eq_cons_iff.1 hws
      exact (Music.clear_cons u _).2 hc
    | some name =>
      rw [Voice.tokens, hn] at hk
      obtain ⟨u, us, rfl, hu, -⟩ := List.map_eq_cons_iff.1 hk
      refine (Music.clear_cons u us).2 ?_
      rw [hu]
      rfl

theorem AfterVoices.run {r : Reading} {tune : Tune} {vs ws : List Voice}
    (h : r.AfterVoices tune vs) (hn : NamesSound ((vs ++ ws).map Voice.name))
    (hb : ∀ v ∈ ws, ∀ b ∈ v.bars, Bar.Sound b) (us : Music.Tokens)
    (hk : us.map PlacedToken.token = ws.flatMap Voice.tokens) :
    ∃ r' : Reading, r.run none us = .ok r' ∧ r'.AfterVoices tune (vs ++ ws) := by
  induction ws generalizing r vs us with
  | nil =>
    obtain rfl : us = [] := by simpa using hk
    rw [List.append_nil]
    exact ⟨r, by rw [Reading.run]; rfl, h⟩
  | cons v ws ih =>
    have hv : v.Follows vs := by
      have hnames : (vs ++ v :: ws).map Voice.name =
          vs.map Voice.name ++ v.name :: ws.map Voice.name := by simp
      rw [hnames] at hn
      refine ⟨?_, ?_, ?_, hb v List.mem_cons_self⟩
      · intro h0
        cases vs with
        | nil => rfl
        | cons w vs => exact absurd h0 (hn.named v.name (by simp))
      · intro hm
        exact (List.nodup_append.1 hn.nodup).2.2 _ hm v.name List.mem_cons_self rfl
      · intro name hname
        exact hn.words name (by simp [hname])
    rw [List.flatMap_cons] at hk
    obtain ⟨us, rest, rfl, hus, hrest⟩ := List.map_eq_append_iff.1 hk
    obtain ⟨r1, hrun, h1⟩ := h.step hv us rest hus (clear_voices ws rest hrest)
    obtain ⟨r2, hrun2, h2⟩ := ih h1 (by simpa using hn)
      (fun w hw => hb w (List.mem_cons_of_mem _ hw)) rest hrest
    refine ⟨r2, hrun.trans hrun2, ?_⟩
    rwa [List.append_assoc, List.singleton_append] at h2

end Reading

/-- A tune as it comes back from its canonical text. -/
def Tune.settled (t : Tune) : Tune :=
  { t with voices := t.voices.map Voice.settled }

def Tune.tokens (t : Tune) : List Token :=
  (t.headerFields.map fun f => .field f.1 f.2) ++ t.voices.flatMap Voice.tokens

theorem Tune.WellFormed.ofTokens {t : Tune} (h : t.WellFormed) (l : Lexed)
    (hk : l.kinds = t.tokens) (hf : l.failure = none) : Tune.ofTokens l = .ok t.settled := by
  obtain ⟨hs, vs, hl, hhs, hvs⟩ := List.map_eq_append_iff.1 hk
  have hheader := (Reading.takes_header h.header).run hs vs hhs
  have hnames : NamesSound (([] ++ t.voices).map Voice.name) := h.names
  obtain ⟨r, hrun, hr⟩ :=
    (Reading.afterVoices_nil { t with voices := [] }).run hnames h.bars vs hvs
  have hne : r.drafts.drafts ≠ [] := by
    intro h0
    have hlen := hr.length
    rw [h0] at hlen
    exact h.voices (List.length_eq_zero_iff.1 (by simpa using hlen.symm))
  unfold Tune.ofTokens
  rw [hl, hf, hheader, hrun]
  dsimp only
  unfold Reading.finish Drafts.finish
  rw [if_neg (by simpa using hne), hr.finish]
  dsimp only
  rw [hr.lengthGiven, hr.tune]
  rfl

/-- A reading that ends at a lexical fault gives nothing. -/
theorem Reading.run_fault (e : LexError) (r r' : Reading) (ts : Music.Tokens) :
    r.run (some e) ts ≠ .ok r' := by
  -- a step may take several tokens, so the induction is on how many are left
  induction hn : ts.length using Nat.strong_induction_on generalizing r ts with
  | _ n ih =>
    cases ts with
    | nil =>
      rw [run]
      intro h
      cases h
    | cons t ts =>
      rw [run_cons]
      cases hs : r.step (some e) t ts with
      | error e' =>
        intro h
        cases h
      | ok next =>
        have hlt : next.2.length < n := by
          rw [← hn]
          exact Nat.lt_succ_of_le (step_length hs)
        exact ih _ hlt next.1 next.2 rfl

theorem Tune.ofTokens_fault (l : Lexed) (t : Tune) (hf : l.failure ≠ none) :
    Tune.ofTokens l ≠ .ok t := by
  obtain ⟨e, he⟩ := Option.ne_none_iff_exists'.1 hf
  intro h
  unfold Tune.ofTokens at h
  rw [he] at h
  cases hr : Reading.start.run (some e) l.tokens with
  | error e' =>
    rw [hr] at h
    cases h
  | ok r => exact Reading.run_fault e _ r _ hr

theorem spells_voice (v : Voice) (rest : List Char) (hb : ∀ b ∈ v.bars, Bar.Sound b)
    (hw : ∀ name, v.name = some name → ∀ c ∈ name.toList, Text.isBlank c = false) :
    Spells true (Canonical.voice v) v.tokens true rest := by
  have hline : Spells true (Canonical.line (Canonical.music v)) (v.figures.flatMap Figure.tokens)
      true rest := by
    have h := spells_line (v.figures.map Figure.tokens) rest (by simp [v.figures_ne_nil]) (by
      intro w hm
      obtain ⟨f, hf, rfl⟩ := List.mem_map.1 hm
      exact ⟨f.tokens_ne_nil, f.tight_tokens (Voice.figures_sound hb f hf)⟩)
    rw [List.map_map, ← List.flatMap_def] at h
    rwa [Canonical.music_eq hb]
  unfold Canonical.voice Voice.tokens
  cases hn : v.name with
  | none => exact hline
  | some name =>
    have hblank := hw name hn
    have hnl := Text.newline_not_mem_of_not_blank hblank
    have hf := spells_field .voice (Text.escape name.toList)
      (Canonical.line (Canonical.music v) ++ rest) (Text.newline_not_mem_escape hnl)
    rw [Token.fieldValue_escape name ⟨hnl, Text.trim_of_forall_not_blank _ hblank⟩] at hf
    exact hf.append hline

theorem spells_voices (vs : List Voice) (rest : List Char)
    (hb : ∀ v ∈ vs, ∀ b ∈ v.bars, Bar.Sound b)
    (hw : ∀ v ∈ vs, ∀ name, v.name = some name → ∀ c ∈ name.toList, Text.isBlank c = false) :
    Spells true (vs.flatMap Canonical.voice) (vs.flatMap Voice.tokens) true rest := by
  induction vs with
  | nil => exact Spells.nil true rest
  | cons v vs ih =>
    have hv := spells_voice v (vs.flatMap Canonical.voice ++ rest) (hb v List.mem_cons_self)
      (hw v List.mem_cons_self)
    exact hv.append (ih (fun w hm => hb w (List.mem_cons_of_mem _ hm))
      fun w hm => hw w (List.mem_cons_of_mem _ hm))

theorem Tune.WellFormed.spells {t : Tune} (h : t.WellFormed) :
    Spells true (Canonical.tune t) t.tokens true [] := by
  have hvoices := spells_voices t.voices [] h.bars fun v hv name hn =>
    (h.names.words name (List.mem_map.2 ⟨v, hv, hn⟩)).2
  have hheader := spells_fields t.headerLines (t.voices.flatMap Canonical.voice ++ [])
    h.header.newline_not_mem
  have hfields : (t.headerFields.map fun f => Token.field f.1 f.2) =
      t.headerLines.map fun line => .field line.1 (Token.fieldValue line.2) := by
    rw [headerFields, List.map_map]
    rfl
  rw [Canonical.tune, Canonical.header_eq, tokens, hfields]
  exact hheader.append hvoices

/-- Every token of a well-formed tune can be read unless a note lies in the lowest octave, for which
the marks do not suffice. -/
theorem Tune.WellFormed.scannable_tokens_iff {t : Tune} (h : t.WellFormed) :
    (∀ k ∈ t.tokens, k.Scannable) ↔
      ∀ v ∈ t.voices, ∀ f ∈ v.figures, ∀ n ∈ f.notes, n.pitch.octave ≠ -128 := by
  have hfigures (v : Voice) (hv : v ∈ t.voices) (f : Figure) (hf : f ∈ v.figures) :=
    f.scannable_tokens_iff (Voice.figures_sound (h.bars v hv) f hf)
  constructor
  · intro hk v hv f hf
    refine (hfigures v hv f hf).1 fun k hmem => hk k ?_
    refine List.mem_append_right _ (List.mem_flatMap.2 ⟨v, hv, List.mem_append_right _ ?_⟩)
    exact List.mem_flatMap.2 ⟨f, hf, hmem⟩
  · intro hn k hk
    rcases List.mem_append.1 hk with hk | hk
    · obtain ⟨field, hf, rfl⟩ := List.mem_map.1 hk
      obtain ⟨line, hl, rfl⟩ := List.mem_map.1 hf
      exact Token.fieldValue_scannable line.1 line.2 (h.header.newline_not_mem line hl)
    · obtain ⟨v, hv, hk⟩ := List.mem_flatMap.1 hk
      rcases List.mem_append.1 hk with hk | hk
      · obtain ⟨name, hname, rfl⟩ := List.mem_map.1 hk
        have hword := h.names.words name (List.mem_map.2 ⟨v, hv, Option.mem_toList.1 hname⟩)
        exact ⟨Text.newline_not_mem_of_not_blank hword.2,
          Text.trim_of_forall_not_blank _ hword.2⟩
      · obtain ⟨f, hf, hmem⟩ := List.mem_flatMap.1 hk
        exact (hfigures v hv f hf).2 (hn v hv f hf) k hmem

/-- The canonical text is read as the tune settled, if it is read at all. -/
theorem Tune.WellFormed.read_canonical_iff {t : Tune} (h : t.WellFormed) (t' : Tune) :
    Tune.read t.canonical = .ok t' ↔
      t' = t.settled ∧
        ∀ v ∈ t.voices, ∀ f ∈ v.figures, ∀ n ∈ f.notes, n.pitch.octave ≠ -128 := by
  obtain ⟨hyields, hfails⟩ := h.spells.whole_text
  rw [← h.scannable_tokens_iff]
  by_cases hk : ∀ k ∈ t.tokens, k.Scannable
  · obtain ⟨hkinds, hfailure⟩ := hyields hk
    have hread : Tune.read t.canonical = .ok t.settled := h.ofTokens _ hkinds hfailure
    rw [hread, Except.ok.injEq, eq_comm]
    exact ⟨fun he => ⟨he, hk⟩, fun he => he.1⟩
  · have hfailure := hfails (by push Not at hk; exact hk)
    have hne := Tune.ofTokens_fault (Lexed.ofText t.canonical) t' hfailure
    exact ⟨fun he => absurd he hne, fun he => absurd he.2 hk⟩

end Tunebook
