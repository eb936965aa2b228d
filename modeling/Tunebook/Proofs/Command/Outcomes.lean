import Tunebook.Proofs.Command.Ranges

namespace Tunebook.Command

def HasSettings (lib : Libraries) (fs : FileSystem) (files : fs.Files) (env : Environment)
    (a : Arguments) (s : Settings) : Prop :=
  let paths := Settings.sources lib fs files env a.config
  ∃ tables loaded, List.Forall₂ (Settings.Holds lib fs files) paths tables ∧
    Settings.ofTables lib env (paths.zip tables) = .ok loaded ∧ loaded.settings = s

/-- The calls that start to log at a level come back. -/
structure LogReturns (lib : Libraries) (env : Environment) (level : String) : Prop where
  review : (lib.reviewLog env).2 = true
  directive : lib.directive? level ≠ none

/-- What comes of starting to log at a level. -/
def started? (lib : Libraries) (env : Environment) (level : String) :
    Option (Except RunError Unit) :=
  if (lib.reviewLog env).2 then
    (lib.directive? level).map fun result => result.mapError (.logLevel level)
  else none

/-- A run that comes to the point of reading its tune. -/
structure Prepared (lib : Libraries) (fs : FileSystem) (files : fs.Files) (env : Environment)
    (a : Arguments) (s : Settings) : Prop where
  settings : HasSettings lib fs files env a s
  review : (lib.reviewLog env).2 = true
  directive : lib.directive? (logLevel a s) = some (.ok ())

structure Compiled (lib : Libraries) (fs : FileSystem) (files : fs.Files) (env : Environment)
    (a : Arguments) (s : Settings) (c : Compilation) : Prop extends
    Prepared lib fs files env a s where
  compiled : ∃ text, fs.text files a.file = .ok text ∧ Compilation.ofText text = .ok c

def rendered (a : Arguments) (s : Settings) (c : Compilation) : ByteArray :=
  ⟨(c.midi (midiParams a s)).toArray⟩

inductive Fails (lib : Libraries) (fs : FileSystem) (files : fs.Files) (env : Environment)
    (a : Arguments) : Prop where
  | settings (h : ¬∃ s, HasSettings lib fs files env a s)
  | logLevel {s : Settings} {causes : List String} (hs : HasSettings lib fs files env a s)
    (hreview : (lib.reviewLog env).2 = true)
    (h : lib.directive? (logLevel a s) = some (.error causes))
  | reading {s : Settings} {cause : FileError} (hp : Prepared lib fs files env a s)
    (h : fs.text files a.file = .error cause)
  | compiling {s : Settings} {text : String} {e : TuneError} (hp : Prepared lib fs files env a s)
    (ht : fs.text files a.file = .ok text) (h : Compilation.ofText text = .error e)
    (he : ∀ position, e ≠ .octaveTooHigh position)
  | writing {s : Settings} {c : Compilation} {cause : FileError}
    (hc : Compiled lib fs files env a s c) (hcheck : a.check = false)
    (h : fs.write files (outputPath a s) (rendered a s c) = .error cause)

/-- What cuts a run short: a call that does not come back, or a note too high for any pitch. -/
inductive Aborts (lib : Libraries) (fs : FileSystem) (files : fs.Files) (env : Environment)
    (a : Arguments) : Prop where
  | log {s : Settings} (hs : HasSettings lib fs files env a s)
    (h : ¬LogReturns lib env (logLevel a s))
  | compiling {s : Settings} {text : String} {position : Position}
    (hp : Prepared lib fs files env a s) (ht : fs.text files a.file = .ok text)
    (h : Compilation.ofText text = .error (.octaveTooHigh position))

section

variable {lib : Libraries} {fs : FileSystem} {before after : fs.Files} {env : Environment}
  {a : Arguments} {s : Settings} {c : Compilation}

theorem feedback_of_compiled (hc : Compiled lib fs before env a s c) :
    c.feedback = c.tune.feedback := by
  obtain ⟨text, -, hcompiled⟩ := hc.compiled
  unfold Compilation.ofText Compilation.ofTune at hcompiled
  split at hcompiled
  · cases hcompiled
  · split at hcompiled
    · cases hcompiled
    · split at hcompiled
      · cases hcompiled
      · obtain rfl := Except.ok.inj hcompiled
        rfl

section

variable {σ : Type} {host : Host (StateM σ)} {files : σ → fs.Files} (hhost : host.WorksOn fs files)

include hhost

theorem runs_finish_check (h : a.check = true) :
    Runs files before (finish host a s c)
      (.ok (if c.feedback.isEmpty then .success else .rejected)) before := by
  unfold finish
  refine Runs.bind (hhost.print _ _) ?_
  rw [if_pos h]
  exact Runs.pure _

theorem runs_finish_write {written : Except FileError fs.Files} (h : a.check = false)
    (hwrite : fs.write before (outputPath a s) (rendered a s c) = written) :
    Runs files before (finish host a s c)
      ((written.map fun _ => Exit.success).mapError (RunError.unwritable (outputPath a s)))
      (written.toOption.getD before) := by
  have hnot : ¬a.check = true := by simp [h]
  -- The events are printed if they are asked for, and what follows is the same.
  have hevents {f : Unit → StateM σ (Except RunError Exit)} {result : Except RunError Exit}
      {text : String} {last : fs.Files} (hf : Runs files before (f ()) result last) :
      Runs files before (if a.events = true then host.print text >>= f else f ()) result last := by
    split
    · exact Runs.bind (hhost.print _ text) hf
    · exact hf
  have hwritten := hhost.write before (outputPath a s) (rendered a s c)
  rw [hwrite] at hwritten
  unfold finish
  refine Runs.bind (hhost.print _ _) ?_
  rw [if_neg hnot]
  refine Runs.bind (hhost.print _ _) (hevents (Runs.bind hwritten ?_))
  cases written with
  | error cause => exact Runs.pure _
  | ok _ => exact Runs.bind (hhost.print _ _) (Runs.pure _)

theorem runs_startLog (level : String) :
    Runs files before (startLog lib host env level) (started? lib env level) before := by
  refine Runs.bind (hhost.complain _ _) ?_
  unfold started?
  split <;> exact Runs.pure _

theorem settings_eq {state : σ} (hs : HasSettings lib fs (files state) env a s)
    {loaded : Settings.Loaded}
    (h : ((Settings.load lib host env a.config).run state).1 = .ok loaded) :
    s = loaded.settings := by
  obtain ⟨tables, loaded', ht, hof, rfl⟩ := hs
  have hruns := (Settings.runs_load hhost ht state rfl).1
  rw [hof, h] at hruns
  rw [Except.ok.inj hruns]

theorem runs_perform_settings (h : ¬∃ s, HasSettings lib fs before env a s) :
    ∃ e, Runs files before (perform lib host env a) (.error e) before := by
  have hload : ∃ e, Runs files before (Settings.load lib host env a.config) (.error e) before := by
    by_cases ht : ∃ tables, List.Forall₂ (Settings.Holds lib fs before)
        (Settings.sources lib fs before env a.config) tables
    · obtain ⟨tables, ht⟩ := ht
      have hruns := @Settings.runs_load _ _ _ _ hhost lib before env a.config tables ht
      cases hof : Settings.ofTables lib env
          ((Settings.sources lib fs before env a.config).zip tables) with
      | ok loaded => exact absurd ⟨_, tables, loaded, ht, hof, rfl⟩ h
      | error e =>
        rw [hof] at hruns
        exact ⟨e, hruns⟩
    · exact Settings.runs_load_error hhost ht
  obtain ⟨e, he⟩ := hload
  exact ⟨.settings e, Runs.bind he (Runs.pure _)⟩

theorem runs_perform_of_settings (hs : HasSettings lib fs before env a s)
    {result : Except RunError Exit}
    (h : Runs files before (proceed host a s (started? lib env (logLevel a s))) result after) :
    Runs files before (perform lib host env a) result after := by
  obtain ⟨tables, loaded, ht, hof, rfl⟩ := hs
  have hruns := @Settings.runs_load _ _ _ _ hhost lib before env a.config tables ht
  rw [hof] at hruns
  exact Runs.bind hruns (Runs.bind (runs_startLog hhost _) h)

theorem runs_perform_aborted (hs : HasSettings lib fs before env a s)
    (h : ¬LogReturns lib env (logLevel a s)) :
    Runs files before (perform lib host env a) (.ok .aborted) before := by
  have hnone : started? lib env (logLevel a s) = none := by
    unfold started?
    split
    · rename_i hreview
      by_contra hsome
      exact h ⟨hreview, by simpa using hsome⟩
    · rfl
  refine runs_perform_of_settings hhost hs ?_
  rw [hnone]
  exact Runs.pure _

theorem runs_perform_logLevel (hs : HasSettings lib fs before env a s)
    (hreview : (lib.reviewLog env).2 = true) {causes : List String}
    (h : lib.directive? (logLevel a s) = some (.error causes)) :
    Runs files before (perform lib host env a) (.error (.logLevel (logLevel a s) causes)) before := by
  refine runs_perform_of_settings hhost hs ?_
  rw [started?, if_pos hreview, h]
  exact Runs.pure _

theorem runs_perform (hp : Prepared lib fs before env a s) {result : Except RunError Exit}
    (h : Runs files before (compile host a s) result after) :
    Runs files before (perform lib host env a) result after := by
  refine runs_perform_of_settings hhost hp.settings ?_
  rw [started?, if_pos hp.review, hp.directive]
  exact h

theorem runs_compile_unreadable {cause : FileError} (h : fs.text before a.file = .error cause) :
    Runs files before (compile host a s) (.error (.unreadable a.file cause)) before :=
  Runs.bind (hhost.readText h) (Runs.pure _)

theorem runs_compile_error {text : String} {e : TuneError} (ht : fs.text before a.file = .ok text)
    (h : Compilation.ofText text = .error e) (he : ∀ position, e ≠ .octaveTooHigh position) :
    Runs files before (compile host a s) (.error (.tune a.file e)) before := by
  refine Runs.bind (hhost.readText ht) ?_
  dsimp only
  rw [h]
  cases e with
  | octaveTooHigh position => exact absurd rfl (he position)
  | _ => exact Runs.pure _

theorem runs_compile_aborted {text : String} {position : Position}
    (ht : fs.text before a.file = .ok text)
    (h : Compilation.ofText text = .error (.octaveTooHigh position)) :
    Runs files before (compile host a s) (.ok .aborted) before := by
  refine Runs.bind (hhost.readText ht) ?_
  dsimp only
  rw [h]
  exact Runs.pure _

theorem runs_compiled (hc : Compiled lib fs before env a s c) {result : Except RunError Exit}
    (hf : Runs files before (finish host a s c) result after) :
    Runs files before (perform lib host env a) result after := by
  obtain ⟨text, htext, hcompiled⟩ := hc.compiled
  refine runs_perform hhost hc.toPrepared (Runs.bind (hhost.readText htext) ?_)
  dsimp only
  rw [hcompiled]
  exact hf

theorem runs_of_fails (h : Fails lib fs before env a) :
    ∃ e, Runs files before (perform lib host env a) (.error e) before := by
  cases h with
  | settings h => exact runs_perform_settings hhost h
  | logLevel hs hreview h => exact ⟨_, runs_perform_logLevel hhost hs hreview h⟩
  | reading hp h => exact ⟨_, runs_perform hhost hp (runs_compile_unreadable hhost h)⟩
  | compiling hp ht h he => exact ⟨_, runs_perform hhost hp (runs_compile_error hhost ht h he)⟩
  | writing hc hcheck h => exact ⟨_, runs_compiled hhost hc (runs_finish_write hhost hcheck h)⟩

theorem runs_of_aborts (h : Aborts lib fs before env a) :
    Runs files before (perform lib host env a) (.ok .aborted) before := by
  cases h with
  | log hs h => exact runs_perform_aborted hhost hs h
  | compiling hp ht h => exact runs_perform hhost hp (runs_compile_aborted hhost ht h)

theorem runs_run {args : List String} (h : lib.arguments Arguments.ranges env args = .ok a)
    {result : Except RunError Exit} (hp : Runs files before (perform lib host env a) result after) :
    Runs files before (run lib host env args) (result.toOption.getD .failure) after := by
  unfold run
  rw [h]
  refine Runs.bind hp ?_
  cases result with
  | error e => exact Runs.bind (hhost.complain _ _) (Runs.pure _)
  | ok exit => exact Runs.pure _

theorem code_of_check {args : List String} (h : lib.arguments Arguments.ranges env args = .ok a)
    {state : σ} (hc : Compiled lib fs (files state) env a s c) (hcheck : a.check = true) :
    ((run lib host env args).run state).1.code = if c.tune.feedback = [] then 0 else 2 := by
  have hruns := runs_run hhost h (runs_compiled hhost hc (runs_finish_check hhost hcheck))
  have hexit : ((run lib host env args).run state).1 =
      if c.feedback.isEmpty then .success else .rejected := (hruns state rfl).1
  rw [hexit, feedback_of_compiled hc]
  by_cases hfeedback : c.tune.feedback = []
  · simp [hfeedback, Exit.code]
  · simp [hfeedback, Exit.code]

end

theorem fails_or_aborts_of_prepared (hp : Prepared lib fs before env a s) :
    Fails lib fs before env a ∨ Aborts lib fs before env a ∨
      ∃ c, Compiled lib fs before env a s c := by
  cases htext : fs.text before a.file with
  | error cause => exact .inl (.reading hp htext)
  | ok text =>
    cases hcompile : Compilation.ofText text with
    | ok c => exact .inr (.inr ⟨c, hp, text, htext, hcompile⟩)
    | error e =>
      by_cases he : ∃ position, e = .octaveTooHigh position
      · obtain ⟨position, rfl⟩ := he
        exact .inr (.inl (.compiling hp htext hcompile))
      · exact .inl (.compiling hp htext hcompile (not_exists.1 he))

theorem fails_or_aborts_of_settings (hs : HasSettings lib fs before env a s) :
    Fails lib fs before env a ∨ Aborts lib fs before env a ∨ Prepared lib fs before env a s := by
  by_cases hlog : LogReturns lib env (logLevel a s)
  · obtain ⟨result, hresult⟩ := Option.ne_none_iff_exists'.1 hlog.directive
    cases result with
    | ok _ => exact .inr (.inr ⟨hs, hlog.review, hresult⟩)
    | error causes => exact .inl (.logLevel hs hlog.review hresult)
  · exact .inr (.inl (.log hs hlog))

theorem fails_or_aborts_or_compiled :
    Fails lib fs before env a ∨ Aborts lib fs before env a ∨
      ∃ s c, Compiled lib fs before env a s c := by
  by_cases hs : ∃ s, HasSettings lib fs before env a s
  · obtain ⟨s, hs⟩ := hs
    rcases fails_or_aborts_of_settings hs with hfails | haborts | hprepared
    · exact .inl hfails
    · exact .inr (.inl haborts)
    · rcases fails_or_aborts_of_prepared hprepared with hfails | haborts | ⟨c, hc⟩
      · exact .inl hfails
      · exact .inr (.inl haborts)
      · exact .inr (.inr ⟨s, c, hc⟩)
  · exact .inl (.settings hs)

theorem not_aborts (hlog : ∀ s, HasSettings lib fs before env a s → LogReturns lib env (logLevel a s))
    (htune : ∀ text position, fs.text before a.file = .ok text →
      Compilation.ofText text ≠ .error (.octaveTooHigh position)) :
    ¬Aborts lib fs before env a := by
  intro h
  cases h with
  | log hs h => exact h (hlog _ hs)
  | compiling hp ht h => exact htune _ _ ht h

theorem inBounds_of_settings (h : InBounds a.velocity a.channel a.program)
    (hs : HasSettings lib fs before env a s) :
    InBounds (some (a.velocity.getD s.velocity)) (some (a.channel.getD s.channel))
      (a.program.or s.program) := by
  obtain ⟨tables, loaded, -, hof, rfl⟩ := hs
  exact h.over (Settings.inBounds_of_ofTables hof)

/-- The tune was read and its file is written, so both have names. -/
theorem isOutput_of_write (hfs : fs.Lawful) (hc : Compiled lib fs before env a s c)
    (hwrite : fs.write before (outputPath a s) (rendered a s c) = .ok after) :
    IsOutput a s (outputPath a s) := by
  obtain ⟨text, htext, -⟩ := hc.compiled
  obtain ⟨bytes, hread⟩ := FileSystem.read_of_text htext
  exact isOutput_outputPath (hfs.named_of_read hread) (hfs.named_of_write hwrite)

/-- A run as a whole: how it ends and with which files. -/
inductive Ends (lib : Libraries) (fs : FileSystem) (before : fs.Files) (env : Environment)
    (a : Arguments) : Exit → fs.Files → Prop where
  | failed (h : Fails lib fs before env a) : Ends lib fs before env a .failure before
  | aborted (h : Aborts lib fs before env a) : Ends lib fs before env a .aborted before
  | checked {s : Settings} {c : Compilation} (hc : Compiled lib fs before env a s c)
    (hcheck : a.check = true) :
    Ends lib fs before env a (if c.feedback.isEmpty then .success else .rejected) before
  | stored {s : Settings} {c : Compilation} {after : fs.Files}
    (hc : Compiled lib fs before env a s c) (hcheck : a.check = false)
    (houtput : IsOutput a s (outputPath a s))
    (h : fs.Stored before (outputPath a s) (rendered a s c) after) :
    Ends lib fs before env a .success after

theorem Ends.unchanged {exit : Exit} (h : Ends lib fs before env a exit after)
    (hcode : exit.code ≠ 0 ∨ a.check = true) : after = before := by
  cases h with
  | failed h => rfl
  | aborted h => rfl
  | checked hc hcheck => rfl
  | stored hc hcheck houtput h => simp [Exit.code, hcheck] at hcode

theorem Ends.fails {exit : Exit} (h : Ends lib fs before env a exit after)
    (hcode : exit.code = 1) : Fails lib fs before env a := by
  cases h with
  | failed h => exact h
  | aborted h => simp [Exit.code] at hcode
  | checked hc hcheck => split at hcode <;> simp [Exit.code] at hcode
  | stored hc hcheck houtput h => simp [Exit.code] at hcode

theorem Ends.exists_stored {exit : Exit} (h : Ends lib fs before env a exit after)
    (hfailed : exit.code ≠ 1) (haborts : ¬Aborts lib fs before env a) (hcheck : a.check = false) :
    exit.code = 0 ∧ ∃ s c, Compiled lib fs before env a s c ∧ IsOutput a s (outputPath a s) ∧
      fs.Stored before (outputPath a s) (rendered a s c) after := by
  cases h with
  | failed h => exact absurd rfl hfailed
  | aborted h => exact absurd h haborts
  | checked hc hcheck' => simp [hcheck] at hcheck'
  | stored hc _ houtput h => exact ⟨rfl, _, _, hc, houtput, h⟩

section

variable {σ : Type} {host : Host (StateM σ)} {files : σ → fs.Files} (hfs : fs.Lawful)
  (hhost : host.WorksOn fs files)

include hfs hhost

theorem exists_ends (lib : Libraries) (before : fs.Files) (env : Environment) (a : Arguments) :
    ∃ result after, Runs files before (perform lib host env a) result after ∧
      Ends lib fs before env a (result.toOption.getD .failure) after := by
  rcases @fails_or_aborts_or_compiled lib fs before env a with hfails | haborts | ⟨s, c, hc⟩
  · obtain ⟨e, hruns⟩ := runs_of_fails hhost hfails
    exact ⟨_, _, hruns, .failed hfails⟩
  · exact ⟨_, _, runs_of_aborts hhost haborts, .aborted haborts⟩
  · cases hcheck : a.check with
    | true => exact ⟨_, _, runs_compiled hhost hc (runs_finish_check hhost hcheck), .checked hc hcheck⟩
    | false =>
      have hruns := runs_compiled hhost hc (runs_finish_write hhost hcheck rfl)
      refine ⟨_, _, hruns, ?_⟩
      cases hwrite : fs.write before (outputPath a s) (rendered a s c) with
      | error cause => exact .failed (.writing hc hcheck hwrite)
      | ok after =>
        exact .stored hc hcheck (isOutput_of_write hfs hc hwrite) (hfs.stored hwrite)

theorem ends_run {args : List String} (h : lib.arguments Arguments.ranges env args = .ok a)
    (state : σ) :
    Ends lib fs (files state) env a ((run lib host env args).run state).1
      (files ((run lib host env args).run state).2) := by
  obtain ⟨result, after, hruns, hends⟩ := exists_ends hfs hhost lib (files state) env a
  obtain ⟨hexit, hafter⟩ := runs_run hhost h hruns state rfl
  rw [hexit, hafter]
  exact hends

/-- Files change only in a run that ends well and is no mere check, and then by the file of the tune
alone: it is where it should be, and holds the tune as arguments and settings want it to sound, which
they keep within what a file can hold. -/
theorem run_stores_only_on_success (hranges : lib.KeepsRanges) {args : List String}
    (h : lib.arguments Arguments.ranges env args = .ok a) (state : σ)
    (hlog : ∀ s, HasSettings lib fs (files state) env a s → LogReturns lib env (logLevel a s))
    (htune : ∀ text position, fs.text (files state) a.file = .ok text →
      Compilation.ofText text ≠ .error (.octaveTooHigh position)) :
    let before := files state
    let code := ((run lib host env args).run state).1.code
    let after := files ((run lib host env args).run state).2
    (code = 1 ↔ Fails lib fs before env a) ∧
    (code = 1 ∨ a.check = true → after = before) ∧
    (code ≠ 1 → a.check = false →
      code = 0 ∧ ∃ s c, Compiled lib fs before env a s c ∧ IsOutput a s (outputPath a s) ∧
        fs.Stored before (outputPath a s)
          ⟨(Midi.file c.events c.ticksPerQuarter c.tune.tempo
            ⟨a.velocity.getD s.velocity, a.channel.getD s.channel, a.program.or s.program,
              a.tempo⟩).toArray⟩ after) ∧
    ∀ s c, Compiled lib fs before env a s c →
      (a.check = true → code = if c.tune.feedback = [] then 0 else 2) ∧
      InBounds (some (a.velocity.getD s.velocity)) (some (a.channel.getD s.channel))
        (a.program.or s.program) ∧
      Midi.loudness (a.velocity.getD s.velocity) = a.velocity.getD s.velocity ∧
      a.channel.getD s.channel &&& 0x0f = a.channel.getD s.channel ∧
      ∀ p ∈ a.program.or s.program, p &&& 0x7f = p := by
  intro before code after
  have hends : Ends lib fs before env a ((run lib host env args).run state).1 after :=
    ends_run hfs hhost h state
  refine ⟨⟨hends.fails, ?_⟩, ?_, ?_, ?_⟩
  · intro hf
    obtain ⟨e, hruns⟩ := runs_of_fails hhost hf
    exact congrArg Exit.code (runs_run hhost h hruns state rfl).1
  · rintro (hcode | hcheck)
    · have hcode' : code ≠ 0 := by simp [hcode]
      exact hends.unchanged (.inl hcode')
    · exact hends.unchanged (.inr hcheck)
  · intro hcode hcheck
    exact hends.exists_stored hcode (not_aborts hlog htune) hcheck
  · intro s c hc
    have hbounds := inBounds_of_settings (inBounds_of_allow (hranges _ _ _ _ h)) hc.settings
    refine ⟨?_, hbounds, hbounds.unchanged⟩
    intro hcheck
    exact code_of_check hhost h hc hcheck

end

end

def oneNoteText : String :=
  "X:1\nT:t\nM:4/4\nL:1/8\nK:G\nG\n"

/-- A tune of one note, and settings that want its file in another directory. -/
def oneNote : Machine where
  disk := ⟨[(["t.abc"], .file oneNoteText.toUTF8),
    (["abcplay.toml"], .file
      "[midi]\nvelocity = 30\nprogram = 5\n[output]\ndirectory = \"out\"\n".toUTF8),
    (["out"], .directory)], []⟩
  output := ""
  errors := ""

theorem text_oneNote : Disk.fileSystem.text oneNote.disk "t.abc" = .ok oneNoteText := by
  decide +kernel

theorem ofText_oneNote {text : String} (position : Position)
    (h : Disk.fileSystem.text oneNote.disk "t.abc" = .ok text) :
    Compilation.ofText text ≠ .error (.octaveTooHigh position) := by
  have hcompiles : (Compilation.ofText oneNoteText).toOption.isSome = true := by decide +kernel
  obtain rfl := Except.ok.inj (text_oneNote.symm.trans h)
  intro herror
  rw [herror] at hcompiles
  cases hcompiles

/-- The file is written where the settings want it, with arguments over settings. A check finds the
bar too short and writes nothing. -/
theorem run_stores_only_on_success_oneNote :
    (∃ c, Compilation.ofText oneNoteText = .ok c ∧
      Disk.fileSystem.Stored oneNote.disk "out/t.mid"
        ⟨(Midi.file c.events c.ticksPerQuarter c.tune.tempo ⟨100, 9, some 5, none⟩).toArray⟩
        ((run .standard Machine.host ⟨none, []⟩
          ["t.abc", "-v", "--velocity", "100", "--channel", "9"]).run oneNote).2.disk) ∧
    ((run .standard Machine.host ⟨none, []⟩ ["t.abc", "-v", "--check"]).run oneNote).1.code = 2 ∧
    ((run .standard Machine.host ⟨none, []⟩ ["t.abc", "-v", "--check"]).run oneNote).2.disk =
      oneNote.disk := by
  have hlog : LogReturns .standard ⟨none, []⟩ "debug" := ⟨by decide, by decide +kernel⟩
  have htune (text : String) (position : Position) := @ofText_oneNote text position
  have hload : ((Settings.load .standard Machine.host ⟨none, []⟩ none).run oneNote).1 =
      .ok ⟨⟨30, 0, some 5, some "out", "warn"⟩, ["abcplay.toml"], []⟩ := by decide +kernel
  have hwrite : Libraries.standard.arguments Arguments.ranges ⟨none, []⟩
      ["t.abc", "-v", "--velocity", "100", "--channel", "9"] =
      .ok ⟨"t.abc", none, none, some 100, some 9, none, none, false, false, 1⟩ := by decide +kernel
  have hcheck : Libraries.standard.arguments Arguments.ranges ⟨none, []⟩ ["t.abc", "-v", "--check"] =
      .ok ⟨"t.abc", none, none, none, none, none, none, true, false, 1⟩ := by decide +kernel
  have hcode : ((run .standard Machine.host ⟨none, []⟩
      ["t.abc", "-v", "--velocity", "100", "--channel", "9"]).run oneNote).1.code ≠ 1 := by
    decide +kernel
  obtain ⟨-, -, hstored, -⟩ := run_stores_only_on_success Disk.fileSystem_lawful
    Machine.host_worksOn Libraries.standard_keepsRanges hwrite oneNote (fun _ _ => hlog) htune
  obtain ⟨-, hkept, -, -⟩ := run_stores_only_on_success Disk.fileSystem_lawful
    Machine.host_worksOn Libraries.standard_keepsRanges hcheck oneNote (fun _ _ => hlog) htune
  refine ⟨?_, by decide +kernel, hkept (.inr rfl)⟩
  obtain ⟨-, s, c, hc, -, hfile⟩ := hstored hcode rfl
  have hs := settings_eq Machine.host_worksOn hc.settings hload
  have hpath : outputPath ⟨"t.abc", none, none, some 100, some 9, none, none, false, false, 1⟩ s =
      "out/t.mid" := by
    rw [outputPath, hs]
    decide +kernel
  obtain ⟨text, hread, hcompiled⟩ := hc.compiled
  obtain rfl := Except.ok.inj (text_oneNote.symm.trans hread)
  rw [hpath, hs] at hfile
  exact ⟨c, hcompiled, hfile⟩

end Tunebook.Command
