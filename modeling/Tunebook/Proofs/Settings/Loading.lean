import Mathlib.Data.List.Forall2
import Tunebook.Proofs.Files.FileSystem

namespace Tunebook.Settings

/-- The files that settings are loaded from: the user's own, then the one asked for or else the local
one. Only a file that was asked for has to be there. -/
def sources (lib : Libraries) (fs : FileSystem) (files : fs.Files) (env : Environment)
    (asked : Option String) : List String :=
  ((lib.directories? env).toList.map fun directories =>
      Path.join directories.config "abcplay/config.toml").filter (fs.isPresent files) ++
    asked.elim (["abcplay.toml"].filter (fs.isPresent files)) fun path => [path]

/-- The path leads to a text, and the table is the one of that text. -/
def Holds (lib : Libraries) (fs : FileSystem) (files : fs.Files) (path : String) (t : Toml.Table) :
    Prop :=
  ∃ text, fs.text files path = .ok text ∧ lib.table? text = some t

theorem exists_holds {lib : Libraries} {fs : FileSystem} {files : fs.Files} {path : String}
    {P : Toml.Table → Bool}
    (h : ((fs.text files path).toOption.bind lib.table?).any P = true) :
    ∃ t, Holds lib fs files path t ∧ P t = true := by
  cases htext : fs.text files path with
  | error e =>
    rw [htext] at h
    cases h
  | ok text =>
    rw [htext] at h
    obtain ⟨t, ht, hP⟩ := (Option.any_eq_true P _).1 h
    exact ⟨t, ⟨text, htext, ht⟩, hP⟩

section

variable {σ : Type} {host : Host (StateM σ)} {fs : FileSystem} {files : σ → fs.Files}
  (h : host.WorksOn fs files) {lib : Libraries} {before : fs.Files} {env : Environment}
  {asked : Option String}

include h

theorem runs_files :
    Runs files before (Settings.files lib host env asked) (sources lib fs before env asked)
      before := by
  have huser : (userFile? lib env).toList = (lib.directories? env).toList.map fun directories =>
      Path.join directories.config "abcplay/config.toml" := by
    cases hd : lib.directories? env <;> simp [userFile?, hd]
  refine Runs.bind (Runs.filterM (h.isPresent before) _) ?_
  rw [huser, sources]
  cases asked with
  | some path => exact Runs.pure _
  | none => exact Runs.bind (Runs.filterM (h.isPresent before) _) (Runs.pure _)

theorem runs_loadTable {path : String} {t : Toml.Table} (ht : Holds lib fs before path t) :
    Runs files before (loadTable lib host path) (.ok t) before := by
  obtain ⟨text, htext, htable⟩ := ht
  refine Runs.bind (h.readText htext) ?_
  dsimp only
  rw [htable]
  exact Runs.pure _

theorem runs_loadTable_error {path : String} (ht : ¬∃ t, Holds lib fs before path t) :
    ∃ e, Runs files before (loadTable lib host path) (.error e) before := by
  cases htext : fs.text before path with
  | error cause => exact ⟨.unreadable path cause, Runs.bind (h.readText htext) (Runs.pure _)⟩
  | ok text =>
    refine ⟨.malformed path, Runs.bind (h.readText htext) ?_⟩
    dsimp only
    cases htable : lib.table? text with
    | none => exact Runs.pure _
    | some t => exact absurd ⟨t, text, htext, htable⟩ ht

theorem runs_loadTables {paths : List String} {tables : List Toml.Table}
    (ht : List.Forall₂ (Holds lib fs before) paths tables) :
    Runs files before (loadTables lib host paths) (.ok (paths.zip tables)) before := by
  induction ht with
  | nil => exact Runs.pure _
  | cons hfirst _ ih =>
    refine Runs.bind (runs_loadTable h hfirst) ?_
    exact Runs.bind ih (Runs.pure _)

theorem runs_loadTables_error {paths : List String}
    (ht : ¬∃ tables, List.Forall₂ (Holds lib fs before) paths tables) :
    ∃ e, Runs files before (loadTables lib host paths) (.error e) before := by
  induction paths with
  | nil => exact absurd ⟨[], .nil⟩ ht
  | cons path paths ih =>
    by_cases hfirst : ∃ t, Holds lib fs before path t
    · obtain ⟨t, hfirst⟩ := hfirst
      have hrest : ¬∃ tables, List.Forall₂ (Holds lib fs before) paths tables := by
        rintro ⟨tables, hrest⟩
        exact ht ⟨t :: tables, .cons hfirst hrest⟩
      obtain ⟨e, he⟩ := ih hrest
      exact ⟨e, Runs.bind (runs_loadTable h hfirst) (Runs.bind he (Runs.pure _))⟩
    · obtain ⟨e, he⟩ := runs_loadTable_error h hfirst
      exact ⟨e, Runs.bind he (Runs.pure _)⟩

theorem runs_load {tables : List Toml.Table}
    (ht : List.Forall₂ (Holds lib fs before) (sources lib fs before env asked) tables) :
    Runs files before (load lib host env asked)
      (ofTables lib env ((sources lib fs before env asked).zip tables)) before :=
  Runs.bind (runs_files h) (Runs.bind (runs_loadTables h ht) (Runs.pure _))

theorem runs_load_error
    (ht : ¬∃ tables, List.Forall₂ (Holds lib fs before) (sources lib fs before env asked) tables) :
    ∃ e, Runs files before (load lib host env asked) (.error e) before := by
  obtain ⟨e, he⟩ := runs_loadTables_error h ht
  exact ⟨e, Runs.bind (runs_files h) (Runs.bind he (Runs.pure _))⟩

end

end Tunebook.Settings
