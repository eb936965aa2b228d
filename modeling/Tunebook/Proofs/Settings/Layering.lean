import Mathlib.Data.List.Forall2
import Mathlib.Data.List.Induction
import Mathlib.Data.Option.Basic
import Tunebook.Proofs.Files.Writing
import Tunebook.Proofs.Libraries
import Tunebook.Proofs.Settings.Loading
import Tunebook.Proofs.Text

namespace Tunebook

namespace Toml.Table

def keys : Table → List String
  | nil => []
  | cons key _ rest => key :: rest.keys

def definition? (t : Table) (name key : String) : Option Value :=
  match t.get? name with
  | some (.table s) => s.get? key
  | _ => none

/-- What the last of the tables that define a key says about it. -/
def lastDefinition? (tables : List Table) (name key : String) : Option Value :=
  (tables.filterMap fun t => t.definition? name key).getLast?

def HasSection (t : Table) (name : String) : Prop :=
  t.get? name = none ∨ ∃ s, t.get? name = some (.table s)

theorem get?_eq_none_of_not_mem {key : String} {t : Table} (h : key ∉ t.keys) :
    t.get? key = none := by
  fun_induction keys t with
  | case1 => rfl
  | case2 k v rest ih =>
    rw [List.mem_cons, not_or] at h
    rw [get?, if_neg (Ne.symm h.1)]
    exact ih h.2

/-- Every key has the value of the upper table, laid over that of the lower one. -/
theorem get?_merge {t : Table} (h : t.keys.Nodup) (base : Table) (key : String) :
    (base.merge t).get? key =
      (t.get? key).elim (base.get? key) fun v => some (v.over (base.get? key)) := by
  fun_induction keys t generalizing base with
  | case1 => rfl
  | case2 k v rest ih =>
    rw [List.nodup_cons] at h
    rw [merge, ih h.2]
    by_cases hk : k = key
    · subst hk
      rw [get?_eq_none_of_not_mem h.1, get?_set_self, get?, if_pos rfl]
      rfl
    · rw [get?_set_ne hk, get?, if_neg hk]

theorem over_none (v : Value) : v.over none = v := by
  cases v <;> rfl

theorem definition?_eq_get? {t s : Table} {name : String} (h : t.get? name = some (.table s))
    (key : String) : t.definition? name key = s.get? key := by
  rw [definition?, h]

theorem definition?_eq_none {t : Table} {name : String} (h : t.get? name = none) (key : String) :
    t.definition? name key = none := by
  rw [definition?, h]

theorem get?_merge_section {base t s : Table} {name : String} (hkeys : t.keys.Nodup)
    (hs : t.get? name = some (.table s)) :
    (base.merge t).get? name = some ((Value.table s).over (base.get? name)) := by
  rw [get?_merge hkeys, hs]
  rfl

theorem hasSection_merge {base t : Table} {name : String} (hkeys : t.keys.Nodup)
    (ht : t.HasSection name) (hbase : base.HasSection name) : (base.merge t).HasSection name := by
  rcases ht with ht | ⟨s, hs⟩
  · have hget : (base.merge t).get? name = base.get? name := by
      rw [get?_merge hkeys, ht]
      rfl
    rwa [HasSection, hget]
  · right
    rw [get?_merge_section hkeys hs]
    rcases hbase with hbase | ⟨b, hb⟩
    · exact ⟨s, by rw [hbase]; rfl⟩
    · exact ⟨b.merge s, by rw [hb]; rfl⟩

theorem definition?_merge {base t : Table} {name : String} (hkeys : t.keys.Nodup)
    (ht : t.get? name = none ∨ ∃ s, t.get? name = some (.table s) ∧ s.keys.Nodup)
    (hbase : base.HasSection name) (key : String) :
    (base.merge t).definition? name key =
      (t.definition? name key).elim (base.definition? name key) fun v =>
        some (v.over (base.definition? name key)) := by
  rcases ht with ht | ⟨s, hs, hdistinct⟩
  · rw [definition?_eq_none ht, definition?, get?_merge hkeys, ht]
    rfl
  · have hget := @get?_merge_section base t s name hkeys hs
    rw [definition?_eq_get? hs]
    rcases hbase with hbase | ⟨b, hb⟩
    · rw [hbase, over_none] at hget
      rw [definition?_eq_get? hget, definition?_eq_none hbase]
      cases s.get? key with
      | none => rfl
      | some v => rw [Option.elim_some, over_none]
    · rw [hb] at hget
      have hmerged : (Value.table s).over (some (.table b)) = .table (b.merge s) := rfl
      rw [hmerged] at hget
      rw [definition?_eq_get? hget, definition?_eq_get? hb, get?_merge hdistinct]

theorem lastDefinition?_concat (tables : List Table) (t : Table) (name key : String) :
    lastDefinition? (tables ++ [t]) name key =
      (t.definition? name key).or (lastDefinition? tables name key) := by
  unfold lastDefinition?
  rw [List.filterMap_append]
  cases h : t.definition? name key with
  | none => simp [h]
  | some v => simp [h]

end Toml.Table

namespace Settings

open Toml

/-- A table to take settings from: no key is there twice, and its sections are such tables too. -/
structure Layer (t : Table) : Prop where
  keys : t.keys.Nodup
  sections : ∀ name ∈ ["midi", "output"],
    t.get? name = none ∨ ∃ s, t.get? name = some (.table s) ∧ s.keys.Nodup

def isSection : Option Value → Bool
  | none => true
  | some (.table s) => decide s.keys.Nodup
  | some _ => false

theorem isSection_iff {v : Option Value} :
    isSection v = true ↔ v = none ∨ ∃ s, v = some (.table s) ∧ s.keys.Nodup := by
  cases v with
  | none => simp [isSection]
  | some v => cases v <;> simp [isSection]

instance : DecidablePred Layer := fun t =>
  decidable_of_iff (t.keys.Nodup ∧ ∀ name ∈ ["midi", "output"], isSection (t.get? name) = true)
    ⟨fun h => ⟨h.1, fun name hn => isSection_iff.1 (h.2 name hn)⟩,
      fun h => ⟨h.keys, fun name hn => isSection_iff.2 (h.sections name hn)⟩⟩

/-- The tables of files, laid over each other from the first to the last. -/
def merged (tables : List Table) : Table :=
  tables.foldl Table.merge .nil

theorem Layer.hasSection {t : Table} (h : Layer t) {name : String}
    (hn : name ∈ ["midi", "output"]) : t.HasSection name := by
  rcases h.sections name hn with hnone | ⟨s, hs, -⟩
  · exact .inl hnone
  · exact .inr ⟨s, hs⟩

section

variable {name : String} (hn : name ∈ ["midi", "output"])

include hn

theorem hasSection_merged {tables : List Table} (h : ∀ t ∈ tables, Layer t) :
    (merged tables).HasSection name := by
  induction tables using List.reverseRecOn with
  | nil => exact .inl rfl
  | append_singleton tables t ih =>
    rw [List.forall_mem_append, List.forall_mem_singleton] at h
    rw [merged, List.foldl_append]
    exact Table.hasSection_merge h.2.keys (h.2.hasSection hn) (ih h.1)

/-- Reading sees the last definition of a key, whatever the earlier ones were. Tables, which alone
are changed by what is under them, are of no use to it. -/
theorem read_merged {α : Type} {read : Value → Option α} (hread : ∀ t, read (.table t) = none)
    {tables : List Table} (h : ∀ t ∈ tables, Layer t) (key : String) :
    ((merged tables).definition? name key).map read =
      (Table.lastDefinition? tables name key).map read := by
  have hover (existing : Option Value) (v : Value) : read (v.over existing) = read v := by
    cases v with
    | table t =>
      rw [hread, Value.over.eq_def]
      dsimp only
      split <;> exact hread _
    | _ => rfl
  induction tables using List.reverseRecOn with
  | nil => rfl
  | append_singleton tables t ih =>
    rw [List.forall_mem_append, List.forall_mem_singleton] at h
    rw [merged, List.foldl_append, List.foldl_cons, List.foldl_nil, ← merged,
      Table.definition?_merge h.2.keys (h.2.sections name hn) (hasSection_merged hn h.1),
      Table.lastDefinition?_concat]
    cases t.definition? name key with
    | none => exact ih h.1
    | some v => simp [hover]

end

theorem section?_of_hasSection {lib : Libraries} (hlib : lib.ReadsValues) {t : Table}
    {name : String} (h : t.HasSection name) (keys : List String) :
    ∃ s, section? lib t name keys = some s ∧ ∀ key, s.get? key = t.definition? name key := by
  rcases h with h | ⟨s, hs⟩
  · refine ⟨.nil, ?_, fun key => (Table.definition?_eq_none h key).symm⟩
    rw [section?, h]
  · refine ⟨s, ?_, fun key => (Table.definition?_eq_get? hs key).symm⟩
    rw [section?, hs]
    exact hlib.members?_table keys s

/-- Files give a key the value of its last definition, if that is of the right kind, or the default
if there is no definition. -/
def Gives {α : Type} (tables : List Table) (name key : String) (kind : Value → α → Prop)
    (default a : α) : Prop :=
  (Table.lastDefinition? tables name key).elim (a = default) fun v => kind v a

/-- Settings that files give, each for itself. -/
structure Filed (lib : Libraries) (tables : List Table) (s : Settings) : Prop where
  velocity : Gives tables "midi" "velocity" (fun v b => v = .integer b.toNat) 80 s.velocity
  channel : Gives tables "midi" "channel" (fun v b => v = .integer b.toNat) 0 s.channel
  program : Gives tables "midi" "program" (fun v p => ∃ b : UInt8, p = some b ∧ v = .integer b.toNat)
    none s.program
  directory : Gives tables "output" "directory" (fun v d => ∃ path, d = some path ∧ lib.IsText v path)
    none s.directory
  logLevel : Gives tables "output" "log_level" lib.IsText "warn" s.logLevel

theorem field?_eq_some_iff {α : Type} {read : Value → Option α} {kind : Value → α → Prop}
    (hkind : ∀ v a, read v = some a ↔ kind v a) (hread : ∀ t, read (.table t) = none)
    {default : α} {tables : List Table} (h : ∀ t ∈ tables, Layer t) {name : String}
    (hn : name ∈ ["midi", "output"]) {s : Table}
    (hs : ∀ key, s.get? key = (merged tables).definition? name key) (key : String) (a : α) :
    field? read default s key = some a ↔ Gives tables name key kind default a := by
  have hfield : field? read default s key =
      ((Table.lastDefinition? tables name key).map read).getD (some default) := by
    rw [← read_merged hn hread h, ← hs, field?]
    cases s.get? key <;> rfl
  rw [hfield, Gives]
  cases Table.lastDefinition? tables name key with
  | none =>
    rw [Option.map_none, Option.getD_none, Option.elim_none, Option.some_inj]
    exact eq_comm
  | some v => exact hkind v a

theorem ofTable?_merged_eq_some_iff {lib : Libraries} (hlib : lib.ReadsValues)
    {tables : List Table} (h : ∀ t ∈ tables, Layer t) {s : Settings} :
    ofTable? lib (merged tables) = some s ↔ Filed lib tables s := by
  have hmidi : "midi" ∈ ["midi", "output"] := List.mem_cons_self
  have houtput : "output" ∈ ["midi", "output"] := List.mem_cons_of_mem _ List.mem_cons_self
  obtain ⟨midi, hsection, hkeys⟩ := section?_of_hasSection hlib (hasSection_merged hmidi h)
    ["velocity", "channel", "program"]
  obtain ⟨output, hsection', hkeys'⟩ := section?_of_hasSection hlib (hasSection_merged houtput h)
    ["directory", "log_level"]
  have hbyte := fun default => @field?_eq_some_iff _ lib.byte? _ (fun _ _ => hlib.byte?_eq_some_iff)
    hlib.byte?_table default
  have hprogram := @field?_eq_some_iff _ (fun v => (lib.byte? v).map some)
    (fun v p => ∃ b : UInt8, p = some b ∧ v = .integer b.toNat)
    (fun v p => by simp [hlib.byte?_eq_some_iff, and_comm, eq_comm])
    (fun t => by rw [hlib.byte?_table, Option.map_none]) none
  have hdirectory := @field?_eq_some_iff _ (fun v => (lib.text? v).map some)
    (fun v d => ∃ path, d = some path ∧ lib.IsText v path)
    (fun v d => by simp [hlib.text?_eq_some_iff, and_comm, eq_comm])
    (fun t => by rw [hlib.text?_table, Option.map_none]) none
  have htext := @field?_eq_some_iff _ lib.text? _ (fun _ _ => hlib.text?_eq_some_iff)
    hlib.text?_table "warn"
  unfold ofTable?
  simp only [hsection, hsection', Option.bind_eq_bind, Option.bind_some, Option.pure_def,
    Option.bind_eq_some_iff]
  constructor
  · rintro ⟨velocity, hv, channel, hc, program, hp, directory, hd, logLevel, hl, heq⟩
    obtain rfl := Option.some.inj heq
    exact ⟨(hbyte 80 h hmidi hkeys _ _).1 hv, (hbyte 0 h hmidi hkeys _ _).1 hc,
      (hprogram h hmidi hkeys _ _).1 hp, (hdirectory h houtput hkeys' _ _).1 hd,
      (htext h houtput hkeys' _ _).1 hl⟩
  · rintro ⟨hv, hc, hp, hd, hl⟩
    exact ⟨_, (hbyte 80 h hmidi hkeys _ _).2 hv, _, (hbyte 0 h hmidi hkeys _ _).2 hc,
      _, (hprogram h hmidi hkeys _ _).2 hp, _, (hdirectory h houtput hkeys' _ _).2 hd,
      _, (htext h houtput hkeys' _ _).2 hl, rfl⟩

/-- A variable is set to a text of the byte. -/
def SaysByte (env : Environment) (name : String) (b : UInt8) : Prop :=
  ∃ text, env.lookup? name = some text ∧ Text.IsByte text b

/-- A path after a leading `~/` starts at the user's directory, where there is one. -/
def Expands (home : Option String) (path result : String) : Prop :=
  (∃ directory rest, home = some directory ∧ path = "~/" ++ rest ∧
    result = Path.join directory rest) ∨
  (home = none ∨ ∀ rest, path ≠ "~/" ++ rest) ∧ result = path

/-- What is said counts, and `otherwise` if nothing is said. -/
def Prevails {α : Type} (told : α → Prop) (otherwise a : α) : Prop :=
  told a ∨ (∀ b, ¬told b) ∧ a = otherwise

def byteVariables : List String :=
  ["ABCPLAY_VELOCITY", "ABCPLAY_CHANNEL", "ABCPLAY_PROGRAM"]

def textVariables : List String :=
  ["ABCPLAY_OUTPUT_DIR", "ABCPLAY_LOG_LEVEL"]

/-- What comes of the settings `s` of files: the variables of the environment are laid over them and
listed. A directory may start at the user's own, wherever it was given. -/
structure Overlaid (home : Option String) (env : Environment) (s : Settings) (paths : List String)
    (loaded : Loaded) : Prop where
  velocity : Prevails (SaysByte env "ABCPLAY_VELOCITY") s.velocity loaded.settings.velocity
  channel : Prevails (SaysByte env "ABCPLAY_CHANNEL") s.channel loaded.settings.channel
  program : Prevails (fun p => ∃ b, p = some b ∧ SaysByte env "ABCPLAY_PROGRAM" b) s.program
    loaded.settings.program
  directory : ∃ given, Prevails
    (fun d => ∃ path, d = some path ∧ env.lookup? "ABCPLAY_OUTPUT_DIR" = some path) s.directory given ∧
    Option.Rel (Expands home) given loaded.settings.directory
  logLevel : Prevails (fun level => env.lookup? "ABCPLAY_LOG_LEVEL" = some level) s.logLevel
    loaded.settings.logLevel
  files : loaded.files = paths
  overrides : loaded.overrides.Sublist (byteVariables ++ textVariables)
  mem_overrides (name : String) : name ∈ loaded.overrides ↔
    name ∈ byteVariables ∧ (∃ b, SaysByte env name b) ∨
      name ∈ textVariables ∧ ∃ text, env.lookup? name = some text

def effective (lib : Libraries) (env : Environment) (s : Settings) : Settings where
  velocity := (variableByte? env "ABCPLAY_VELOCITY").getD s.velocity
  channel := (variableByte? env "ABCPLAY_CHANNEL").getD s.channel
  program := (variableByte? env "ABCPLAY_PROGRAM").or s.program
  directory := ((env.lookup? "ABCPLAY_OUTPUT_DIR").or s.directory).map (expand (lib.home? env))
  logLevel := (env.lookup? "ABCPLAY_LOG_LEVEL").getD s.logLevel

def effectiveNames (env : Environment) : List String :=
  (byteVariables.filter fun name => (variableByte? env name).isSome) ++
    textVariables.filter fun name => (env.lookup? name).isSome

theorem ofEnvironment_eq (lib : Libraries) (env : Environment) (s : Settings) :
    ofEnvironment lib env { s with directory := s.directory.map (expand (lib.home? env)) } =
      ⟨effective lib env s, effectiveNames env⟩ := by
  unfold ofEnvironment effective effectiveNames byteVariables textVariables
  simp only [List.filter_cons, List.filter_nil]
  generalize variableByte? env "ABCPLAY_VELOCITY" = velocity
  generalize variableByte? env "ABCPLAY_CHANNEL" = channel
  generalize variableByte? env "ABCPLAY_PROGRAM" = program
  generalize env.lookup? "ABCPLAY_OUTPUT_DIR" = directory
  generalize env.lookup? "ABCPLAY_LOG_LEVEL" = logLevel
  cases velocity <;> cases channel <;> cases program <;> cases directory <;> cases logLevel <;> rfl

theorem variableByte?_eq_some_iff {env : Environment} {name : String} {b : UInt8} :
    variableByte? env name = some b ↔ SaysByte env name b := by
  unfold variableByte? SaysByte Text.IsByte
  simp only [Option.bind_eq_bind, Option.bind_eq_some_iff, Text.numeral?_eq_some_iff,
    Word.fit8_eq_some_iff, exists_eq_right']

theorem expands_expand (home : Option String) (path : String) :
    Expands home path (expand home path) := by
  have hlist (rest : String) : path = "~/" ++ rest ↔ path.toList = '~' :: '/' :: rest.toList := by
    rw [← String.toList_inj]
    simp
  cases home with
  | none => exact .inr ⟨.inl rfl, rfl⟩
  | some directory =>
    unfold expand
    split
    · rename_i directory rest hhome hrest
      obtain rfl := Option.some.inj hhome
      refine .inl ⟨directory, String.ofList rest, rfl, ?_, rfl⟩
      rw [hlist, String.toList_ofList, hrest]
    · rename_i hother
      refine .inr ⟨.inr fun rest hrest => ?_, rfl⟩
      exact hother directory rest.toList rfl ((hlist rest).1 hrest)

theorem prevails_getD {α : Type} {told : α → Prop} {value : Option α}
    (h : ∀ a, value = some a ↔ told a) (otherwise : α) :
    Prevails told otherwise (value.getD otherwise) := by
  cases value with
  | some a => exact .inl ((h a).1 rfl)
  | none => exact .inr ⟨fun b hb => by simpa using (h b).2 hb, rfl⟩

theorem prevails_or {α : Type} {told : α → Prop} {value : Option α}
    (h : ∀ a, value = some a ↔ told a) (otherwise : Option α) :
    Prevails (fun o => ∃ a, o = some a ∧ told a) otherwise (value.or otherwise) := by
  cases value with
  | some a => exact .inl ⟨a, rfl, (h a).1 rfl⟩
  | none =>
    refine .inr ⟨?_, rfl⟩
    rintro _ ⟨a, rfl, ha⟩
    simpa using (h a).2 ha

theorem overlaid_effective (lib : Libraries) (env : Environment) (s : Settings)
    (paths : List String) :
    Overlaid (lib.home? env) env s paths ⟨effective lib env s, paths, effectiveNames env⟩ where
  velocity := prevails_getD (fun _ => variableByte?_eq_some_iff) s.velocity
  channel := prevails_getD (fun _ => variableByte?_eq_some_iff) s.channel
  program := prevails_or (fun _ => variableByte?_eq_some_iff) s.program
  directory := by
    refine ⟨_, prevails_or (fun _ => Iff.rfl) s.directory, ?_⟩
    change Option.Rel _ _ (((env.lookup? "ABCPLAY_OUTPUT_DIR").or s.directory).map _)
    cases (env.lookup? "ABCPLAY_OUTPUT_DIR").or s.directory with
    | none => exact .none
    | some path => exact .some (expands_expand _ path)
  logLevel := prevails_getD (fun _ => Iff.rfl) s.logLevel
  files := rfl
  overrides := List.filter_sublist.append List.filter_sublist
  mem_overrides name := by
    simp only [effectiveNames, List.mem_append, List.mem_filter, Option.isSome_iff_exists,
      variableByte?_eq_some_iff]

/-- What is wrong with a value that has to be in a range. -/
def violation? (key : String) (low high : UInt8) (value : Option UInt8) : Option SettingsError :=
  (value.filter fun v => v < low || high < v).map fun v => .outOfRange key v low high

def violations (s : Settings) : List SettingsError :=
  [violation? "midi.velocity" 1 127 (some s.velocity),
    violation? "midi.channel" 0 15 (some s.channel),
    violation? "midi.program" 0 127 s.program].filterMap id

theorem checkRange_eq (key : String) (value low high : UInt8) :
    checkRange key value low high =
      (violation? key low high (some value)).elim (.ok ()) .error := by
  unfold checkRange violation?
  by_cases h : low ≤ value ∧ value ≤ high
  · have hin : (value < low || high < value) = false := by
      simpa only [Bool.or_eq_false_iff, decide_eq_false_iff_not, UInt8.not_lt] using h
    rw [if_pos h, Option.filter_some, hin]
    rfl
  · have hout : (value < low || high < value) = true := by
      rw [not_and_or, UInt8.not_le, UInt8.not_le] at h
      simpa only [Bool.or_eq_true, decide_eq_true_eq] using h
    rw [if_neg h, Option.filter_some, hout]
    rfl

/-- Validation ends with the first thing that is wrong. -/
theorem validate_eq (s : Settings) : validate s = (violations s).head?.elim (.ok ()) .error := by
  unfold validate violations
  rw [checkRange_eq, checkRange_eq]
  cases violation? "midi.velocity" 1 127 (some s.velocity) with
  | some e => rfl
  | none =>
    cases violation? "midi.channel" 0 15 (some s.channel) with
    | some e => rfl
    | none =>
      cases s.program with
      | none => rfl
      | some program =>
        dsimp only [Option.elim_none]
        rw [checkRange_eq]
        cases violation? "midi.program" 0 127 (some program) <;> rfl

theorem ofTables_eq (lib : Libraries) (env : Environment) (files : List (String × Table)) :
    ofTables lib env files =
      (ofTable? lib (merged (files.map Prod.snd))).elim
        (.error (.malformed ((files.map Prod.fst).getLastD ""))) fun s =>
          (violations (effective lib env s)).head?.elim
            (.ok ⟨effective lib env s, files.map Prod.fst, effectiveNames env⟩) .error := by
  unfold ofTables
  rw [merged, List.foldl_map]
  cases ofTable? lib (files.foldl (fun base file => base.merge file.2) .nil) with
  | none => rfl
  | some s =>
    dsimp only [Option.elim_some]
    rw [ofEnvironment_eq, validate_eq]
    cases (violations (effective lib env s)).head? <;> rfl

theorem ofTables_eq_ok {lib : Libraries} {env : Environment} {files : List (String × Table)}
    {loaded : Loaded} (h : ofTables lib env files = .ok loaded) :
    ∃ s, ofTable? lib (merged (files.map Prod.snd)) = some s ∧
      violations (effective lib env s) = [] ∧
      loaded = ⟨effective lib env s, files.map Prod.fst, effectiveNames env⟩ := by
  rw [ofTables_eq] at h
  cases htable : ofTable? lib (merged (files.map Prod.snd)) with
  | none =>
    rw [htable] at h
    cases h
  | some s =>
    rw [htable, Option.elim_some] at h
    cases hhead : (violations (effective lib env s)).head? with
    | some e =>
      rw [hhead] at h
      cases h
    | none =>
      rw [hhead] at h
      exact ⟨s, rfl, List.head?_eq_none_iff.1 hhead, (Except.ok.inj h).symm⟩

theorem outOfRange_of_mem_violations {s : Settings} {e : SettingsError} (h : e ∈ violations s) :
    ∃ key value low high, e = .outOfRange key value low high := by
  obtain ⟨found, hfound, heq⟩ := List.mem_filterMap.1 h
  have hshape (key : String) (low high : UInt8) (value : Option UInt8)
      (hv : violation? key low high value = some e) :
      ∃ key value low high, e = .outOfRange key value low high := by
    obtain ⟨v, -, rfl⟩ := Option.map_eq_some_iff.1 hv
    exact ⟨key, v, low, high, rfl⟩
  simp only [List.mem_cons, List.not_mem_nil, or_false] at hfound
  rcases hfound with rfl | rfl | rfl <;> exact hshape _ _ _ _ heq

section

variable {lib : Libraries} (hlib : lib.ReadsValues) {env : Environment}
  {files : List (String × Table)} (h : ∀ file ∈ files, Layer file.2)

include hlib h

theorem ofTables_of_filed {s : Settings} (hs : Filed lib (files.map Prod.snd) s) :
    ofTables lib env files = (violations (effective lib env s)).head?.elim
      (.ok ⟨effective lib env s, files.map Prod.fst, effectiveNames env⟩) .error := by
  rw [ofTables_eq, (ofTable?_merged_eq_some_iff hlib (List.forall_mem_map.2 h)).2 hs]
  rfl

theorem ofTables_of_not_filed (hs : ¬∃ s, Filed lib (files.map Prod.snd) s) :
    ofTables lib env files = .error (.malformed ((files.map Prod.fst).getLastD "")) := by
  have htable : ofTable? lib (merged (files.map Prod.snd)) = none := by
    rw [Option.eq_none_iff_forall_ne_some]
    intro s hsome
    exact hs ⟨s, (ofTable?_merged_eq_some_iff hlib (List.forall_mem_map.2 h)).1 hsome⟩
  rw [ofTables_eq, htable]
  rfl

/-- Values that are of their kinds may be outside their ranges, but they are not malformed. -/
theorem ofTables_ne_malformed {s : Settings} (hs : Filed lib (files.map Prod.snd) s)
    (path : String) : ofTables lib env files ≠ .error (.malformed path) := by
  rw [ofTables_of_filed hlib h hs]
  cases hhead : (violations (effective lib env s)).head? with
  | none => simp
  | some e =>
    obtain ⟨key, value, low, high, rfl⟩ := outOfRange_of_mem_violations (List.mem_of_head? hhead)
    simp

theorem filed_of_ofTables {loaded : Loaded} (hloaded : ofTables lib env files = .ok loaded) :
    ∃ s, Filed lib (files.map Prod.snd) s ∧
      loaded = ⟨effective lib env s, files.map Prod.fst, effectiveNames env⟩ := by
  obtain ⟨s, hs, -, rfl⟩ := ofTables_eq_ok hloaded
  exact ⟨s, (ofTable?_merged_eq_some_iff hlib (List.forall_mem_map.2 h)).1 hs, rfl⟩

end

/-- Settings on any machine, from the files that are there and for the tables of their texts. If they
are loaded, each is what its variable says, else what the last table says that defines its key, else
the default, and the variables that took effect are listed. The tables are found malformed if and
only if a last definition is of the wrong kind; what later tables replace is not looked at. If all of
these are of the right kind, the first value that is outside its range is reported, and without one
there is no error. -/
theorem load_layered {σ : Type} {host : Host (StateM σ)} {fs : FileSystem} {files : σ → fs.Files}
    (hhost : host.WorksOn fs files) {lib : Libraries} (hlib : lib.ReadsValues) (state : σ)
    (env : Environment) (asked : Option String) {tables : List Table}
    (htables : List.Forall₂ (Holds lib fs (files state))
      (sources lib fs (files state) env asked) tables)
    (hlayers : ∀ t ∈ tables, Layer t) :
    let paths := sources lib fs (files state) env asked
    let result := ((load lib host env asked).run state).1
    files ((load lib host env asked).run state).2 = files state ∧
    (∀ loaded, result = .ok loaded →
      ∃ s, Filed lib tables s ∧ Overlaid (lib.home? env) env s paths loaded) ∧
    (result = .error (.malformed (paths.getLastD "")) ↔ ¬∃ s, Filed lib tables s) ∧
    ∀ s, Filed lib tables s →
      ∃ loaded, Overlaid (lib.home? env) env s paths loaded ∧
        result = (violations loaded.settings).head?.elim (.ok loaded) .error := by
  intro paths result
  obtain ⟨hresult, hfiles⟩ := runs_load hhost htables state rfl
  have hlength : paths.length = tables.length := htables.length_eq
  have hfst : (paths.zip tables).map Prod.fst = paths := List.map_fst_zip hlength.le
  have hsnd : (paths.zip tables).map Prod.snd = tables := List.map_snd_zip hlength.ge
  have hzip : ∀ file ∈ paths.zip tables, Layer file.2 := fun file hfile =>
    hlayers file.2 (List.of_mem_zip hfile).2
  have hof := @ofTables_of_filed lib hlib env _ hzip
  have hnot := @ofTables_of_not_filed lib hlib env _ hzip
  have hne := @ofTables_ne_malformed lib hlib env _ hzip
  have hok := @filed_of_ofTables lib hlib env _ hzip
  rw [hsnd] at hof hnot hne hok
  rw [hfst] at hof hnot hok
  change result = ofTables lib env (paths.zip tables) at hresult
  rw [hresult]
  refine ⟨hfiles, ?_, ⟨?_, hnot⟩, ?_⟩
  · intro loaded hloaded
    obtain ⟨s, hs, rfl⟩ := hok hloaded
    exact ⟨s, hs, overlaid_effective lib env s paths⟩
  · rintro hmalformed ⟨s, hs⟩
    exact hne hs _ hmalformed
  · intro s hs
    exact ⟨_, overlaid_effective lib env s paths, hof hs⟩

/-- A velocity that is no number, but is replaced, beside keys that stay. -/
def layered : Machine where
  disk := ⟨[(["etc"], .directory), (["etc", "abcplay"], .directory),
    (["etc", "abcplay", "config.toml"], .file
      "[midi]\nvelocity = \"loud\"\nchannel = 3\nprogram = 5\n[output]\ndirectory = \"~/midi\"\n".toUTF8),
    (["abcplay.toml"], .file "[midi]\nvelocity = 100\n".toUTF8)], []⟩
  output := ""
  errors := ""

/-- Variables of which one is no number and does not count. -/
def layeredEnvironment : Environment where
  account := some "/home/a"
  assignments := [("XDG_CONFIG_HOME", "/etc"), ("ABCPLAY_CHANNEL", "+9"),
    ("ABCPLAY_PROGRAM", "harp"), ("ABCPLAY_LOG_LEVEL", "debug")]

theorem load_layered_replaced :
    let paths := ["/etc/abcplay/config.toml", "abcplay.toml"]
    let loaded : Loaded := ⟨⟨100, 9, some 5, some "/home/a/midi", "debug"⟩, paths,
      ["ABCPLAY_CHANNEL", "ABCPLAY_LOG_LEVEL"]⟩
    ((load .standard Machine.host layeredEnvironment none).run layered).1 = .ok loaded ∧
    ∃ tables s,
      List.Forall₂ (Holds .standard Disk.fileSystem layered.disk) paths tables ∧
      Filed .standard tables s ∧ Overlaid (some "/home/a") layeredEnvironment s paths loaded := by
  intro paths loaded
  have hresult : ((load .standard Machine.host layeredEnvironment none).run layered).1 =
      .ok loaded := by decide +kernel
  have hsources : sources .standard Disk.fileSystem layered.disk layeredEnvironment none =
      paths := by decide +kernel
  have htable (path : String) (hpath : path ∈ paths) :
      ∃ t, Holds .standard Disk.fileSystem layered.disk path t ∧ Layer t := by
    have hany : ∀ path ∈ paths, ((Disk.fileSystem.text layered.disk path).toOption.bind
        Libraries.standard.table?).any (fun t => decide (Layer t)) = true := by decide +kernel
    obtain ⟨t, ht, hlayer⟩ := exists_holds (hany path hpath)
    exact ⟨t, ht, of_decide_eq_true hlayer⟩
  obtain ⟨user, huser, hlayer⟩ := htable "/etc/abcplay/config.toml" (by decide)
  obtain ⟨here, hhere, hlayer'⟩ := htable "abcplay.toml" (by decide)
  have htables : List.Forall₂ (Holds .standard Disk.fileSystem layered.disk) paths [user, here] :=
    .cons huser (.cons hhere .nil)
  have hlayers : ∀ t ∈ [user, here], Layer t := by
    rw [List.forall_mem_cons, List.forall_mem_singleton]
    exact ⟨hlayer, hlayer'⟩
  obtain ⟨-, hok, -⟩ := load_layered Machine.host_worksOn Libraries.standard_readsValues layered
    layeredEnvironment none (hsources ▸ htables) hlayers
  obtain ⟨s, hs, hover⟩ := hok loaded hresult
  rw [hsources] at hover
  exact ⟨hresult, [user, here], s, htables, hs, hover⟩

end Settings

end Tunebook
