import Tunebook.Libraries.Standard

namespace Tunebook

/-- Bytes that are in the ranges of their options. -/
structure Command.Ranges.Allow (r : Ranges) (velocity channel program : Option UInt8) : Prop where
  velocity : ∀ v ∈ velocity, r.velocity.1 ≤ v ∧ v ≤ r.velocity.2
  channel : ∀ c ∈ channel, r.channel.1 ≤ c ∧ c ≤ r.channel.2
  program : ∀ p ∈ program, r.program.1 ≤ p ∧ p ≤ r.program.2

/-- What settings rely on. Bytes are read from integers that are bytes, and texts from texts or, in
their own way, from moments. -/
structure Libraries.ReadsValues (lib : Libraries) : Prop where
  members?_table (keys : List String) (t : Toml.Table) : lib.members? keys (.table t) = some t
  byte?_eq_some_iff {v : Toml.Value} {b : UInt8} : lib.byte? v = some b ↔ v = .integer b.toNat
  text?_text (s : String) : lib.text? (.text s) = some s
  text_or_moment {v : Toml.Value} {s : String} :
    lib.text? v = some s → v = .text s ∨ ∃ m, v = .moment m

/-- A value that a setting takes as a text. -/
def Libraries.IsText (lib : Libraries) (v : Toml.Value) (s : String) : Prop :=
  v = .text s ∨ (∃ m, v = .moment m) ∧ lib.text? v = some s

namespace Libraries.ReadsValues

variable {lib : Libraries} (h : lib.ReadsValues)

include h

theorem byte?_table (t : Toml.Table) : lib.byte? (.table t) = none := by
  rw [Option.eq_none_iff_forall_ne_some]
  intro b hb
  cases h.byte?_eq_some_iff.1 hb

theorem text?_table (t : Toml.Table) : lib.text? (.table t) = none := by
  rw [Option.eq_none_iff_forall_ne_some]
  intro s hs
  rcases h.text_or_moment hs with hv | ⟨m, hv⟩ <;> cases hv

theorem text?_eq_some_iff {v : Toml.Value} {s : String} :
    lib.text? v = some s ↔ lib.IsText v s := by
  constructor
  · intro hs
    rcases h.text_or_moment hs with hv | hm
    · exact .inl hv
    · exact .inr ⟨hm, hs⟩
  · rintro (rfl | ⟨-, hs⟩)
    · exact h.text?_text s
    · exact hs

end Libraries.ReadsValues

/-- What the arguments rely on: a command line with a byte outside its range is refused. -/
def Libraries.KeepsRanges (lib : Libraries) : Prop :=
  ∀ (r : Command.Ranges) (env : Environment) (args : List String) (a : Command.Arguments),
    lib.arguments r env args = .ok a → r.Allow a.velocity a.channel a.program

namespace Libraries

open Command (Arguments Ranges Stop)

theorem byteOf?_eq_some_iff {v : Toml.Value} {b : UInt8} :
    byteOf? v = some b ↔ v = .integer b.toNat := by
  cases v with
  | integer z =>
    rw [byteOf?, Toml.Value.integer.injEq]
    split
    · rw [Word.fit8_eq_some_iff]
      omega
    · simp
      omega
  | _ => simp [byteOf?]

theorem standard_readsValues : standard.ReadsValues where
  members?_table _ _ := rfl
  byte?_eq_some_iff := byteOf?_eq_some_iff
  text?_text _ := rfl
  text_or_moment {v s} h := by
    cases v with
    | text s' =>
      obtain rfl := Option.some.inj h
      exact .inl rfl
    | moment m => exact .inr ⟨m, rfl⟩
    | integer | other | list | table => cases h

namespace Given

/-- What has been set so far is in its range. -/
def InRange (g : Given) (r : Ranges) : Prop :=
  r.Allow g.velocity g.channel g.program

theorem inRange_none (r : Ranges) : InRange none r := by
  refine ⟨?_, ?_, ?_⟩ <;> simp [none]

theorem byte?_bounds {range : UInt8 × UInt8} {text : String} {v : UInt8}
    (h : byte? range text = some v) : range.1 ≤ v ∧ v ≤ range.2 := by
  obtain ⟨n, hn, hv⟩ := Option.bind_eq_some_iff.1 h
  have hbounds : range.1.toNat ≤ n ∧ n ≤ range.2.toNat := by
    unfold number? at hn
    split at hn
    · split at hn
      · obtain rfl := Option.some.inj hn
        omega
      · cases hn
    · cases hn
  rw [UInt8.le_iff_toNat_le, UInt8.le_iff_toNat_le, Word.fit8_eq_some_iff.1 hv]
  exact hbounds

theorem once_eq_ok {α : Type} {old new : Option α} {put : Option α → Given} {g : Given}
    (h : once old new put = .ok g) : ∃ a, new = some a ∧ g = put (some a) := by
  unfold once at h
  split at h
  · exact ⟨_, rfl, (Except.ok.inj h).symm⟩
  · cases h

variable {g g' : Given} {r : Ranges}

theorem InRange.setValue (hg : g.InRange r) {option : ValueOption} {text : String}
    (h : g.setValue r option text = .ok g') : g'.InRange r := by
  unfold Given.setValue at h
  cases option with
  | velocity =>
    obtain ⟨v, hv, rfl⟩ := once_eq_ok h
    refine ⟨?_, hg.channel, hg.program⟩
    rintro _ ⟨⟩
    exact byte?_bounds hv
  | channel =>
    obtain ⟨c, hc, rfl⟩ := once_eq_ok h
    refine ⟨hg.velocity, ?_, hg.program⟩
    rintro _ ⟨⟩
    exact byte?_bounds hc
  | program =>
    obtain ⟨p, hp, rfl⟩ := once_eq_ok h
    refine ⟨hg.velocity, hg.channel, ?_⟩
    rintro _ ⟨⟩
    exact byte?_bounds hp
  | output | config | tempo =>
    obtain ⟨a, -, rfl⟩ := once_eq_ok h
    exact hg

theorem InRange.setFlag (hg : g.InRange r) {flag : Flag} (h : g.setFlag flag = .ok g') :
    g'.InRange r := by
  cases flag with
  | check | events =>
    simp only [Given.setFlag] at h
    split at h
    · cases h
    · obtain rfl := Except.ok.inj h
      exact hg
  | verbose =>
    obtain rfl := Except.ok.inj h
    exact hg
  | help | version => cases h

theorem InRange.setFile (hg : g.InRange r) {text : String} (h : g.setFile text = .ok g') :
    g'.InRange r := by
  obtain ⟨a, -, rfl⟩ := once_eq_ok h
  exact hg

theorem map_eq_ok {x : Except Stop Given} {waiting : Option ValueOption}
    {result : Given × Option ValueOption} (h : x.map (fun g => (g, waiting)) = .ok result) :
    x = .ok result.1 := by
  cases x with
  | error stop => cases h
  | ok g =>
    obtain rfl := Except.ok.inj h
    rfl

theorem InRange.setLetters (hg : g.InRange r) {letters : List Char}
    {result : Given × Option ValueOption} (h : g.setLetters r letters = .ok result) :
    result.1.InRange r := by
  induction letters generalizing g with
  | nil =>
    obtain rfl := Except.ok.inj h
    exact hg
  | cons c cs ih =>
    rw [Given.setLetters.eq_def] at h
    dsimp only at h
    split at h
    · cases h
    · split at h
      · cases h
      · rename_i hflag
        exact ih (hg.setFlag hflag) h
    · split at h
      · obtain rfl := Except.ok.inj h
        exact hg
      · exact hg.setValue (map_eq_ok h)
      · exact hg.setValue (map_eq_ok h)

theorem InRange.setName (hg : g.InRange r) {name : List Char} {result : Given × Option ValueOption}
    (h : g.setName r name = .ok result) : result.1.InRange r := by
  unfold Given.setName at h
  dsimp only at h
  split at h
  · exact hg.setValue (map_eq_ok h)
  · obtain rfl := Except.ok.inj h
    exact hg
  · exact hg.setFlag (map_eq_ok h)
  · cases h

theorem InRange.setFiles (hg : g.InRange r) {args : List String}
    (h : args.foldlM Given.setFile g = .ok g') : g'.InRange r := by
  induction args generalizing g with
  | nil =>
    obtain rfl := Except.ok.inj h
    exact hg
  | cons arg args ih =>
    rw [List.foldlM_cons] at h
    cases hfile : g.setFile arg with
    | error stop =>
      rw [hfile] at h
      cases h
    | ok next =>
      rw [hfile] at h
      exact ih (hg.setFile hfile) h

theorem InRange.read (hg : g.InRange r) {waiting : Option ValueOption} {args : List String}
    (h : g.read r waiting args = .ok g') : g'.InRange r := by
  induction args generalizing g waiting with
  | nil =>
    rw [Given.read.eq_def] at h
    dsimp only at h
    split at h
    · cases h
    · obtain rfl := Except.ok.inj h
      exact hg
  | cons arg args ih =>
    rw [Given.read.eq_def] at h
    dsimp only at h
    split at h
    · split at h
      · cases h
      · split at h
        · cases h
        · rename_i hvalue
          exact ih (hg.setValue hvalue) h
    · split at h
      · exact hg.setFiles h
      · split at h
        · cases h
        · rename_i hname
          exact ih (hg.setName hname) h
      · split at h
        · cases h
        · rename_i hletters
          exact ih (hg.setLetters hletters) h
      · split at h
        · cases h
        · rename_i hfile
          exact ih (hg.setFile hfile) h

end Given

theorem allow_of_readArguments {r : Ranges} {env : Environment} {args : List String}
    {a : Arguments} (h : readArguments r env args = .ok a) :
    r.Allow a.velocity a.channel a.program := by
  unfold readArguments at h
  cases hread : Given.none.read r none args with
  | error stop =>
    rw [hread] at h
    cases h
  | ok g =>
    have hg : g.InRange r := (Given.inRange_none r).read hread
    rw [hread] at h
    simp only [bind, Except.bind] at h
    split at h
    · split at h
      · cases h
      · rename_i hconfig
        split at h
        · cases h
        · obtain rfl := Except.ok.inj h
          exact hg.setValue hconfig
    · split at h
      · cases h
      · obtain rfl := Except.ok.inj h
        exact hg

theorem standard_keepsRanges : standard.KeepsRanges :=
  fun _ _ _ _ => allow_of_readArguments

end Libraries

end Tunebook
