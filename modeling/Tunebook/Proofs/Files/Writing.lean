import Tunebook.Proofs.Files.FileSystem
import Tunebook.Proofs.Text

namespace Tunebook.Disk

def Target.location? : Target → Option Location
  | .directory _ => none
  | .file loc _ | .absent loc => some loc

def place? (d : Disk) (path : String) : Option Location :=
  (d.find path).toOption.bind Target.location?

def fileSystem : FileSystem where
  Files := Disk
  Place := Location
  isPresent := isPresent
  read := read
  write := write
  place? := place?
  entry? d loc := d.entry? loc

variable {d : Disk} {loc : Location} {content : ByteArray}

theorem entry?_set_self (e : Entry) (h : loc ≠ []) : entry? (d.set loc e) loc = some e := by
  have hne : ¬loc.isEmpty = true := fun hempty => h (List.isEmpty_iff.1 hempty)
  rw [ entry?, if_neg hne, set, List.lookup_cons_self]

theorem entry?_set_ne (e : Entry) {other : Location} (h : other ≠ loc) :
    entry? (d.set loc e) other = d.entry? other := by
  have hfilter (entries : List (Location × Entry)) :
      (entries.filter fun entry => entry.1 != loc).lookup other = entries.lookup other := by
    induction entries with
    | nil => rfl
    | cons entry entries ih =>
      obtain ⟨place, old⟩ := entry
      by_cases hplace : place = loc
      · have hbeq : (other == place) = false := by
          rw [hplace]
          exact beq_false_of_ne h
        rw [List.filter_cons, if_neg (by simp [hplace]), List.lookup_cons, hbeq, ih]
      · rw [List.filter_cons, if_pos (by simp [hplace]), List.lookup_cons, List.lookup_cons, ih]
  unfold entry? set
  rw [List.lookup_cons, beq_false_of_ne h]
  simp only [hfilter]

theorem entry?_ne_directory {here : Location} {parts : List String} {target : Target}
    (h : d.walk here parts = .ok target) (hloc : target.location? = some loc) :
    d.entry? loc ≠ some .directory := by
  fun_induction walk d here parts with
  | case1 here =>
    obtain rfl := Except.ok.inj h
    cases hloc
  | case2 here part rest hstay ih => exact ih h
  | case3 here rest _ ih => exact ih h
  | case4 => cases h
  | case5 here part rest _ _ _ there hentry ih => exact ih h
  | case6 here part rest _ _ _ there old hentry hlast =>
    obtain rfl := Except.ok.inj h
    obtain rfl := Option.some.inj hloc
    rw [hentry]
    simp
  | case7 => cases h
  | case8 here part rest _ _ _ there hentry hlast =>
    obtain rfl := Except.ok.inj h
    obtain rfl := Option.some.inj hloc
    rw [hentry]
    simp
  | case9 => cases h

theorem walk_of_file {here : Location} {part : String} {rest : List String}
    (hstay : ¬(part = "" ∨ part = ".")) (hup : ¬part = "..") (hlong : ¬maxName < part.utf8ByteSize)
    (hentry : d.entry? (here ++ [part]) = some (.file content)) (hlast : rest.isEmpty = true) :
    d.walk here (part :: rest) = .ok (.file (here ++ [part]) content) := by
  rw [walk, if_neg hstay, if_neg hup, if_neg hlong]
  dsimp only
  rw [hentry]
  dsimp only
  rw [if_pos hlast]

/-- Once a file is put where a walk led, the same walk finds it. The walk goes through directories
alone, and none of them is where the file is. -/
theorem walk_set {here : Location} {parts : List String} {target : Target}
    (h : d.walk here parts = .ok target) (hloc : target.location? = some loc) :
    (d.set loc (.file content)).walk here parts = .ok (.file loc content) := by
  have hfree := entry?_ne_directory h hloc
  have hroot : loc ≠ [] := by
    rintro rfl
    exact hfree rfl
  fun_induction walk d here parts with
  | case1 here =>
    obtain rfl := Except.ok.inj h
    cases hloc
  | case2 here part rest hstay ih =>
    rw [walk, if_pos hstay]
    exact ih h
  | case3 here rest hstay ih =>
    rw [walk, if_neg hstay, if_pos rfl]
    exact ih h
  | case4 => cases h
  | case5 here part rest hstay hup hlong there hentry ih =>
    have hne : there ≠ loc := by
      intro heq
      rw [heq] at hentry
      exact hfree hentry
    have hkept : entry? (d.set loc (.file content)) there = some .directory := by
      rw [entry?_set_ne _ hne, hentry]
    rw [walk, if_neg hstay, if_neg hup, if_neg hlong]
    dsimp only
    rw [hkept]
    exact ih h
  | case6 here part rest hstay hup hlong there old hentry hlast =>
    obtain rfl := Except.ok.inj h
    obtain rfl := Option.some.inj hloc
    exact walk_of_file hstay hup hlong (entry?_set_self _ hroot) hlast
  | case7 => cases h
  | case8 here part rest hstay hup hlong there hentry hlast =>
    obtain rfl := Except.ok.inj h
    obtain rfl := Option.some.inj hloc
    exact walk_of_file hstay hup hlong (entry?_set_self _ hroot) hlast
  | case9 => cases h

theorem find_eq_ok {path : String} {target : Target} (h : d.find path = .ok target) :
    checkPath path = .ok () ∧ d.walk (d.start path) (Path.parts path) = .ok target := by
  unfold find at h
  split at h
  · cases h
  · rename_i hcheck
    exact ⟨hcheck, h⟩

theorem find_set {path : String} {target : Target} (h : d.find path = .ok target)
    (hloc : target.location? = some loc) :
    (d.set loc (.file content)).find path = .ok (.file loc content) := by
  obtain ⟨hcheck, hwalk⟩ := find_eq_ok h
  rw [find, hcheck]
  exact walk_set hwalk hloc

theorem write_eq_ok {path : String} {after : Disk} (h : d.write path content = .ok after) :
    ∃ target loc, d.find path = .ok target ∧ target.location? = some loc ∧
      after = d.set loc (.file content) := by
  unfold write at h
  split at h
  · cases h
  · split at h
    · cases h
    · split at h
      · cases h
      · cases h
      · rename_i loc old hfind
        exact ⟨_, loc, hfind, rfl, (Except.ok.inj h).symm⟩
      · rename_i loc hfind
        exact ⟨_, loc, hfind, rfl, (Except.ok.inj h).symm⟩

theorem stored_of_write {path : String} {after : Disk} (h : d.write path content = .ok after) :
    fileSystem.Stored d path content after := by
  obtain ⟨target, loc, hfind, hloc, rfl⟩ := write_eq_ok h
  have hfound := @find_set d loc content path target hfind hloc
  have hplace : d.place? path = some loc := by
    rw [place?, hfind]
    exact hloc
  have hroot : loc ≠ [] := by
    rintro rfl
    exact entry?_ne_directory (find_eq_ok hfind).2 hloc rfl
  refine ⟨?_, loc, hplace, entry?_set_self _ hroot, fun other hother => entry?_set_ne _ hother⟩
  change (d.set loc (.file content)).read path = .ok content
  rw [read, hfound]

/-- A walk whose last part is empty or made of dots ends at a directory. -/
theorem location?_of_walk_concat {here : Location} {parts : List String} {last : String}
    {target : Target} (hlast : last = "" ∨ last = "." ∨ last = "..")
    (h : d.walk here (parts ++ [last]) = .ok target) : target.location? = none := by
  induction parts generalizing here with
  | nil =>
    rw [List.nil_append, walk] at h
    rcases hlast with rfl | rfl | rfl
    · rw [if_pos (.inl rfl)] at h
      obtain rfl := Except.ok.inj h
      rfl
    · rw [if_pos (.inr rfl)] at h
      obtain rfl := Except.ok.inj h
      rfl
    · rw [if_neg (by decide), if_pos rfl] at h
      obtain rfl := Except.ok.inj h
      rfl
  | cons part parts ih =>
    rw [List.cons_append, walk, show (parts ++ [last]).isEmpty = false by simp] at h
    dsimp only at h
    split at h
    · exact ih h
    · split at h
      · exact ih h
      · split at h
        · cases h
        · split at h
          · exact ih h
          · cases h
          · cases h

theorem exists_parts_concat {path : String} {folder name : List Char}
    (hpath : path.toList = folder ++ name) (hf : Path.EndsIn '/' folder) (hn : '/' ∉ name) :
    ∃ parts, Path.parts path = parts ++ [String.ofList name] := by
  unfold Path.parts
  rw [hpath]
  induction folder using List.reverseRecOn with
  | nil => exact ⟨[], by rw [List.nil_append, Text.splitAll_of_not_mem hn]; rfl⟩
  | append_singleton before c _ =>
    obtain rfl : c = '/' := hf c (by simp)
    refine ⟨(Text.splitAll '/' before).map String.ofList, ?_⟩
    rw [List.append_assoc, List.singleton_append, Text.splitAll_append_cons, Text.splitAll_of_not_mem hn,
      List.map_append]
    rfl

theorem named_of_find {path : String} {target : Target} (h : d.find path = .ok target)
    (hloc : target.location? = some loc) : Path.Named path := by
  obtain ⟨folder, name, hpath, hfolder, hslash⟩ := Path.exists_lastMark '/' path.toList
  refine ⟨folder, name, hpath, hfolder, hslash, ?_⟩
  by_contra hname
  obtain ⟨parts, hparts⟩ := exists_parts_concat hpath hfolder hslash
  have hlast : String.ofList name = "" ∨ String.ofList name = "." ∨ String.ofList name = ".." := by
    rw [Path.isName_iff] at hname
    simp only [← String.toList_inj, String.toList_ofList]
    tauto
  have hwalk := (find_eq_ok h).2
  rw [hparts] at hwalk
  rw [location?_of_walk_concat hlast hwalk] at hloc
  cases hloc

theorem read_eq_ok {path : String} (h : d.read path = .ok content) :
    ∃ loc, d.find path = .ok (.file loc content) := by
  unfold read at h
  split at h
  · cases h
  · cases h
  · cases h
  · rename_i loc old hfind
    obtain rfl := Except.ok.inj h
    exact ⟨loc, hfind⟩

theorem fileSystem_lawful : fileSystem.Lawful where
  stored := stored_of_write
  named_of_read h := by
    obtain ⟨loc, hfind⟩ := read_eq_ok h
    exact named_of_find hfind rfl
  named_of_write h := by
    obtain ⟨target, loc, hfind, hloc, -⟩ := write_eq_ok h
    exact named_of_find hfind hloc

end Tunebook.Disk

namespace Tunebook.Machine

theorem host_worksOn : Machine.host.WorksOn Disk.fileSystem Machine.disk where
  isPresent := by
    rintro _ path machine rfl
    exact ⟨rfl, rfl⟩
  read := by
    rintro _ path machine rfl
    exact ⟨rfl, rfl⟩
  write := by
    rintro _ path content machine rfl
    change _ = ((machine.disk.write path content).map fun _ => ()) ∧
      _ = (machine.disk.write path content).toOption.getD machine.disk
    simp only [Machine.host, StateT.run_bind, StateT.run_get, pure_bind]
    cases machine.disk.write path content <;> exact ⟨rfl, rfl⟩
  print := by
    rintro _ text machine rfl
    exact ⟨rfl, rfl⟩
  complain := by
    rintro _ text machine rfl
    exact ⟨rfl, rfl⟩

end Tunebook.Machine
