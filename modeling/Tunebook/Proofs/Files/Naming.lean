import Mathlib.Data.List.Induction
import Tunebook.Command.Run

namespace Tunebook

namespace Path

/-- Nothing, or a text up to a mark. -/
def EndsIn (mark : Char) (cs : List Char) : Prop :=
  ∀ c ∈ cs.getLast?, c = mark

/-- A path that ends in the name of a file. -/
def Named (path : String) : Prop :=
  ∃ folder name, path.toList = folder ++ name ∧ EndsIn '/' folder ∧ '/' ∉ name ∧
    isName name = true

/-- A path in its parts: the folder with its slash, the stem of the name and the extension with its
dot. A dot that comes first belongs to the stem. -/
structure Parts (path folder stem ext : String) : Prop where
  eq : path = folder ++ stem ++ ext
  endsIn : EndsIn '/' folder.toList
  ne_empty : stem ≠ ""
  no_slash : '/' ∉ (stem ++ ext).toList
  ne_dots : stem ++ ext ≠ "." ∧ stem ++ ext ≠ ".."
  dot : ext = "" ∧ '.' ∉ stem.toList.tail ∨
    ∃ letters, ext = "." ++ letters ∧ '.' ∉ letters.toList

theorem endsIn_nil (mark : Char) : EndsIn mark [] := by
  simp [EndsIn]

theorem endsIn_concat (cs : List Char) (mark : Char) : EndsIn mark (cs ++ [mark]) := by
  simp [EndsIn]

theorem takeWhile_reverse_eq {mark : Char} {before after : List Char} (hb : EndsIn mark before)
    (ha : mark ∉ after) : ((before ++ after).reverse.takeWhile (· != mark)).reverse = after := by
  have hafter : ∀ c ∈ after.reverse, (c != mark) = true := by
    intro c hc
    rw [List.mem_reverse] at hc
    exact bne_iff_ne.2 (ne_of_mem_of_not_mem hc ha)
  have hbefore : before.reverse.takeWhile (· != mark) = [] := by
    rw [EndsIn, ← List.head?_reverse] at hb
    cases hr : before.reverse with
    | nil => rfl
    | cons c cs =>
      rw [hr] at hb
      rw [List.takeWhile_cons, hb c rfl]
      simp
  rw [List.reverse_append, List.takeWhile_append_of_pos hafter, hbefore, List.append_nil,
    List.reverse_reverse]

theorem exists_lastMark (mark : Char) (cs : List Char) :
    ∃ before after, cs = before ++ after ∧ EndsIn mark before ∧ mark ∉ after := by
  induction cs using List.reverseRecOn with
  | nil => exact ⟨[], [], rfl, endsIn_nil mark, List.not_mem_nil⟩
  | append_singleton cs c ih =>
    obtain ⟨before, after, rfl, hbefore, hafter⟩ := ih
    by_cases hc : c = mark
    · rw [hc]
      exact ⟨_, [], (List.append_nil _).symm, endsIn_concat _ mark, List.not_mem_nil⟩
    · refine ⟨before, after ++ [c], List.append_assoc .., hbefore, ?_⟩
      simp [hafter, Ne.symm hc]

section

variable {folder name stem ext : List Char}

theorem splitName_append (hf : EndsIn '/' folder) (hn : '/' ∉ name) :
    splitName (folder ++ name) = (folder, name) := by
  unfold splitName
  rw [takeWhile_reverse_eq hf hn]
  simp

theorem splitExtension_append (hs : stem ≠ []) (he : '.' ∉ ext) :
    splitExtension (stem ++ '.' :: ext) = (stem, some ext) := by
  have hsplit : stem ++ '.' :: ext = (stem ++ ['.']) ++ ext := by simp
  have hlast := takeWhile_reverse_eq (endsIn_concat stem '.') he
  have hlength : (stem ++ '.' :: ext).length - ext.length - 1 = stem.length := by
    rw [List.length_append, List.length_cons]
    omega
  unfold splitExtension
  rw [hsplit, hlast, ← hsplit]
  dsimp only
  rw [hlength, List.take_left, if_neg hs]

theorem splitExtension_of_not_mem (h : '.' ∉ name.tail) : splitExtension name = (name, none) := by
  have hsplit : ∃ before, EndsIn '.' before ∧ ∃ after, '.' ∉ after ∧ name = before ++ after ∧
      before.length ≤ 1 := by
    cases name with
    | nil => exact ⟨[], endsIn_nil '.', [], by simp, rfl, by simp⟩
    | cons c cs =>
      rw [List.tail_cons] at h
      by_cases hc : c = '.'
      · rw [hc]
        exact ⟨['.'], endsIn_concat [] '.', cs, h, rfl, by simp⟩
      · exact ⟨[], endsIn_nil '.', c :: cs, by simp [h, Ne.symm hc], rfl, by simp⟩
  obtain ⟨before, hbefore, after, hafter, rfl, hlength⟩ := hsplit
  have hzero : (before ++ after).length - after.length - 1 = 0 := by
    rw [List.length_append]
    omega
  unfold splitExtension
  rw [takeWhile_reverse_eq hbefore hafter]
  dsimp only
  rw [hzero, List.take_zero, if_pos rfl]

theorem exists_extension (hn : name ≠ []) :
    '.' ∉ name.tail ∨ ∃ stem ext, stem ≠ [] ∧ '.' ∉ ext ∧ name = stem ++ '.' :: ext := by
  obtain ⟨before, after, rfl, hbefore, hafter⟩ := exists_lastMark '.' name
  induction before using List.reverseRecOn with
  | nil => exact .inl fun h => hafter (List.mem_of_mem_tail h)
  | append_singleton stem c =>
    have hc : c = '.' := hbefore c (by simp)
    subst hc
    cases stem with
    | nil => exact .inl hafter
    | cons c cs => exact .inr ⟨c :: cs, after, by simp, hafter, by simp⟩

theorem setExtension_append (hf : EndsIn '/' folder) (hn : '/' ∉ name) (h : isName name = true)
    (new : List Char) :
    setExtension (folder ++ name) new = folder ++ (splitExtension name).1 ++ '.' :: new := by
  unfold setExtension
  rw [splitName_append hf hn]
  dsimp only
  rw [if_pos h]

theorem dropExtension_append (hf : EndsIn '/' folder) (hn : '/' ∉ stem ++ '.' :: ext)
    (h : isName (stem ++ '.' :: ext) = true) (hs : stem ≠ []) (he : '.' ∉ ext) :
    dropExtension (folder ++ (stem ++ '.' :: ext)) = folder ++ (stem ++ ['.']) := by
  unfold dropExtension
  rw [splitName_append hf hn]
  dsimp only
  rw [splitExtension_append hs he]
  dsimp only
  rw [if_pos h, List.append_assoc]

theorem dropExtension_of_not_mem (hf : EndsIn '/' folder) (hn : '/' ∉ name)
    (h : '.' ∉ name.tail) : dropExtension (folder ++ name) = folder ++ name := by
  unfold dropExtension
  rw [splitName_append hf hn]
  dsimp only
  rw [splitExtension_of_not_mem h]

theorem isName_append_cons (hs : stem ≠ []) (c : Char) (hext : ext ≠ []) :
    isName (stem ++ c :: ext) = true := by
  have hlength : 3 ≤ (stem ++ c :: ext).length := by
    have := List.length_pos_iff.2 hs
    have := List.length_pos_iff.2 hext
    simp
    omega
  have hne (other : List Char) (hother : other.length < 3) : stem ++ c :: ext ≠ other := by
    rintro rfl
    omega
  simp [isName, hne ['.'] (by simp), hne ['.', '.'] (by simp)]

theorem isName_iff : isName name = true ↔ name ≠ [] ∧ name ≠ ['.'] ∧ name ≠ ['.', '.'] := by
  simp [isName, and_assoc]

end

section

variable {path folder stem ext : String}

theorem fileName?_append {name : String} (hf : EndsIn '/' folder.toList) (hn : '/' ∉ name.toList) :
    fileName? (folder ++ name) = if isName name.toList then some name else none := by
  unfold fileName?
  rw [String.toList_append, splitName_append hf hn]
  dsimp only
  rw [String.ofList_toList]

theorem exists_parts (h : Named path) : ∃ folder stem ext, Parts path folder stem ext := by
  obtain ⟨folder, name, hpath, hfolder, hslash, hname⟩ := h
  obtain ⟨hne, hdots⟩ := isName_iff.1 hname
  have heq : path = String.ofList folder ++ String.ofList name := by
    rw [← String.ofList_append, ← hpath, String.ofList_toList]
  have hdots' : String.ofList name ≠ "." ∧ String.ofList name ≠ ".." := by
    simpa [← String.toList_inj] using hdots
  rcases exists_extension hne with hplain | ⟨stem, ext, hstem, hext, rfl⟩
  · refine ⟨String.ofList folder, String.ofList name, "", ?_, ?_, ?_, ?_, ?_, .inl ⟨rfl, ?_⟩⟩
    · rw [heq, String.append_empty]
    · rwa [String.toList_ofList]
    · simpa using hne
    · rwa [String.append_empty, String.toList_ofList]
    · rwa [String.append_empty]
    · rwa [String.toList_ofList]
  · have hname' : String.ofList (stem ++ '.' :: ext) =
        String.ofList stem ++ ("." ++ String.ofList ext) := by
      simp
    rw [hname'] at heq hdots'
    refine ⟨String.ofList folder, String.ofList stem, "." ++ String.ofList ext, ?_, ?_, ?_, ?_,
      hdots', .inr ⟨_, rfl, ?_⟩⟩
    · rw [heq, String.append_assoc]
    · rwa [String.toList_ofList]
    · simpa using hstem
    · rwa [← hname', String.toList_ofList]
    · rwa [String.toList_ofList]

theorem Parts.isName (h : Parts path folder stem ext) : isName (stem ++ ext).toList = true := by
  have hne : stem.toList ≠ [] := by simpa using h.ne_empty
  rw [isName_iff]
  refine ⟨by simp [hne], ?_⟩
  simpa [← String.toList_inj] using h.ne_dots

theorem Parts.withExtension_eq (h : Parts path folder stem ext) (hstem : stem ≠ "." ∨ ext = "")
    (new : String) : withExtension path new = folder ++ stem ++ "." ++ new := by
  have hpath : path.toList = folder.toList ++ (stem ++ ext).toList := by
    rw [h.eq, String.append_assoc, String.toList_append]
  have hne : stem.toList ≠ [] := by simpa using h.ne_empty
  unfold withExtension
  rw [hpath]
  rcases h.dot with ⟨rfl, hplain⟩ | ⟨letters, rfl, hletters⟩
  · have hslash := h.no_slash
    have hname := h.isName
    rw [String.append_empty] at hslash hname ⊢
    rw [dropExtension_of_not_mem h.endsIn hslash hplain, setExtension_append h.endsIn hslash hname,
      splitExtension_of_not_mem hplain]
    simp [← String.toList_inj]
  · have hlist : (stem ++ ("." ++ letters)).toList = stem.toList ++ '.' :: letters.toList := by
      simp
    have hslash := h.no_slash
    have hname := h.isName
    rw [hlist] at hslash hname ⊢
    have hdrop : '/' ∉ stem.toList ++ ['.'] := by
      simp at hslash ⊢
      exact hslash.1
    have hkept : Path.isName (stem.toList ++ ['.']) = true := by
      rw [isName_iff]
      refine ⟨by simp, by simp [hne], ?_⟩
      have hdot : stem.toList ≠ ['.'] := by simpa [← String.toList_inj] using hstem
      exact fun heq => hdot (List.append_cancel_right heq)
    rw [dropExtension_append h.endsIn hslash hname hne hletters,
      setExtension_append h.endsIn hdrop hkept, splitExtension_append hne List.not_mem_nil]
    simp [← String.toList_inj]

/-- A name that is an extension after two dots loses it, and what is left is no name. -/
theorem Parts.withExtension_of_dot (h : Parts path folder "." ext) (hext : ext ≠ "")
    (new : String) : withExtension path new = folder ++ ".." := by
  have hpath : path.toList = folder.toList ++ ("." ++ ext).toList := by
    rw [h.eq, String.append_assoc, String.toList_append]
  rcases h.dot with ⟨hnone, -⟩ | ⟨letters, rfl, hletters⟩
  · exact absurd hnone hext
  · have hlist : ("." ++ ("." ++ letters)).toList = ['.'] ++ '.' :: letters.toList := by simp
    have hslash := h.no_slash
    have hname := h.isName
    rw [hlist] at hslash hname hpath
    unfold withExtension
    rw [hpath, dropExtension_append h.endsIn hslash hname (by simp) hletters]
    unfold setExtension
    rw [splitName_append h.endsIn (by decide)]
    simp [Path.isName]

end

end Path

namespace Command

open Tunebook.Path

/-- Where the file of a tune goes: to the path asked for, or else under the name of the tune with
the extension of MIDI files, in the configured directory or else beside the tune. -/
def IsOutput (a : Arguments) (s : Settings) (path : String) : Prop :=
  a.output = some path ∨
    a.output = none ∧ ∃ folder stem ext, Parts a.file folder stem ext ∧
      path = s.directory.elim (folder ++ stem ++ ".mid") fun directory =>
        Path.join directory (stem ++ ".mid")

theorem not_named_dots {folder : String} (h : EndsIn '/' folder.toList) :
    ¬Named (folder ++ "..") := by
  rintro ⟨folder', name, heq, hfolder', hslash, hname⟩
  have hsplit : splitName (folder ++ "..").toList = (folder.toList, ['.', '.']) := by
    rw [String.toList_append]
    exact splitName_append h (by decide)
  rw [heq, splitName_append hfolder' hslash] at hsplit
  obtain ⟨-, rfl⟩ := Prod.mk.inj hsplit
  simp [isName] at hname

variable {file folder stem ext : String} {directory : Option String}

theorem defaultOutput_eq (h : Parts file folder stem ext) (hstem : stem ≠ "." ∨ ext = "") :
    defaultOutput file directory = directory.elim (folder ++ stem ++ ".mid") fun directory =>
      Path.join directory (stem ++ ".mid") := by
  have hne : stem.toList ≠ [] := by simpa using h.ne_empty
  have houtput : withExtension file "mid" = folder ++ (stem ++ ".mid") := by
    rw [h.withExtension_eq hstem]
    simp [← String.toList_inj]
  have hlist : (stem ++ ".mid").toList = stem.toList ++ '.' :: ['m', 'i', 'd'] := by simp
  have hslash : '/' ∉ (stem ++ ".mid").toList := by
    have := h.no_slash
    simp at this ⊢
    exact this.1
  have hname : fileName? (folder ++ (stem ++ ".mid")) = some (stem ++ ".mid") := by
    rw [fileName?_append h.endsIn hslash, hlist, isName_append_cons hne '.' (by simp), if_pos rfl]
  unfold defaultOutput
  dsimp only
  rw [houtput, hname]
  cases directory with
  | none => exact (String.append_assoc ..).symm
  | some directory => rfl

theorem defaultOutput_of_dot (h : Parts file folder "." ext) (hext : ext ≠ "") :
    defaultOutput file directory = folder ++ ".." := by
  unfold defaultOutput
  dsimp only
  rw [h.withExtension_of_dot hext, fileName?_append h.endsIn (by decide)]
  cases directory <;> rfl

/-- Where the tune and its file have names, the file has the tune's. -/
theorem isOutput_outputPath {a : Arguments} {s : Settings} (hfile : Named a.file)
    (hnamed : Named (outputPath a s)) : IsOutput a s (outputPath a s) := by
  cases houtput : a.output with
  | some path => exact .inl (by rw [outputPath, houtput, Option.getD_some])
  | none =>
    have hpath : outputPath a s = defaultOutput a.file s.directory := by
      rw [outputPath, houtput, Option.getD_none]
    obtain ⟨folder, stem, ext, hparts⟩ := exists_parts hfile
    rw [hpath] at hnamed ⊢
    by_cases hstem : stem ≠ "." ∨ ext = ""
    · exact .inr ⟨houtput, folder, stem, ext, hparts, defaultOutput_eq hparts hstem⟩
    · rw [not_or, not_not] at hstem
      obtain ⟨rfl, hext⟩ := hstem
      rw [defaultOutput_of_dot hparts hext] at hnamed
      exact absurd hnamed (not_named_dots hparts.endsIn)

end Command

end Tunebook
