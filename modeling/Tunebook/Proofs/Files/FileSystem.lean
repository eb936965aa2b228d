import Tunebook.Files.Disk
import Tunebook.Proofs.Files.Naming

namespace Tunebook

/-- Files as programs meet them. Several paths may lead to one file, so files are told apart by
their places. -/
structure FileSystem where
  Files : Type
  Place : Type
  isPresent : Files → String → Bool
  read : Files → String → Except FileError ByteArray
  write : Files → String → ByteArray → Except FileError Files
  place? : Files → String → Option Place
  entry? : Files → Place → Option Entry

namespace FileSystem

variable (fs : FileSystem)

def text (files : fs.Files) (path : String) : Except FileError String :=
  (fs.read files path).bind fun bytes => (String.fromUTF8? bytes).elim (.error .notText) .ok

/-- The path leads to a file with the content, and everything else is as it was before. -/
structure Stored (before : fs.Files) (path : String) (content : ByteArray) (after : fs.Files) :
    Prop where
  read : fs.read after path = .ok content
  place : ∃ place, fs.place? before path = some place ∧
    fs.entry? after place = some (.file content) ∧
    ∀ other, other ≠ place → fs.entry? after other = fs.entry? before other

/-- A path that ends in a slash, or in one or two dots, leads to no file. -/
structure Lawful : Prop where
  stored {before after : fs.Files} {path : String} {content : ByteArray} :
    fs.write before path content = .ok after → fs.Stored before path content after
  named_of_read {files : fs.Files} {path : String} {content : ByteArray} :
    fs.read files path = .ok content → Path.Named path
  named_of_write {before after : fs.Files} {path : String} {content : ByteArray} :
    fs.write before path content = .ok after → Path.Named path

variable {fs}

theorem read_of_text {files : fs.Files} {path text : String} (h : fs.text files path = .ok text) :
    ∃ bytes, fs.read files path = .ok bytes := by
  unfold FileSystem.text at h
  cases hread : fs.read files path with
  | error e =>
    rw [hread] at h
    cases h
  | ok bytes => exact ⟨bytes, rfl⟩

end FileSystem

section

variable {σ F α β : Type} {files : σ → F} {before after last : F}

/-- From every state that shows the files `before`, `x` gives `a` and leaves the files `after`. -/
def Runs (files : σ → F) (before : F) (x : StateM σ α) (a : α) (after : F) : Prop :=
  ∀ state, files state = before → (x.run state).1 = a ∧ files (x.run state).2 = after

theorem Runs.pure (a : α) : Runs files before (Pure.pure a) a before :=
  fun _ h => ⟨rfl, h⟩

theorem Runs.bind {x : StateM σ α} {a : α} {f : α → StateM σ β} {b : β}
    (hx : Runs files before x a after) (hf : Runs files after (f a) b last) :
    Runs files before (x >>= f) b last := by
  intro state h
  obtain ⟨hvalue, hfiles⟩ := hx state h
  rw [← hvalue] at hf
  exact hf (x.run state).2 hfiles

theorem Runs.filterM {p : α → StateM σ Bool} {q : α → Bool}
    (h : ∀ a, Runs files before (p a) (q a) before) (as : List α) :
    Runs files before (as.filterM p) (as.filter q) before := by
  have hloop (kept : List α) :
      Runs files before (as.filterAuxM p kept) ((as.filter q).reverse ++ kept) before := by
    induction as generalizing kept with
    | nil => exact Runs.pure _
    | cons a as ih =>
      refine Runs.bind (h a) ?_
      have hkept := ih (cond (q a) (a :: kept) kept)
      cases hq : q a with
      | true => simpa [hq] using hkept
      | false => simpa [hq] using hkept
  refine Runs.bind (hloop []) ?_
  simpa using Runs.pure _

end

/-- A host whose operations do what the file system says, and change no file besides. A write that
fails changes nothing. -/
structure Host.WorksOn {σ : Type} (host : Host (StateM σ)) (fs : FileSystem) (files : σ → fs.Files) :
    Prop where
  isPresent (before : fs.Files) (path : String) :
    Runs files before (host.isPresent path) (fs.isPresent before path) before
  read (before : fs.Files) (path : String) :
    Runs files before (host.read path) (fs.read before path) before
  write (before : fs.Files) (path : String) (content : ByteArray) :
    Runs files before (host.write path content) ((fs.write before path content).map fun _ => ())
      ((fs.write before path content).toOption.getD before)
  print (before : fs.Files) (text : String) : Runs files before (host.print text) () before
  complain (before : fs.Files) (text : String) : Runs files before (host.complain text) () before

theorem Host.WorksOn.readText {σ : Type} {host : Host (StateM σ)} {fs : FileSystem}
    {files : σ → fs.Files} (h : host.WorksOn fs files) {before : fs.Files} {path : String}
    {result : Except FileError String} (hresult : fs.text before path = result) :
    Runs files before (host.readText path) result before := by
  subst hresult
  refine Runs.bind (h.read before path) ?_
  unfold FileSystem.text
  cases fs.read before path with
  | error e => exact Runs.pure _
  | ok bytes =>
    dsimp only [Except.bind]
    cases String.fromUTF8? bytes <;> exact Runs.pure _

end Tunebook
