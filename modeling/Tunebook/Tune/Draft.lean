import Tunebook.Tune.Basic
import Tunebook.Tune.Error

namespace Tunebook

/-- Where in a repeat the bars go. -/
inductive Section where
  | normal | repeated | firstEnding | secondEnding
deriving DecidableEq

structure Draft where
  voice : Voice
  place : Section
  bar : Bar
  tuplet : Option Tuplet
  pending : Repeat
  /-- A repeat whose first ending was closed; a second ending may follow at once. -/
  held : Option Repeat

inductive Stroke where
  | element (e : Element)
  | barline (line : Barline)
  | ending (which : Ending)

namespace Draft

def empty (name : Option String) : Draft :=
  ⟨.empty name, .normal, [], none, .empty, none⟩

/-- Gives up waiting for a second ending. -/
def storeHeld (d : Draft) : Draft :=
  match d.held with
  | none => d
  | some r => { d with voice := d.voice.push (.repeated r), held := none }

/-- Writes the pending normal bars out to be played once. -/
def storePlain (d : Draft) : Draft :=
  { d with
    voice := { d.voice with phrases := d.voice.phrases ++ d.pending.normal.map Phrase.bar }
    pending := .empty }

def openRepeat (d : Draft) : Draft :=
  let d := d.storePlain
  { d with voice := { d.voice with repeatOpen := true }, place := .repeated }

/-- Stores the pending repeat, unless there is nothing in it. -/
def storeRepeat (d : Draft) : Draft :=
  let voice := if d.pending.isEmpty then d.voice else d.voice.push (.repeated d.pending)
  { d with voice := { voice with repeatOpen := false }, pending := .empty, place := .normal }

/-- Keeps the pending repeat for a second ending. -/
def holdRepeat (d : Draft) : Draft :=
  { d with
    voice := { d.voice with repeatOpen := false }
    held := some d.pending
    pending := .empty
    place := .normal }

def addBar (r : Repeat) (place : Section) (bar : Bar) : Repeat :=
  match place with
  | .normal | .repeated => { r with normal := r.normal ++ [bar] }
  | .firstEnding => { r with firstEnding := r.firstEnding ++ [bar] }
  | .secondEnding => { r with secondEnding := r.secondEnding ++ [bar] }

/-- Ends the bar. An empty one is not kept. -/
def closeBar (d : Draft) : Except Expected Draft :=
  if d.tuplet.isSome then .error .tupletNotesBeforeBarline
  else if d.bar.isEmpty then .ok d
  else .ok { d with bar := [], pending := addBar d.pending d.place d.bar }

/-- Adds to the open tuplet, and closes it with its last note. -/
def fillTuplet (d : Draft) (t : Tuplet) (e : Element) : Draft :=
  let t := t.push e
  if t.isFull then { d with bar := d.bar ++ [t.toElement], tuplet := none }
  else { d with tuplet := some t }

/-- Adds an element to the bar or the open tuplet. A tuplet without its notes is opened. -/
def element (d : Draft) (e : Element) : Except Expected Draft :=
  let d := d.storeHeld
  match d.tuplet, e with
  | some _, .tuplet .. => .error .tupletNotesNotTuplet
  | some t, e => .ok (d.fillTuplet t e)
  | none, .tuplet size elements notes =>
    if notes < size.toNat then .ok { d with tuplet := some ⟨size, elements, notes⟩ }
    else .ok { d with bar := d.bar ++ [e] }
  | none, e => .ok { d with bar := d.bar ++ [e] }

/-- What a bar line does once the bar before it is closed. -/
def turn (d : Draft) (line : Barline) : Except Expected Draft :=
  match d.place, line with
  | .normal, .single => .ok d
  | .normal, .repeatStart => .ok d.openRepeat
  | .normal, .repeatEnd => .ok d.storeRepeat
  | .normal, _ => .ok d.storePlain
  | .repeated, .repeatEnd => .ok d.storeRepeat
  | .repeated, .repeatStart => .error .repeatEndBeforeStart
  | .repeated, _ => .ok d
  | .firstEnding, .repeatEnd => .ok d.holdRepeat
  | .firstEnding, .repeatStart => .error .repeatEndOfFirstEnding
  | .firstEnding, _ => .ok d
  | .secondEnding, .single => .ok d
  | .secondEnding, .repeatStart => .ok d.storeRepeat.openRepeat
  | .secondEnding, _ => .ok d.storeRepeat

def barline (d : Draft) (line : Barline) : Except Expected Draft := do
  let d ← d.storeHeld.closeBar
  d.turn line

/-- A second ending takes up the held repeat; a first ending starts in the normal bars. -/
def ending (d : Draft) : Ending → Except Expected Draft
  | .second =>
    match d.held with
    | none => .error .closedFirstEnding
    | some r => do
      let d ← { d with held := none }.closeBar
      return { d with pending := r, place := .secondEnding }
  | .first =>
    let d := d.storeHeld
    match d.place with
    | .normal | .repeated => do
      let d ← d.closeBar
      return { d with place := .firstEnding }
    | _ => .error .barlineBeforeFirstEnding

def write (d : Draft) : Stroke → Except Expected Draft
  | .element e => d.element e
  | .barline line => d.barline line
  | .ending which => d.ending which

def writeAll (d : Draft) (strokes : List Stroke) : Except Expected Draft :=
  strokes.foldlM write d

/-- The finished voice. A repeat that was opened and not closed is played once. -/
def finish (d : Draft) : Except Expected Voice := do
  if d.tuplet.isSome then throw .tupletNotes
  let d ← d.storeHeld.closeBar
  match d.place with
  | .normal | .repeated => return d.storePlain.voice
  | .firstEnding | .secondEnding => return d.storeRepeat.voice

end Draft

structure Drafts where
  drafts : List Draft
  current : Option Nat

namespace Drafts

def empty : Drafts := ⟨[], none⟩

/-- Turns to the voice of that name, which is made if it is new. Unless `switch` is set, the
current voice stays current. -/
def select (ds : Drafts) (name : String) (switch : Bool) : Drafts :=
  let found := ds.drafts.findIdx fun d => d.voice.name == some name
  let drafts :=
    if found < ds.drafts.length then ds.drafts else ds.drafts ++ [Draft.empty (some name)]
  ⟨drafts, if switch || ds.current.isNone then some found else ds.current⟩

/-- Makes the unnamed voice if there is no voice to write to. -/
def ensureCurrent (ds : Drafts) : Drafts :=
  match ds.current with
  | some _ => ds
  | none => ⟨ds.drafts ++ [Draft.empty none], some ds.drafts.length⟩

def write (ds : Drafts) (stroke : Stroke) : Except Expected Drafts :=
  let ds := ds.ensureCurrent
  match ds.current.bind fun i => ds.drafts[i]?.map fun d => (i, d) with
  | none => .ok ds
  | some (i, d) => (d.write stroke).map fun d => { ds with drafts := ds.drafts.set i d }

/-- The finished voices. A tune without any has one that is empty. -/
def finish (ds : Drafts) : Except Expected (List Voice) :=
  if ds.drafts.isEmpty then .ok [.empty none] else ds.drafts.mapM Draft.finish

end Drafts

end Tunebook
