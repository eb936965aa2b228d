import Mathlib.Data.List.Nodup
import Tunebook.Proofs.Lists
import Tunebook.Proofs.Tune.Reading

namespace Tunebook

/-- What is done to the voices of a tune: one of them is named, or the current one is written to. -/
inductive Move where
  | select (name : String) (switch : Bool)
  | write (stroke : Stroke)

namespace Move

/-- The voice that a move is for, when `current` is the voice that is written to. Where there is
none, it is the unnamed one. -/
def voice (current : Option (Option String)) : Move → Option String
  | select name _ => some name
  | write _ => current.getD none

def next (current : Option (Option String)) : Move → Option (Option String)
  | select name switch => if switch || current.isNone then some (some name) else current
  | write _ => some (current.getD none)

def strokes : Move → List Stroke
  | select _ _ => []
  | write stroke => [stroke]

/-- The voices that the moves are for, one after the other. -/
def mentions (current : Option (Option String)) : List Move → List (Option String)
  | [] => []
  | m :: ms => m.voice current :: mentions (m.next current) ms

/-- What is written while the voice of that name is current. -/
def share (name : Option String) (current : Option (Option String)) : List Move → List Stroke
  | [] => []
  | m :: ms =>
    (if m.voice current = name then m.strokes else []) ++ share name (m.next current) ms

/-- Adds a name that is new. -/
def enlist (names : List (Option String)) (name : Option String) : List (Option String) :=
  if name ∈ names then names else names ++ [name]

/-- The voices in the order of their first mention. -/
def roster (moves : List Move) : List (Option String) :=
  (mentions none moves).foldl enlist []

/-- The voice of that name, if only its own share is written. -/
def alone (moves : List Move) (name : Option String) : Except Expected Voice :=
  (Draft.empty name).writeAll (share name none moves) >>= Draft.finish

theorem mem_enlist {names : List (Option String)} {name other : Option String} :
    other ∈ enlist names name ↔ other ∈ names ∨ other = name := by
  unfold enlist
  split
  · rename_i hm
    constructor
    · exact Or.inl
    · rintro (h | rfl)
      · exact h
      · exact hm
  · rw [List.mem_append, List.mem_singleton]

theorem mem_foldl_enlist {names mentioned : List (Option String)} {name : Option String} :
    name ∈ mentioned.foldl enlist names ↔ name ∈ names ∨ name ∈ mentioned := by
  induction mentioned generalizing names with
  | nil => simp
  | cons first others ih => rw [List.foldl_cons, ih, mem_enlist, List.mem_cons, or_assoc]

theorem nodup_enlist {names : List (Option String)} (h : names.Nodup) (name : Option String) :
    (enlist names name).Nodup := by
  unfold enlist
  split
  · exact h
  · rename_i hn
    rw [List.nodup_append]
    refine ⟨h, by simp, ?_⟩
    rintro a ha b hb rfl
    rw [List.mem_singleton.1 hb] at ha
    exact hn ha

theorem enlist_idxOf (names : List (Option String)) (name : Option String) :
    (enlist names name)[names.idxOf name]? = some name := by
  unfold enlist
  split
  · rename_i hm
    exact List.getElem?_idxOf hm
  · rename_i hm
    rw [List.idxOf_eq_length hm]
    exact List.getElem?_concat_length

theorem enlist_getElem? {names : List (Option String)} {i : Nat} (hi : i < names.length)
    (name : Option String) : (enlist names name)[i]? = names[i]? := by
  unfold enlist
  split
  · rfl
  · exact List.getElem?_append_left hi

end Move

open Move

namespace Drafts

def move (ds : Drafts) : Move → Except Expected Drafts
  | .select name switch => .ok (ds.select name switch)
  | .write stroke => ds.write stroke

def moveAll (ds : Drafts) (moves : List Move) : Except Expected Drafts :=
  moves.foldlM move ds

def named (ds : Drafts) (name : Option String) : Draft :=
  (ds.drafts.find? fun d => d.voice.name == name).getD (.empty name)

def currentName (ds : Drafts) : Option (Option String) :=
  ds.current.bind fun i => ds.names[i]?

/-- Names tell the drafts apart, and there is a current one as soon as there is any. -/
structure Orderly (ds : Drafts) : Prop where
  nodup : ds.names.Nodup
  current : ∀ i, ds.current = some i → i < ds.drafts.length
  start : ds.current = none → ds.drafts = []

theorem orderly_empty : empty.Orderly := by
  refine ⟨List.nodup_nil, ?_, fun _ => rfl⟩
  intro i hi
  cases hi

theorem names_getElem? (ds : Drafts) (i : Nat) :
    ds.names[i]? = ds.drafts[i]?.map fun d => d.voice.name :=
  List.getElem?_map

theorem named_append_empty (ds : Drafts) (added name : Option String) (current : Option Nat) :
    (⟨ds.drafts ++ [.empty added], current⟩ : Drafts).named name = ds.named name := by
  unfold named
  rw [List.find?_append]
  cases hf : ds.drafts.find? fun d => d.voice.name == name with
  | some d => rfl
  | none =>
    by_cases hn : added = name
    · subst hn
      simp [Draft.empty, Voice.empty]
    · simp [Draft.empty, Voice.empty, hn]

theorem named_of_not_mem {ds : Drafts} {name : Option String} (h : name ∉ ds.names) :
    ds.named name = .empty name := by
  have hnone : (ds.drafts.find? fun d => d.voice.name == name) = none := by
    rw [List.find?_eq_none]
    intro d hd he
    exact h (List.mem_map.2 ⟨d, hd, by simpa using he⟩)
  rw [named, hnone]
  rfl

theorem named_of_mem {ds : Drafts} {d : Draft} (hnodup : ds.names.Nodup) (hd : d ∈ ds.drafts) :
    ds.named d.voice.name = d := by
  cases hf : ds.drafts.find? fun e => e.voice.name == d.voice.name with
  | none =>
    have hne := List.find?_eq_none.1 hf d hd
    simp at hne
  | some e =>
    have hname : e.voice.name = d.voice.name := by simpa using List.find?_some hf
    have he : e = d := List.inj_on_of_nodup_map hnodup (List.mem_of_find?_eq_some hf) hd hname
    rw [named, hf, Option.getD_some, he]

theorem drafts_eq_map_named {ds : Drafts} (hnodup : ds.names.Nodup) :
    ds.drafts = ds.names.map ds.named := by
  have hself : ∀ d ∈ ds.drafts, ds.named d.voice.name = d := fun d hd => named_of_mem hnodup hd
  rw [names, List.map_map]
  exact ((List.map_congr_left hself).trans (List.map_id _)).symm

theorem named_set {ds : Drafts} {i : Nat} {d d' : Draft} (hnodup : ds.names.Nodup)
    (hd : ds.drafts[i]? = some d) (hname : d'.voice.name = d.voice.name) (name : Option String) :
    ({ ds with drafts := ds.drafts.set i d' } : Drafts).named name =
      if d.voice.name = name then d' else ds.named name := by
  have hi : i < ds.drafts.length := (List.getElem?_eq_some_iff.1 hd).1
  have hnames := set_names hd hname
  have hnodup' : ({ ds with drafts := ds.drafts.set i d' } : Drafts).names.Nodup := by
    rw [hnames]
    exact hnodup
  split
  · rename_i he
    have hmem : d' ∈ ds.drafts.set i d' := List.mem_set hi d'
    rw [← he, ← hname]
    exact named_of_mem hnodup' hmem
  · rename_i hne
    by_cases hm : name ∈ ds.names
    · obtain ⟨j, hj⟩ := List.getElem?_of_mem hm
      rw [names_getElem?, Option.map_eq_some_iff] at hj
      obtain ⟨e, he, rfl⟩ := hj
      have hij : i ≠ j := by
        rintro rfl
        rw [hd] at he
        exact hne (congrArg (fun d => d.voice.name) (Option.some.inj he))
      have he' : (ds.drafts.set i d')[j]? = some e := by rw [List.getElem?_set_ne hij, he]
      rw [named_of_mem hnodup (List.mem_of_getElem? he)]
      exact named_of_mem hnodup' (List.mem_of_getElem? he')
    · rw [named_of_not_mem hm]
      exact named_of_not_mem (hnames ▸ hm)

theorem select_eq (ds : Drafts) (name : String) (switch : Bool) :
    ds.select name switch =
      ⟨if some name ∈ ds.names then ds.drafts else ds.drafts ++ [.empty (some name)],
        if switch || ds.current.isNone then some (ds.names.idxOf (some name)) else ds.current⟩ := by
  have hidx : ds.names.idxOf (some name) =
      ds.drafts.findIdx fun d => d.voice.name == some name := List.findIdx_map _ _ _
  have hfound : ds.names.idxOf (some name) < ds.drafts.length ↔ some name ∈ ds.names := by
    rw [← List.idxOf_lt_length_iff, names, List.length_map]
  rw [select, ← hidx]
  simp only [hfound]

theorem select_names (ds : Drafts) (name : String) (switch : Bool) :
    (ds.select name switch).names = enlist ds.names (some name) := by
  rw [select_eq, enlist]
  split
  · rfl
  · exact List.map_append

theorem select_named (ds : Drafts) (name : String) (switch : Bool) (other : Option String) :
    (ds.select name switch).named other = ds.named other := by
  rw [select_eq]
  split
  · rfl
  · exact named_append_empty ds (some name) other _

theorem orderly_of_current {ds : Drafts} {i : Nat} {name : Option String}
    (hnodup : ds.names.Nodup) (hc : ds.current = some i) (hname : ds.names[i]? = some name) :
    ds.Orderly ∧ ds.currentName = some name := by
  refine ⟨⟨hnodup, ?_, ?_⟩, ?_⟩
  · intro j hj
    have hij : i = j := Option.some.inj (hc.symm.trans hj)
    have hi := (List.getElem?_eq_some_iff.1 hname).1
    rw [names, List.length_map, hij] at hi
    exact hi
  · intro hnone
    rw [hc] at hnone
    cases hnone
  · rw [currentName, hc, Option.bind_some, hname]

theorem Orderly.exists_current {ds : Drafts} {i : Nat} (h : ds.Orderly) (hc : ds.current = some i) :
    ∃ name, ds.names[i]? = some name ∧ ds.currentName = some name := by
  have hi : i < ds.names.length := by
    rw [names, List.length_map]
    exact h.current i hc
  refine ⟨_, List.getElem?_eq_getElem hi, ?_⟩
  rw [currentName, hc, Option.bind_some, List.getElem?_eq_getElem hi]

theorem Orderly.currentName_isNone {ds : Drafts} (h : ds.Orderly) :
    ds.currentName.isNone = ds.current.isNone := by
  cases hc : ds.current with
  | none =>
    rw [currentName, hc]
    rfl
  | some i =>
    obtain ⟨name, -, hname⟩ := h.exists_current hc
    rw [hname]
    rfl

theorem Orderly.select {ds : Drafts} (h : ds.Orderly) (name : String) (switch : Bool) :
    (ds.select name switch).Orderly ∧
      (ds.select name switch).currentName = Move.next ds.currentName (.select name switch) := by
  have hnames := ds.select_names name switch
  have hnodup : (ds.select name switch).names.Nodup := by
    rw [hnames]
    exact nodup_enlist h.nodup (some name)
  have hcurrent : (ds.select name switch).current =
      if switch || ds.current.isNone then some (ds.names.idxOf (some name)) else ds.current := by
    rw [select_eq]
  rw [Move.next, h.currentName_isNone]
  cases hs : switch || ds.current.isNone with
  | true =>
    rw [hs] at hcurrent
    refine orderly_of_current hnodup hcurrent ?_
    rw [hnames]
    exact enlist_idxOf ds.names (some name)
  | false =>
    rw [hs] at hcurrent
    obtain ⟨-, hsome⟩ := Bool.or_eq_false_iff.1 hs
    obtain ⟨i, hi⟩ := Option.isSome_iff_exists.1 (Option.isNone_eq_false_iff.1 hsome)
    obtain ⟨current, hget, hcurrent'⟩ := h.exists_current hi
    rw [if_neg Bool.false_ne_true, hcurrent']
    refine orderly_of_current hnodup (hcurrent.trans hi) ?_
    rw [hnames, enlist_getElem? (List.getElem?_eq_some_iff.1 hget).1, hget]

theorem Orderly.ensureCurrent {ds : Drafts} (h : ds.Orderly) :
    ds.ensureCurrent.names = enlist ds.names (ds.currentName.getD none) ∧
      (∀ other, ds.ensureCurrent.named other = ds.named other) ∧
      ∃ i d, ds.ensureCurrent.current = some i ∧ ds.ensureCurrent.drafts[i]? = some d ∧
        d.voice.name = ds.currentName.getD none := by
  cases hc : ds.current with
  | none =>
    have hnone : ds.currentName = none := by
      rw [currentName, hc]
      rfl
    have hds : ds.ensureCurrent = ⟨ds.drafts ++ [.empty none], some ds.drafts.length⟩ := by
      rw [Drafts.ensureCurrent, hc]
    have hempty := h.start hc
    rw [hds, hnone]
    refine ⟨?_, fun other => named_append_empty ds none other _, ds.drafts.length, .empty none, rfl,
      List.getElem?_concat_length, rfl⟩
    simp [names, hempty, enlist, Draft.empty, Voice.empty]
  | some i =>
    obtain ⟨name, hget, hname⟩ := h.exists_current hc
    have hmem : name ∈ ds.names := List.mem_of_getElem? hget
    rw [ensureCurrent_of_some hc, hname]
    rw [names_getElem?, Option.map_eq_some_iff] at hget
    obtain ⟨d, hd, hdname⟩ := hget
    refine ⟨?_, fun _ => rfl, i, d, hc, hd, hdname⟩
    rw [Option.getD_some, enlist, if_pos hmem]

theorem Orderly.nodup_ensureCurrent {ds : Drafts} (h : ds.Orderly) :
    ds.ensureCurrent.names.Nodup := by
  rw [h.ensureCurrent.1]
  exact nodup_enlist h.nodup _

theorem write_ensureCurrent (ds : Drafts) (stroke : Stroke) :
    ds.write stroke = ds.ensureCurrent.write stroke := by
  obtain ⟨i, hi⟩ := ds.ensureCurrent_current
  unfold write
  rw [ensureCurrent_of_some hi]

theorem Orderly.write_eq {ds : Drafts} (h : ds.Orderly) (stroke : Stroke) :
    ∃ i, ds.ensureCurrent.current = some i ∧
      ds.ensureCurrent.drafts[i]? = some (ds.named (ds.currentName.getD none)) ∧
      (ds.named (ds.currentName.getD none)).voice.name = ds.currentName.getD none ∧
      ds.write stroke = ((ds.named (ds.currentName.getD none)).write stroke).map fun d =>
        ⟨ds.ensureCurrent.drafts.set i d, ds.ensureCurrent.current⟩ := by
  obtain ⟨-, hnamed, i, d, hi, hd, hname⟩ := h.ensureCurrent
  have hself : ds.named (ds.currentName.getD none) = d := by
    rw [← hnamed, ← hname]
    exact named_of_mem h.nodup_ensureCurrent (List.mem_of_getElem? hd)
  rw [hself]
  refine ⟨i, hi, hd, hname, ?_⟩
  rw [write_ensureCurrent]
  exact Drafts.write_eq hi hd stroke

/-- What a move for the voice `name` does: that voice takes what is written, and the others stay as
they are. -/
structure Moved (ds ds' : Drafts) (name : Option String) (strokes : List Stroke) : Prop where
  orderly : ds'.Orderly
  names : ds'.names = enlist ds.names name
  named : ∀ other, (ds.named other).writeAll (if name = other then strokes else []) =
    .ok (ds'.named other)

theorem Orderly.write {ds ds' : Drafts} {stroke : Stroke} (h : ds.Orderly)
    (hw : ds.write stroke = .ok ds') :
    Moved ds ds' (ds.currentName.getD none) [stroke] ∧
      ds'.currentName = some (ds.currentName.getD none) := by
  obtain ⟨hnames, hnamed, -⟩ := h.ensureCurrent
  obtain ⟨i, hi, hd, hself, heq⟩ := h.write_eq stroke
  have hnodup := h.nodup_ensureCurrent
  rw [heq] at hw
  cases hr : (ds.named (ds.currentName.getD none)).write stroke with
  | error e =>
    rw [hr] at hw
    cases hw
  | ok d =>
    rw [hr] at hw
    have hds' : ds' = ⟨ds.ensureCurrent.drafts.set i d, ds.ensureCurrent.current⟩ :=
      (Except.ok.inj hw).symm
    have hname := Draft.write_name hr
    have hset : ds'.names = ds.ensureCurrent.names := hds' ▸ set_names hd hname
    have hget : ds'.names[i]? = some (ds.named (ds.currentName.getD none)).voice.name := by
      rw [hset, names_getElem?, hd, Option.map_some]
    obtain ⟨horderly, hcurrent⟩ :=
      orderly_of_current (hset ▸ hnodup) (hds' ▸ hi : ds'.current = some i) hget
    refine ⟨⟨horderly, hset.trans hnames, ?_⟩, hcurrent.trans (congrArg some hself)⟩
    intro other
    rw [hds', named_set hnodup hd hname, hself]
    split
    · rename_i he
      rw [← he, Draft.writeAll_single, hr]
    · rw [hnamed]
      rfl

theorem Orderly.move {ds ds' : Drafts} {m : Move} (h : ds.Orderly) (hm : ds.move m = .ok ds') :
    Moved ds ds' (m.voice ds.currentName) m.strokes ∧
      ds'.currentName = m.next ds.currentName := by
  cases m with
  | select name switch =>
    obtain rfl := Except.ok.inj hm
    obtain ⟨horderly, hcurrent⟩ := h.select name switch
    refine ⟨⟨horderly, ds.select_names name switch, ?_⟩, hcurrent⟩
    intro other
    rw [select_named, Move.strokes, ite_self]
    rfl
  | write stroke => exact h.write hm

theorem Orderly.move_error {ds : Drafts} {m : Move} {e : Expected} (h : ds.Orderly)
    (hm : ds.move m = .error e) :
    (ds.named (m.voice ds.currentName)).writeAll m.strokes = .error e := by
  cases m with
  | select name switch => cases hm
  | write stroke =>
    obtain ⟨i, -, -, -, heq⟩ := h.write_eq stroke
    change ds.write stroke = .error e at hm
    rw [heq] at hm
    change (ds.named (ds.currentName.getD none)).writeAll [stroke] = .error e
    rw [Draft.writeAll_single]
    cases hr : (ds.named (ds.currentName.getD none)).write stroke with
    | error e' =>
      rw [hr] at hm
      obtain rfl := Except.error.inj hm
      rfl
    | ok d =>
      rw [hr] at hm
      cases hm

theorem moveAll_cons (ds : Drafts) (m : Move) (ms : List Move) :
    ds.moveAll (m :: ms) = ds.move m >>= fun ds => ds.moveAll ms :=
  List.foldlM_cons

/-- Any number of moves: each voice takes its own share. -/
theorem Orderly.moveAll {ds ds' : Drafts} {ms : List Move} (h : ds.Orderly)
    (hm : ds.moveAll ms = .ok ds') :
    ds'.Orderly ∧ ds'.names = (mentions ds.currentName ms).foldl enlist ds.names ∧
      ∀ name, (ds.named name).writeAll (share name ds.currentName ms) = .ok (ds'.named name) := by
  induction ms generalizing ds with
  | nil =>
    obtain rfl := Except.ok.inj hm
    exact ⟨h, rfl, fun _ => rfl⟩
  | cons m ms ih =>
    rw [moveAll_cons] at hm
    cases hs : ds.move m with
    | error e =>
      rw [hs] at hm
      cases hm
    | ok next =>
      rw [hs] at hm
      obtain ⟨hmoved, hcurrent⟩ := h.move hs
      obtain ⟨horderly, hnames, hnamed⟩ := ih hmoved.orderly hm
      rw [hcurrent] at hnames hnamed
      refine ⟨horderly, ?_, ?_⟩
      · rw [hnames, hmoved.names]
        rfl
      · intro name
        rw [share, Draft.writeAll_append, hmoved.named name]
        exact hnamed name

/-- Moves that fail do so in the share of one voice. -/
theorem Orderly.moveAll_error {ds : Drafts} {ms : List Move} {e : Expected} (h : ds.Orderly)
    (hm : ds.moveAll ms = .error e) :
    ∃ name ∈ mentions ds.currentName ms,
      (ds.named name).writeAll (share name ds.currentName ms) = .error e := by
  induction ms generalizing ds with
  | nil => cases hm
  | cons m ms ih =>
    rw [moveAll_cons] at hm
    cases hs : ds.move m with
    | error e' =>
      rw [hs] at hm
      obtain rfl := Except.error.inj hm
      refine ⟨_, List.mem_cons_self, ?_⟩
      rw [share, if_pos rfl, Draft.writeAll_append, h.move_error hs]
      rfl
    | ok next =>
      rw [hs] at hm
      obtain ⟨hmoved, hcurrent⟩ := h.move hs
      obtain ⟨name, hname, herror⟩ := ih hmoved.orderly hm
      rw [hcurrent] at hname herror
      refine ⟨name, List.mem_cons_of_mem _ hname, ?_⟩
      rw [share, Draft.writeAll_append, hmoved.named name]
      exact herror

theorem finish_iff {ds : Drafts} {vs : List Voice} :
    ds.finish = .ok vs ↔
      ds.drafts = [] ∧ vs = [.empty none] ∨
        ds.drafts ≠ [] ∧ List.Forall₂ (fun d v => d.finish = .ok v) ds.drafts vs := by
  unfold finish
  rw [← mapM_eq_ok_iff]
  cases ds.drafts with
  | nil =>
    constructor
    · intro h
      exact Or.inl ⟨rfl, (Except.ok.inj h).symm⟩
    · rintro (⟨-, rfl⟩ | ⟨hne, -⟩)
      · rfl
      · exact absurd rfl hne
  | cons d rest => simp

theorem alone_of_moveAll {ds : Drafts} {moves : List Move} (h : empty.moveAll moves = .ok ds)
    (name : Option String) : alone moves name = (ds.named name).finish := by
  obtain ⟨-, -, hnamed⟩ := orderly_empty.moveAll h
  have hshare : (Draft.empty name).writeAll (share name none moves) = .ok (ds.named name) :=
    hnamed name
  rw [alone, hshare]
  rfl

theorem drafts_of_moveAll {ds : Drafts} {moves : List Move} (h : empty.moveAll moves = .ok ds) :
    ds.drafts = (roster moves).map ds.named ∧ (roster moves).Nodup := by
  obtain ⟨horderly, hnames, -⟩ := orderly_empty.moveAll h
  have hroster : ds.names = roster moves := hnames
  rw [← hroster]
  exact ⟨drafts_eq_map_named horderly.nodup, horderly.nodup⟩

theorem finish_of_moveAll {ds : Drafts} {moves : List Move} {vs : List Voice}
    (h : empty.moveAll moves = .ok ds) :
    ds.finish = .ok vs ↔
      roster moves = [] ∧ vs = [.empty none] ∨
        roster moves ≠ [] ∧
          List.Forall₂ (fun name v => alone moves name = .ok v) (roster moves) vs := by
  rw [finish_iff, (drafts_of_moveAll h).1, List.forall₂_map_left_iff]
  simp only [alone_of_moveAll h, ne_eq, List.map_eq_nil_iff]

theorem alone_of_moveAll_error {moves : List Move} {e : Expected}
    (h : empty.moveAll moves = .error e) : ∃ name ∈ roster moves, alone moves name = .error e := by
  obtain ⟨name, hmem, herror⟩ := orderly_empty.moveAll_error h
  have hshare : (Draft.empty name).writeAll (share name none moves) = .error e := herror
  refine ⟨name, mem_foldl_enlist.2 (Or.inr hmem), ?_⟩
  rw [alone, hshare]
  rfl

theorem named_name (ds : Drafts) (name : Option String) : (ds.named name).voice.name = name := by
  unfold named
  cases hf : ds.drafts.find? fun d => d.voice.name == name with
  | none => rfl
  | some d => simpa using List.find?_some hf

theorem names_of_moveAll {ds : Drafts} {moves : List Move} {vs : List Voice}
    (h : empty.moveAll moves = .ok ds)
    (hvs : List.Forall₂ (fun name v => alone moves name = .ok v) (roster moves) vs) :
    vs.map Voice.name = roster moves := by
  have heq : List.Forall₂ (fun name v => name = Voice.name v) (roster moves) vs := by
    refine hvs.imp ?_
    intro name v hv
    rw [alone_of_moveAll h] at hv
    rw [(Draft.finish_eq_ok hv).2, Draft.finished_name, named_name]
  rw [← List.forall₂_map_right_iff, List.forall₂_eq_eq_eq] at heq
  exact heq.symm

/-- Voices written in turns, whatever the order: the whole can be finished if and only if each of
them can, written by itself; and then they are the voices written by themselves, in the order of
their first mention and with names that tell them apart. -/
theorem finish_moveAll (moves : List Move) :
    ((∃ vs, empty.moveAll moves >>= finish = .ok vs) ↔
        ∀ name ∈ roster moves, ∃ v, alone moves name = .ok v) ∧
      ∀ vs, empty.moveAll moves >>= finish = .ok vs →
        (roster moves = [] → vs = [.empty none]) ∧
        (roster moves ≠ [] →
          vs.map Voice.name = roster moves ∧ (roster moves).Nodup ∧
            List.Forall₂ (fun name v => alone moves name = .ok v) (roster moves) vs) := by
  cases hm : empty.moveAll moves with
  | error e =>
    obtain ⟨name, hmem, herror⟩ := alone_of_moveAll_error hm
    have hfails : ∀ vs, (Except.error e >>= finish) ≠ .ok vs := by
      intro vs h
      cases h
    refine ⟨⟨fun ⟨vs, h⟩ => absurd h (hfails vs), ?_⟩, fun vs h => absurd h (hfails vs)⟩
    intro hall
    obtain ⟨v, hv⟩ := hall name hmem
    rw [herror] at hv
    cases hv
  | ok ds =>
    have hfinish : ∀ vs, (Except.ok ds >>= finish) = .ok vs ↔ _ := fun vs => finish_of_moveAll hm
    refine ⟨⟨?_, ?_⟩, ?_⟩
    · rintro ⟨vs, h⟩
      rcases (hfinish vs).1 h with ⟨hnil, -⟩ | ⟨-, hvs⟩
      · simp [hnil]
      · exact exists_forall₂_iff.1 ⟨vs, hvs⟩
    · intro hall
      by_cases hnil : roster moves = []
      · exact ⟨[.empty none], (hfinish _).2 (Or.inl ⟨hnil, rfl⟩)⟩
      · obtain ⟨vs, hvs⟩ := exists_forall₂_iff.2 hall
        exact ⟨vs, (hfinish vs).2 (Or.inr ⟨hnil, hvs⟩)⟩
    · intro vs h
      rcases (hfinish vs).1 h with ⟨hnil, rfl⟩ | ⟨hne, hvs⟩
      · exact ⟨fun _ => rfl, fun hne => absurd hnil hne⟩
      · refine ⟨fun hnil => absurd hnil hne, fun _ => ⟨names_of_moveAll hm hvs, ?_, hvs⟩⟩
        exact (drafts_of_moveAll hm).2

/-- Two voices, left in the middle of a tuplet and between the endings of a repeat. -/
def duet : List Move :=
  let note (letter : Letter) : Move := .write (.element (.note ⟨⟨letter, 0, 0⟩, .unit⟩))
  [.select "a" false, .select "b" false, note .c, .write (.ending .first), note .d,
    .write (.barline .repeatEnd), .select "b" true, .write (.element (Tuplet.empty 2).toElement),
    note .e, .select "a" true, .write (.ending .second), note .f, .select "b" true, note .g]

theorem finish_moveAll_duet :
    ∃ vs, empty.moveAll duet >>= finish = .ok vs ∧
      vs.map Voice.name = [some "a", some "b"] ∧
      List.Forall₂ (fun name v => alone duet name = .ok v) [some "a", some "b"] vs := by
  have hroster : roster duet = [some "a", some "b"] := by decide +kernel
  have hok : (empty.moveAll duet >>= finish).toOption.isSome = true := by decide +kernel
  cases h : empty.moveAll duet >>= finish with
  | error e =>
    rw [h] at hok
    cases hok
  | ok vs =>
    have hne : roster duet ≠ [] := by
      rw [hroster]
      exact List.cons_ne_nil _ _
    obtain ⟨hnames, -, halone⟩ := ((finish_moveAll duet).2 vs h).2 hne
    rw [hroster] at hnames halone
    exact ⟨vs, rfl, hnames, halone⟩

end Drafts

end Tunebook
