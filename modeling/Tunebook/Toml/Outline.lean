import Tunebook.Toml.Table

namespace Tunebook.Toml

/-- How a table came to be. -/
inductive Origin where
  /-- By a header of its own. -/
  | header
  /-- By a header of a table inside it. -/
  | implied
  /-- By a dotted key. -/
  | dotted
deriving DecidableEq

abbrev Keys := List String

/-- What a key of a document stands for. -/
inductive Item where
  /-- A value that was given whole, so that nothing can be added to it. -/
  | value (v : Value)
  | table (origin : Origin) (items : List (String × Item))
  /-- A list of tables, each with a header. Only the last one can be added to. -/
  | tables (earlier : List (List (String × Item))) (last : List (String × Item))

abbrev Items := List (String × Item)

namespace Items

def set (key : String) (item : Item) : Items → Items
  | [] => [(key, item)]
  | entry :: items => if entry.1 = key then (key, item) :: items else entry :: set key item items

/-- Follows keys through the tables of a document and changes the last of them. Tables that are
not there are made. Dotted keys do not go into a table that has a header. -/
def change? (dotted : Bool) (f : Origin → Items → Option Items) :
    Keys → Origin → Items → Option Items
  | [], origin, items => f origin items
  | key :: keys, _, items => do
    match items.lookup key with
    | none =>
      let origin := if dotted then Origin.dotted else .implied
      let inner ← change? dotted f keys origin []
      return items.set key (.table origin inner)
    | some (.value _) => none
    | some (.table origin inner) =>
      if dotted ∧ origin = .header then none
      else
        let inner ← change? dotted f keys origin inner
        return items.set key (.table origin inner)
    | some (.tables earlier last) =>
      let last ← change? dotted f keys .header last
      return items.set key (.tables earlier last)

/-- Gives a key a value for the first time. -/
def give? (key : String) (v : Value) (items : Items) : Option Items :=
  if (items.lookup key).isSome then none else some (items.set key (.value v))

/-- Opens a table by its header. It may be there already for the sake of tables inside it. -/
def openTable? (key : String) (items : Items) : Option Items :=
  match items.lookup key with
  | none => some (items.set key (.table .header []))
  | some (.table .implied inner) => some (items.set key (.table .header inner))
  | some _ => none

/-- Adds a table to a list of them. -/
def addTable? (key : String) (items : Items) : Option Items :=
  match items.lookup key with
  | none => some (items.set key (.tables [] []))
  | some (.tables earlier last) => some (items.set key (.tables (earlier ++ [last]) []))
  | some _ => none

end Items

mutual

def Item.value? : Item → Option Value
  | .value v => some v
  | .table _ items => (Items.table? items).bind Table.value?
  | .tables earlier last => do
    let earlier ← Items.values? earlier
    let last ← (Items.table? last).bind Table.value?
    return .list (earlier ++ [last])

def Items.table? : List (String × Item) → Option Table
  | [] => some .nil
  | (key, item) :: items => do
    let v ← item.value?
    let t ← Items.table? items
    return .cons key v t

def Items.values? : List (List (String × Item)) → Option (List Value)
  | [] => some []
  | items :: rest => do
    let v ← (Items.table? items).bind Table.value?
    let vs ← Items.values? rest
    return v :: vs

end

structure Outline where
  items : Items
  current : Keys

namespace Outline

def empty : Outline :=
  ⟨[], []⟩

def table? (o : Outline) : Option Table :=
  Items.table? o.items

/-- Changes the entry of the last key in the table that the keys before it lead to. -/
def header? (change : String → Items → Option Items) (o : Outline) (keys : Keys) :
    Option Outline := do
  let key ← keys.getLast?
  let items ← Items.change? false (fun _ items => change key items) keys.dropLast .header o.items
  return ⟨items, keys⟩

def openTable? (o : Outline) (keys : Keys) : Option Outline :=
  header? Items.openTable? o keys

/-- A header in double brackets. -/
def addTable? (o : Outline) (keys : Keys) : Option Outline :=
  header? Items.addTable? o keys

/-- Gives a key of the current table a value. Dotted keys end in a table that dotted keys made, and
a plain one does not. -/
def give? (o : Outline) (keys : Keys) (v : Value) : Option Outline := do
  let key ← keys.getLast?
  let give (origin : Origin) (items : Items) : Option Items :=
    if (origin == .dotted) == (keys.length == 1) then none else items.give? key v
  let items ← Items.change? false (Items.change? true give keys.dropLast) o.current .header o.items
  return { o with items }

end Outline

end Tunebook.Toml
