import Tunebook.Toml.Moment

namespace Tunebook.Toml

mutual

inductive Value where
  | text (s : String)
  | integer (z : Int)
  | moment (m : Moment)
  /-- A value of a kind that no setting has: a boolean or a number with a fraction. -/
  | other
  | list (values : List Value)
  | table (t : Table)

inductive Table where
  | nil
  | cons (key : String) (value : Value) (rest : Table)

end

namespace Table

def get? (key : String) : Table → Option Value
  | nil => none
  | cons k v rest => if k = key then some v else rest.get? key

def set (key : String) (value : Value) : Table → Table
  | nil => cons key value nil
  | cons k v rest => if k = key then cons k value rest else cons k v (rest.set key value)

theorem get?_set_self (key : String) (value : Value) (t : Table) :
    (t.set key value).get? key = some value := by
  fun_induction set key value t with
  | case1 => simp [get?]
  | case2 => simp_all [get?]
  | case3 => simp_all [get?]

theorem get?_set_ne {key other : String} (h : key ≠ other) (value : Value) (t : Table) :
    (t.set key value).get? other = t.get? other := by
  fun_induction set key value t with
  | case1 => simp [get?, h]
  | case2 => simp_all [get?]
  | case3 => simp_all [get?]

end Table

mutual

/-- Lays a table over another: its values win, and tables are merged key by key. -/
def Table.merge (base : Table) : Table → Table
  | .nil => base
  | .cons key value rest => (base.set key (value.over (base.get? key))).merge rest

/-- The value that replaces `existing`. -/
def Value.over (existing : Option Value) : Value → Value
  | .table t =>
    match existing with
    | some (.table base) => .table (base.merge t)
    | _ => .table t
  | v => v

end

namespace Table

/-- The table of keys and their values, which start at the same place. -/
def ofLists : List String → List Value → Table
  | key :: keys, value :: values => cons key value (ofLists keys values)
  | _, _ => nil

/-- A table with this key first is a moment, which the value of the key spells. -/
def momentKey : String :=
  "$__toml_private_datetime"

/-- A table as a value inside another. -/
def value? : Table → Option Value
  | cons key value rest =>
    if key = momentKey then
      match value with
      | .text s => (Moment.ofText? s).map .moment
      | _ => none
    else some (.table (cons key value rest))
  | nil => some (.table nil)

end Table

end Tunebook.Toml
