import Tunebook.Toml.Outline
import Tunebook.Toml.Quotation

namespace Tunebook.Toml

/-- What follows the rest of a line, on which only a comment may stand. -/
def endLine? (cs : Chars) : Option Chars :=
  let cs := match skipGap cs with
    | '#' :: comment => comment.dropWhile fun c => !isControl c
    | cs => cs
  if cs.isEmpty then some [] else lineEnd? cs

/-- Skips blanks, line ends and comments, as between the values of a list. -/
def skipLines? (inComment : Bool) : Chars → Option Chars
  | [] => if inComment then none else some []
  | '\n' :: cs => skipLines? false cs
  | '\r' :: '\n' :: cs => skipLines? false cs
  | c :: cs =>
    if inComment then (if isControl c then none else skipLines? true cs)
    else if isGap c then skipLines? false cs
    else if c == '#' then skipLines? true cs
    else if c == '\r' then none
    else some (c :: cs)

def isBare (c : Char) : Bool :=
  c.isAlphanum || c == '_' || c == '-'

def key? : Chars → Option (String × Chars)
  | '"' :: cs => (basicString? cs).map fun (s, cs) => (String.ofList s, cs)
  | '\'' :: cs => (literalString? cs).map fun (s, cs) => (String.ofList s, cs)
  | cs =>
    match cs.takeWhile isBare with
    | [] => none
    | key => some (String.ofList key, cs.dropWhile isBare)

/-- The most keys that dots may join, and the most lists and tables that may be inside each
other. -/
def maxDepth : Nat := 79

/-- Keys with dots between them, `room` at most. -/
def keys? : Nat → Chars → Option (Keys × Chars)
  | 0, _ => none
  | room + 1, cs => do
    let (key, cs) ← key? (skipGap cs)
    match skipGap cs with
    | '.' :: rest =>
      let (keys, rest) ← keys? room rest
      return (key :: keys, rest)
    | rest => return ([key], rest)

def scalar? (word : Chars) : Option Value :=
  match integer? word with
  | some z => if isInteger64 z then some (.integer z) else none
  | none =>
    if word == "true".toList || word == "false".toList || isFloat word then some .other else none

def isScalar (c : Char) : Bool :=
  isBare c || c == '+' || c == '.'

mutual

/-- A value with at most `room` lists and tables inside each other, in a document of at most `fuel`
characters. -/
def value? : Nat → Nat → Chars → Option (Value × Chars)
  | 0, _, _ => none
  | fuel + 1, room, cs =>
    match cs, room with
    | '[' :: cs, room + 1 => do
      let (values, cs) ← values? fuel room (← skipLines? false cs)
      return (.list values, cs)
    | '\x7b' :: cs, room + 1 => do
      let (o, cs) ← match skipGap cs with
        | '\x7d' :: cs => some (Outline.empty, cs)
        | cs => pairs? fuel room .empty cs
      let v ← o.table?.bind Table.value?
      return (v, cs)
    | '"' :: _, _ | '\'' :: _, _ =>
      (string? cs).map fun (s, cs) => (.text (String.ofList s), cs)
    | cs, _ =>
      match Moment.read? cs with
      | some (m, cs) => some (.moment m, cs)
      | none => (scalar? (cs.takeWhile isScalar)).map fun v => (v, cs.dropWhile isScalar)

def values? : Nat → Nat → Chars → Option (List Value × Chars)
  | 0, _, _ => none
  | fuel + 1, room, cs =>
    match cs with
    | ']' :: cs => some ([], cs)
    | cs => do
      let (v, cs) ← value? fuel room cs
      match ← skipLines? false cs with
      | ',' :: cs =>
        let (vs, cs) ← values? fuel room (← skipLines? false cs)
        return (v :: vs, cs)
      | ']' :: cs => return ([v], cs)
      | _ => none

/-- The pairs of an inline table, up to its closing brace. -/
def pairs? : Nat → Nat → Outline → Chars → Option (Outline × Chars)
  | 0, _, _, _ => none
  | fuel + 1, room, o, cs => do
    let (keys, cs) ← keys? maxDepth cs
    let (v, cs) ← value? fuel room (skipGap (← after? '=' cs))
    let o ← o.give? keys v
    match skipGap cs with
    | ',' :: cs => pairs? fuel room o cs
    | '\x7d' :: cs => some (o, cs)
    | _ => none

end

/-- A table header, or a key and its value, and what follows. -/
def statement? (fuel : Nat) (o : Outline) : Chars → Option (Outline × Chars)
  | '[' :: '[' :: cs => do
    let (keys, cs) ← keys? maxDepth cs
    let cs ← after? ']' (← after? ']' cs)
    return (← o.addTable? keys, cs)
  | '[' :: cs => do
    let (keys, cs) ← keys? maxDepth cs
    let cs ← after? ']' cs
    return (← o.openTable? keys, cs)
  | cs => do
    let (keys, cs) ← keys? maxDepth cs
    let (v, cs) ← value? fuel maxDepth (skipGap (← after? '=' cs))
    return (← o.give? keys v, cs)

def lines? : Nat → Outline → Chars → Option Outline
  | 0, _, _ => none
  | fuel + 1, o, cs =>
    match skipGap cs with
    | [] => some o
    | cs =>
      match endLine? cs with
      | some rest => lines? fuel o rest
      | none => do
        let (o, rest) ← statement? (fuel + 1) o cs
        lines? fuel o (← endLine? rest)

/-- The table of a document. A byte order mark may stand before it. -/
def Table.read? (text : String) : Option Table :=
  let cs := match text.toList with
    | '\ufeff' :: cs => cs
    | cs => cs
  (lines? (cs.length + 1) .empty cs).bind Outline.table?

end Tunebook.Toml
