import Tunebook.Toml.Number

namespace Tunebook.Toml

/-- Control characters stand nowhere in a document, except that a tab is blank. -/
def isControl (c : Char) : Bool :=
  (c.toNat < 0x20 && c != '\t') || c.toNat == 0x7f

def isGap (c : Char) : Bool :=
  c == ' ' || c == '\t'

def skipGap (cs : Chars) : Chars :=
  cs.dropWhile isGap

/-- What follows the end of a line. -/
def lineEnd? : Chars → Option Chars
  | '\n' :: cs => some cs
  | '\r' :: '\n' :: cs => some cs
  | _ => none

/-- The character that is written as this letter after a backslash. -/
def escapedLetter? : Char → Option Char
  | 'b' => some '\x08'
  | 't' => some '\t'
  | 'n' => some '\n'
  | 'f' => some '\x0c'
  | 'r' => some '\r'
  | '"' => some '"'
  | '\\' => some '\\'
  | _ => none

def prepend (c : Char) (r : Chars × Chars) : Chars × Chars :=
  (c :: r.1, r.2)

def basicString? : Chars → Option (Chars × Chars)
  | [] => none
  | '"' :: cs => some ([], cs)
  | '\\' :: 'u' :: a :: b :: c :: d :: cs => do
    let x ← Text.codePoint? [a, b, c, d]
    (basicString? cs).map (prepend x)
  | '\\' :: 'U' :: a :: b :: c :: d :: e :: f :: g :: h :: cs => do
    let x ← Text.codePoint? [a, b, c, d, e, f, g, h]
    (basicString? cs).map (prepend x)
  | '\\' :: c :: cs => do
    let x ← escapedLetter? c
    (basicString? cs).map (prepend x)
  | c :: cs => if c = '\\' || isControl c then none else (basicString? cs).map (prepend c)

/-- A string over many lines. One or two quotes may stand in it, also just before the closing
ones. A backslash at the end of a line takes away the blanks up to the next text; while that goes
on, `folding` is true. -/
def longString? (folding : Bool) : Chars → Option (Chars × Chars)
  | [] => none
  | '"' :: '"' :: '"' :: '"' :: '"' :: cs => some (['"', '"'], cs)
  | '"' :: '"' :: '"' :: '"' :: cs => some (['"'], cs)
  | '"' :: '"' :: '"' :: cs => some ([], cs)
  | '\r' :: '\n' :: cs =>
    if folding then longString? true cs else (longString? false cs).map (prepend '\n')
  | '\n' :: cs =>
    if folding then longString? true cs else (longString? false cs).map (prepend '\n')
  | '\\' :: 'u' :: a :: b :: c :: d :: cs => do
    let x ← Text.codePoint? [a, b, c, d]
    (longString? false cs).map (prepend x)
  | '\\' :: 'U' :: a :: b :: c :: d :: e :: f :: g :: h :: cs => do
    let x ← Text.codePoint? [a, b, c, d, e, f, g, h]
    (longString? false cs).map (prepend x)
  | '\\' :: c :: cs =>
    match escapedLetter? c with
    | some x => (longString? false cs).map (prepend x)
    | none => if (lineEnd? (skipGap (c :: cs))).isSome then longString? true (c :: cs) else none
  | c :: cs =>
    if folding && isGap c then longString? true cs
    else if c = '\\' || isControl c then none
    else (longString? false cs).map (prepend c)

/-- Nothing is escaped in single quotes. -/
def literalString? (cs : Chars) : Option (Chars × Chars) :=
  let inner (c : Char) : Bool := c != '\'' && !isControl c
  match cs.dropWhile inner with
  | '\'' :: rest => some (cs.takeWhile inner, rest)
  | _ => none

def longLiteral? : Chars → Option (Chars × Chars)
  | [] => none
  | '\'' :: '\'' :: '\'' :: '\'' :: '\'' :: cs => some (['\'', '\''], cs)
  | '\'' :: '\'' :: '\'' :: '\'' :: cs => some (['\''], cs)
  | '\'' :: '\'' :: '\'' :: cs => some ([], cs)
  | '\r' :: '\n' :: cs => (longLiteral? cs).map (prepend '\n')
  | '\n' :: cs => (longLiteral? cs).map (prepend '\n')
  | c :: cs => if isControl c then none else (longLiteral? cs).map (prepend c)

/-- A line end right after the opening quotes does not count. -/
def skipLineEnd (cs : Chars) : Chars :=
  (lineEnd? cs).getD cs

def string? : Chars → Option (Chars × Chars)
  | '"' :: '"' :: '"' :: cs => longString? false (skipLineEnd cs)
  | '"' :: cs => basicString? cs
  | '\'' :: '\'' :: '\'' :: cs => longLiteral? (skipLineEnd cs)
  | '\'' :: cs => literalString? cs
  | _ => none

end Tunebook.Toml
