import Tunebook.Text.Alphanumeric
import Tunebook.Text.Blank
import Tunebook.Text.Numeral

namespace Tunebook.Libraries

inductive PatternError where
  | malformed
  /-- The edge of a word depends on characters of every script, and no automaton finds those. -/
  | wordEdge
deriving DecidableEq

namespace Pattern

abbrev Chars := List Char

/-- How the characters of a pattern are understood. -/
structure Mode where
  /-- Blanks and comments do not count. -/
  spaced : Bool
  /-- Classes hold characters of every script, and not single bytes. -/
  wide : Bool

def dropBlanks (inComment : Bool) : Chars → Chars
  | [] => []
  | c :: cs =>
    if inComment then dropBlanks (c != '\n') cs
    else if Text.isBlank c then dropBlanks false cs
    else if c == '#' then dropBlanks true cs
    else c :: cs

def Mode.skip (m : Mode) (cs : Chars) : Chars :=
  if m.spaced then dropBlanks false cs else cs

def isAscii (c : Char) : Bool :=
  c.toNat < 0x80

inductive Atom where
  | literal (c : Char)
  /-- A character by the two digits of its code, which may also be a byte. -/
  | byte (c : Char)
  /-- Digits, blanks or letters of words, or all but those. -/
  | kind (negated : Bool)
  /-- A general category of characters. -/
  | category
  | textEdge
  | wordEdge

/-- Bytes that are not characters by themselves cannot be matched. -/
def Atom.fits (m : Mode) : Atom → Bool
  | byte c => m.wide || isAscii c
  | kind negated => m.wide || !negated
  | category => m.wide
  | _ => true

def code? (m : Mode) : Nat → Chars → Chars → Option (Char × Chars)
  | 0, digits, cs => (Text.codePoint? digits).map fun c => (c, m.skip cs)
  | count + 1, digits, cs =>
    match m.skip cs with
    | [] => none
    | c :: cs => if (Text.hexDigit? c).isSome then code? m count (digits ++ [c]) cs else none

def category? (m : Mode) (cs : Chars) : Option (Atom × Chars) :=
  match m.skip cs with
  | [] => none
  | c :: cs => if "clmnpsz".toList.contains c.toLower then some (.category, m.skip cs) else none

def escape? (m : Mode) : Chars → Option (Atom × Chars)
  | [] => none
  | 'x' :: cs => (code? m 2 [] cs).map fun (c, cs) => (.byte c, cs)
  | 'u' :: cs => (code? m 4 [] cs).map fun (c, cs) => (.literal c, cs)
  | 'U' :: cs => (code? m 8 [] cs).map fun (c, cs) => (.literal c, cs)
  | 'b' :: cs => if cs.head? == some '\x7b' then none else some (.wordEdge, cs)
  | c :: cs =>
    if c == 'p' || c == 'P' then category? m cs
    else if "dsw".toList.contains c then some (.kind false, cs)
    else if "DSW".toList.contains c then some (.kind true, cs)
    else if "aftnrv".toList.contains c then some (.literal c, cs)
    else if "Az".toList.contains c then some (.textEdge, cs)
    else if "B<>".toList.contains c then some (.wordEdge, cs)
    else if isAscii c && !c.isAlphanum then some (.literal c, cs)
    else none

def item? (m : Mode) : Chars → Option (Atom × Chars)
  | [] => none
  | '\\' :: cs => escape? m cs
  | c :: cs => some (.literal c, cs)

def character? (m : Mode) : Atom → Option Char
  | .literal c | .byte c => if m.wide || isAscii c then some c else none
  | _ => none

/-- What follows a member of a class: a character, a range of them or a class by name. -/
def member? (m : Mode) (cs : Chars) : Option Chars := do
  let (low, cs) ← item? m cs
  let alone := match low with
    | .kind _ | .category => low.fits m
    | _ => (character? m low).isSome
  match m.skip cs with
  | [] => none
  | '-' :: rest =>
    match m.skip rest with
    | [] => none
    | ']' :: _ | '-' :: _ => if alone then some ('-' :: rest) else none
    | rest =>
      let (high, cs) ← item? m rest
      if (← character? m low) ≤ (← character? m high) then some cs else none
  | cs => if alone then some cs else none

def asciiNames : List String :=
  ["alnum", "alpha", "ascii", "blank", "cntrl", "digit", "graph", "lower", "print", "punct",
   "space", "upper", "word", "xdigit"]

def namedClass? : Chars → Option (Bool × Chars)
  | ':' :: cs =>
    let (negated, cs) := match cs with
      | '^' :: cs => (true, cs)
      | cs => (false, cs)
    match cs.dropWhile (· != ':') with
    | ':' :: ']' :: rest =>
      if asciiNames.contains (String.ofList (cs.takeWhile (· != ':'))) then some (negated, rest)
      else none
    | _ => none
  | _ => none

/-- What follows the dashes, at most `fuel`, that start a class. -/
def dropDashes (m : Mode) : Nat → Chars → Chars
  | 0, cs => cs
  | fuel + 1, cs =>
    match cs with
    | '-' :: cs => dropDashes m fuel (m.skip cs)
    | cs => cs

/-- What follows the opening bracket of a class and the signs that have a meaning only there. -/
def openClass? (m : Mode) (cs : Chars) : Option Chars := do
  let cs ← match m.skip cs with
    | '^' :: cs => if m.wide then some (m.skip cs) else none
    | cs => some cs
  match cs with
  | '-' :: _ => some (dropDashes m cs.length cs)
  | ']' :: cs => some (m.skip cs)
  | cs => some cs

/-- What follows a class that is inside `depth` others, in a pattern of at most `fuel`
characters. -/
def closeClass? (m : Mode) : Nat → Nat → Chars → Option Chars
  | 0, _, _ => none
  | fuel + 1, depth, cs =>
    match m.skip cs with
    | [] => none
    | ']' :: cs => if depth = 0 then some cs else closeClass? m fuel (depth - 1) cs
    | '&' :: '&' :: cs | '-' :: '-' :: cs | '~' :: '~' :: cs => closeClass? m fuel depth cs
    | '[' :: cs =>
      match namedClass? cs with
      | some (negated, cs) => if negated && !m.wide then none else closeClass? m fuel depth cs
      | none => do closeClass? m fuel (depth + 1) (← openClass? m cs)
    | cs => do closeClass? m fuel depth (← member? m cs)

/-- The mode after flags, of which those behind a dash are turned off. -/
def Mode.set (m : Mode) (flags : Chars) : Mode :=
  let on := flags.takeWhile (· != '-')
  let change (flag : Char) (old : Bool) : Bool :=
    if flags.contains flag then on.contains flag else old
  ⟨change 'x' m.spaced, change 'u' m.wide⟩

/-- Flags are given once each, and so is the dash, which has a flag behind it. -/
def areFlags (flags : Chars) : Bool :=
  flags.all "imsUuRx-".toList.contains && flags.eraseDups.length == flags.length &&
    flags.getLast? != some '-'

def isNameStart (c : Char) : Bool :=
  c == '_' || Text.isAlphabetic c

def isNamePart (c : Char) : Bool :=
  c == '_' || c == '.' || c == '[' || c == ']' || Text.isAlphanumeric c

structure Reading where
  mode : Mode
  /-- The modes around the groups that are open. -/
  outer : List Mode
  /-- There is something before this place that can be repeated. -/
  repeatable : Bool
  names : List Chars
  wordEdge : Bool

namespace Reading

def start : Reading :=
  ⟨⟨false, true⟩, [], false, [], false⟩

def openGroup (r : Reading) (m : Mode) : Reading :=
  { r with mode := m, outer := r.mode :: r.outer, repeatable := false }

def closeGroup? (r : Reading) : Option Reading :=
  match r.outer with
  | [] => none
  | m :: outer => some { r with mode := m, outer, repeatable := true }

def named? (r : Reading) (cs : Chars) : Option (Reading × Chars) :=
  let name := cs.takeWhile (· != '>')
  match name, cs.dropWhile (· != '>') with
  | c :: part, _ :: rest =>
    if isNameStart c && part.all isNamePart && !r.names.contains name then
      some ({ r.openGroup r.mode with names := name :: r.names }, rest)
    else none
  | _, _ => none

/-- Flags for a group, or for the rest of the one they stand in. -/
def flagged? (r : Reading) (cs : Chars) : Option (Reading × Chars) :=
  let isEnd (c : Char) : Bool := c == ':' || c == ')'
  let flags := cs.takeWhile fun c => !isEnd c
  if areFlags flags then
    match cs.dropWhile fun c => !isEnd c with
    | ':' :: rest => some (r.openGroup (r.mode.set flags), rest)
    | ')' :: rest =>
      if flags.isEmpty then none
      else some ({ r with mode := r.mode.set flags, repeatable := false }, rest)
    | _ => none
  else none

/-- A group after its opening parenthesis. There is no looking ahead or behind. -/
def group? (r : Reading) (cs : Chars) : Option (Reading × Chars) :=
  match r.mode.skip cs with
  | '?' :: '<' :: '=' :: _ | '?' :: '<' :: '!' :: _ => none
  | '?' :: 'P' :: '<' :: cs | '?' :: '<' :: cs => r.named? cs
  | '?' :: cs => r.flagged? cs
  | cs => some (r.openGroup r.mode, cs)

def atom? (r : Reading) (a : Atom) : Option Reading :=
  if a.fits r.mode then
    let isEdge := match a with
      | .wordEdge => r.mode.wide
      | _ => false
    some { r with repeatable := true, wordEdge := r.wordEdge || isEdge }
  else none

def read? : Nat → Reading → Chars → Option Reading
  | 0, _, _ => none
  | fuel + 1, r, cs =>
    match r.mode.skip cs with
    | [] => if r.outer.isEmpty then some r else none
    | '(' :: cs => do
      let (r, cs) ← r.group? cs
      read? fuel r cs
    | ')' :: cs => do read? fuel (← r.closeGroup?) cs
    | '|' :: cs => read? fuel { r with repeatable := false } cs
    | '[' :: cs => do
      let cs ← closeClass? r.mode cs.length 0 (← openClass? r.mode cs)
      read? fuel { r with repeatable := true } cs
    | '?' :: cs | '*' :: cs | '+' :: cs =>
      if r.repeatable then read? fuel r (if cs.head? == some '?' then cs.tail else cs) else none
    | '\x7b' :: _ => none
    | '.' :: cs => if r.mode.wide then read? fuel { r with repeatable := true } cs else none
    | cs => do
      let (a, cs) ← item? r.mode cs
      read? fuel (← r.atom? a) cs

end Reading

/-- Whether a text is a pattern that an automaton can be made for. -/
def check (cs : Chars) : Except PatternError Unit :=
  match Reading.start.read? (cs.length + 1) cs with
  | none => .error .malformed
  | some r => if r.wordEdge then .error .wordEdge else .ok ()

end Pattern

end Tunebook.Libraries
