namespace Tunebook.Text

/-- Puts a backslash before each percent sign. -/
def escape (cs : List Char) : List Char :=
  cs.flatMap fun c => if c = '%' then ['\\', '%'] else [c]

/-- The text up to its comment, with escaped percent signs made plain. -/
def unescape : List Char → List Char
  | [] => []
  | '\\' :: '%' :: cs => '%' :: unescape cs
  | c :: cs => if c = '%' then [] else c :: unescape cs

end Tunebook.Text
