import Tunebook.Text.Combining
import Tunebook.Text.Invisible

namespace Tunebook.Text

/-- A character inside a quotation. What cannot be seen by itself is spelled by its code point. -/
def quoteChar (c : Char) : List Char :=
  match c with
  | '"' => ['\\', '"']
  | '\\' => ['\\', '\\']
  | '\n' => ['\\', 'n']
  | '\r' => ['\\', 'r']
  | '\t' => ['\\', 't']
  | '\x00' => ['\\', '0']
  | c =>
    if isCombining c || isInvisible c then
      ['\\', 'u', '\x7b'] ++ Nat.toDigits 16 c.toNat ++ ['\x7d']
    else [c]

def quote (cs : List Char) : List Char :=
  '"' :: cs.flatMap quoteChar ++ ['"']

end Tunebook.Text
