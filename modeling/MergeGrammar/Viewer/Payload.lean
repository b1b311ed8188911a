/-!
# What a viewer receives

A viewer receives a list of trees as one array of strings in JSON without blanks. In a string only
the quote, the backslash and the characters below U+0020 are escaped, five of these with a letter.
-/

namespace MergeGrammar.Viewer

def hexDigit (n : Nat) : Char := "0123456789abcdef".toList.getD n '0'

def escape (c : Char) : List Char :=
  match c with
  | '"' => ['\\', '"']
  | '\\' => ['\\', '\\']
  | '\x08' => ['\\', 'b']
  | '\t' => ['\\', 't']
  | '\n' => ['\\', 'n']
  | '\x0c' => ['\\', 'f']
  | '\r' => ['\\', 'r']
  | c =>
    if c.toNat < 0x20 then
      ['\\', 'u', '0', '0', hexDigit (c.toNat / 16), hexDigit (c.toNat % 16)]
    else [c]

def stringText (text : String) : String :=
  "\"" ++ String.ofList (text.toList.flatMap escape) ++ "\""

def payload (trees : List String) : String :=
  "[" ++ ",".intercalate (trees.map stringText) ++ "]"

end MergeGrammar.Viewer
