import Reassembly.Json.Value

/-!
Printing JSON values, on one line without blanks, or over several lines with two blanks for each level.
Only quotes, backslashes and control characters are escaped.
-/

namespace Reassembly.Json.Printer

/-- One line, or lines at some depth. -/
inductive Style where
  | compact
  | indented (depth : Nat)

namespace Style

def deeper : Style → Style
  | .compact => .compact
  | .indented depth => .indented (depth + 1)

def newline : Style → List Char
  | .compact => []
  | .indented depth => '\n' :: List.replicate (2 * depth) ' '

def colon : Style → List Char
  | .compact => [':']
  | .indented _ => [':', ' ']

end Style

def digit (n : Nat) : Char := Char.ofNat (if n < 10 then 48 + n else 87 + n)

def decimal (n : Nat) : List Char :=
  if n < 10 then [digit n] else decimal (n / 10) ++ [digit (n % 10)]
  termination_by n

def escapeChar (c : Char) : List Char :=
  if c = '"' then ['\\', '"']
  else if c = '\\' then ['\\', '\\']
  else if c = '\x08' then ['\\', 'b']
  else if c = '\x0c' then ['\\', 'f']
  else if c = '\n' then ['\\', 'n']
  else if c = '\r' then ['\\', 'r']
  else if c = '\t' then ['\\', 't']
  else if c.toNat < 0x20 then ['\\', 'u', '0', '0', digit (c.toNat / 16), digit (c.toNat % 16)]
  else [c]

def quote (text : String) : List Char := '"' :: (text.toList.flatMap escapeChar ++ ['"'])

def enclose (style : Style) (start close : Char) : List (List Char) → List Char
  | [] => [start, close]
  | first :: rest =>
    let separated := rest.flatMap fun element => ',' :: (style.deeper.newline ++ element)
    start :: (style.deeper.newline ++ first ++ separated ++ style.newline ++ [close])

mutual

/-- The text of a value. What a document may hold but no value is printed as stands as null. -/
def render (style : Style) : Value → List Char
  | .null => ['n', 'u', 'l', 'l']
  | .bool true => ['t', 'r', 'u', 'e']
  | .bool false => ['f', 'a', 'l', 's', 'e']
  | .number (.natural n) => decimal n
  | .number .other => ['n', 'u', 'l', 'l']
  | .text (some text) => quote text
  | .text none => ['n', 'u', 'l', 'l']
  | .list items => enclose style '[' ']' (renderItems style.deeper items)
  | .object members => enclose style '\x7b' '\x7d' (renderMembers style.deeper members)

def renderItems (style : Style) : List Value → List (List Char)
  | [] => []
  | item :: rest => render style item :: renderItems style rest

def renderMembers (style : Style) : List (Option String × Value) → List (List Char)
  | [] => []
  | (name, item) :: rest =>
    (quote (name.getD "") ++ style.colon ++ render style item) :: renderMembers style rest

end

end Reassembly.Json.Printer

namespace Reassembly.Json

def Value.compact (v : Value) : String := String.ofList (Printer.render .compact v)

def Value.pretty (v : Value) : String := String.ofList (Printer.render (.indented 0) v)

end Reassembly.Json
