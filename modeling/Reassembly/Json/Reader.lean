import Reassembly.Json.Value

/-!
Reading JSON text. The grammar is that of RFC 8259 and nothing else. Each reader takes a value off the
front of the text and gives the rest, or fails.
-/

namespace Reassembly.Json.Reader

def isBlank (c : Char) : Bool := c == ' ' || c == '\t' || c == '\n' || c == '\r'

def skipBlank (text : List Char) : List Char := text.dropWhile isBlank

def word : List Char → List Char → Option (List Char)
  | [], text => some text
  | _, [] => none
  | c :: expected, d :: text => if c = d then word expected text else none

def digitsValue (digits : List Char) : Nat :=
  digits.foldl (fun value c => value * 10 + (c.toNat - '0'.toNat)) 0

def digits (text : List Char) : Option (List Char × List Char) :=
  match text.span Char.isDigit with
  | ([], _) => none
  | found => some found

def fraction : List Char → Option (Bool × List Char)
  | '.' :: text => (digits text).map fun (_, rest) => (true, rest)
  | text => some (false, text)

def exponent : List Char → Option (Bool × List Char)
  | c :: text =>
    if c = 'e' ∨ c = 'E' then
      let unsigned := match text with
        | '+' :: text | '-' :: text => text
        | text => text
      (digits unsigned).map fun (_, rest) => (true, rest)
    else some (false, c :: text)
  | [] => some (false, [])

/-- A number without its sign. No digit follows a leading zero. -/
def unsigned (text : List Char) : Option (Numeral × List Char) := do
  let (whole, rest) ← match text with
    | '0' :: rest => some (['0'], rest)
    | _ => digits text
  let (isFraction, rest) ← fraction rest
  let (isScaled, rest) ← exponent rest
  return (if isFraction || isScaled then .other else .natural (digitsValue whole), rest)

def number : List Char → Option (Numeral × List Char)
  | '-' :: text => (unsigned text).map fun (_, rest) => (.other, rest)
  | text => unsigned text

/-- A character of a string, or a code unit that an escape names. -/
inductive Piece where
  | char (c : Char)
  | unit (code : Nat)
  deriving DecidableEq

def hexValue? (c : Char) : Option Nat :=
  if '0' ≤ c ∧ c ≤ '9' then some (c.toNat - '0'.toNat)
  else if 'a' ≤ c ∧ c ≤ 'f' then some (c.toNat - 'a'.toNat + 10)
  else if 'A' ≤ c ∧ c ≤ 'F' then some (c.toNat - 'A'.toNat + 10)
  else none

def codeUnit? (a b c d : Char) : Option Nat := do
  let a ← hexValue? a
  let b ← hexValue? b
  let c ← hexValue? c
  let d ← hexValue? d
  return ((a * 16 + b) * 16 + c) * 16 + d

def shortEscape? : Char → Option Char
  | '"' => some '"'
  | '\\' => some '\\'
  | '/' => some '/'
  | 'b' => some '\x08'
  | 'f' => some '\x0c'
  | 'n' => some '\n'
  | 'r' => some '\r'
  | 't' => some '\t'
  | _ => none

def pieces : List Char → Option (List Piece × List Char)
  | [] => none
  | '"' :: rest => some ([], rest)
  | '\\' :: 'u' :: a :: b :: c :: d :: rest => do
    let code ← codeUnit? a b c d
    let (others, rest) ← pieces rest
    return (.unit code :: others, rest)
  | '\\' :: c :: rest => do
    let c ← shortEscape? c
    let (others, rest) ← pieces rest
    return (.char c :: others, rest)
  | c :: rest => do
    if c.toNat < 0x20 ∨ c = '\\' then none
    let (others, rest) ← pieces rest
    return (.char c :: others, rest)

def isLeading (code : Nat) : Bool := 0xD800 ≤ code && code < 0xDC00

def isTrailing (code : Nat) : Bool := 0xDC00 ≤ code && code < 0xE000

/-- The text of a string, where every surrogate stands in a pair. -/
def denote : List Piece → Option (List Char)
  | [] => some []
  | .char c :: rest => (denote rest).map (c :: ·)
  | .unit code :: .unit second :: rest =>
    if isLeading code then
      if isTrailing second then
        let c := Char.ofNat (0x10000 + (code - 0xD800) * 0x400 + (second - 0xDC00))
        (denote rest).map (c :: ·)
      else none
    else if isTrailing code then none
    else (denote (.unit second :: rest)).map (Char.ofNat code :: ·)
  | .unit code :: rest =>
    if isLeading code || isTrailing code then none
    else (denote rest).map (Char.ofNat code :: ·)

def string (text : List Char) : Option (Option String × List Char) := do
  let (found, rest) ← pieces text
  return ((denote found).map String.ofList, rest)

/-- One element or more, with commas between, up to `close`. Text of `limit` characters holds fewer
elements than that. -/
def separated {α : Type} (close : Char) (element : List Char → Option (α × List Char)) :
    (limit : Nat) → List Char → Option (List α × List Char)
  | 0, _ => none
  | limit + 1, text => do
    let (first, rest) ← element text
    match skipBlank rest with
    | ',' :: rest => do
      let (others, rest) ← separated close element limit rest
      return (first :: others, rest)
    | c :: rest => if c = close then return ([first], rest) else none
    | [] => none

def group {α : Type} (close : Char) (element : List Char → Option (α × List Char)) (limit : Nat)
    (text : List Char) : Option (List α × List Char) :=
  match skipBlank text with
  | [] => none
  | c :: rest => if c = close then some ([], rest) else separated close element limit (c :: rest)

def member (value : List Char → Option (Value × List Char)) (text : List Char) :
    Option ((Option String × Value) × List Char) :=
  match skipBlank text with
  | '"' :: text => do
    let (name, rest) ← string text
    match skipBlank rest with
    | ':' :: rest => do
      let (found, rest) ← value rest
      return ((name, found), rest)
    | _ => none
  | _ => none

/-- A value, at most `depth` brackets deep. -/
def value (limit : Nat) : (depth : Nat) → List Char → Option (Value × List Char)
  | 0, _ => none
  | depth + 1, text =>
    match skipBlank text with
    | 'n' :: rest => (word ['u', 'l', 'l'] rest).map (.null, ·)
    | 't' :: rest => (word ['r', 'u', 'e'] rest).map (.bool true, ·)
    | 'f' :: rest => (word ['a', 'l', 's', 'e'] rest).map (.bool false, ·)
    | '"' :: rest => (string rest).map fun (found, rest) => (.text found, rest)
    | '[' :: rest =>
      (group ']' (value limit depth) limit rest).map fun (items, rest) => (.list items, rest)
    | '\x7b' :: rest =>
      (group '\x7d' (member (value limit depth)) limit rest).map fun (members, rest) =>
        (.object members, rest)
    | rest => (number rest).map fun (found, rest) => (.number found, rest)

end Reassembly.Json.Reader

namespace Reassembly.Json

def Value.ofText (text : String) : Option Value :=
  let chars := text.toList
  match Reader.value chars.length (chars.length + 1) chars with
  | none => none
  | some (found, rest) => if (Reader.skipBlank rest).isEmpty then some found else none

end Reassembly.Json
