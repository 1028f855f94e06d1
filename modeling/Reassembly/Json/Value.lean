/-!
JSON values as a reader of documents needs them. A number keeps only whether it is a natural number in
plain digits. A string whose escapes name half of a surrogate pair denotes no text; it may stand where
nobody looks at it.
-/

namespace Reassembly.Json

inductive Numeral where
  /-- Digits only. -/
  | natural (value : Nat)
  /-- With a sign, a fraction or an exponent. -/
  | other
  deriving DecidableEq

/-- A JSON value. Members keep their order and may repeat a name. -/
inductive Value where
  | null
  | bool (value : Bool)
  | number (value : Numeral)
  | text (value : Option String)
  | list (items : List Value)
  | object (members : List (Option String × Value))

namespace Value

def natural (n : Nat) : Value := .number (.natural n)

def string (s : String) : Value := .text (some s)

def record (members : List (String × Value)) : Value :=
  .object (members.map fun (name, value) => (some name, value))

def natural? (bound : Nat) : Value → Option Nat
  | .number (.natural n) => if n < bound then some n else none
  | _ => none

/-- The members of a record with the given fields, each with its value if it is there. The record may
be an object, in which names that are no fields do not count and a field may not come twice; or a list
of the first fields' values in order. -/
def fields? (names : List String) : Value → Option (List (Option Value))
  | .list items =>
    if items.length ≤ names.length then
      some (items.map some ++ List.replicate (names.length - items.length) none)
    else none
  | .object members => do
    let members ← members.mapM fun (name, value) => name.map (·, value)
    if names.all fun name => members.countP (·.1 == name) ≤ 1 then
      some (names.map (members.lookup ·))
    else none
  | _ => none

end Value

end Reassembly.Json
