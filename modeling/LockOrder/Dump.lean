import LockOrder.Text.Printable

set_option autoImplicit false

namespace LockOrder.Dump

def separated (parts : List String) : String := String.intercalate ", " parts

def fields (name : String) (values : List (String × String)) : String :=
  name ++ " \x7b " ++ separated (values.map fun (field, value) => field ++ ": " ++ value) ++ " \x7d"

def tagged (name value : String) : String := name ++ "(" ++ value ++ ")"

def sequence (values : List String) : String := "[" ++ separated values ++ "]"

def optional : Option String → String
  | some value => tagged "Some" value
  | none => "None"

def hex (value : Nat) : String := String.ofList (Nat.toDigits 16 value)

-- The text of one character between quotes; what cannot be shown is written by its code point.
def escaped (c : Char) : String :=
  if c = '"' then "\\\""
  else if c = '\\' then "\\\\"
  else if c = '\n' then "\\n"
  else if c = '\t' then "\\t"
  else if c = '\r' then "\\r"
  else if c.toNat = 0 then "\\0"
  else if Text.isPrintable c then String.singleton c
  else "\\u\x7b" ++ hex c.toNat ++ "\x7d"

def quoted (text : String) : String :=
  "\"" ++ String.join (text.toList.map escaped) ++ "\""

end LockOrder.Dump
