/-! Text of records and constructors: a record is its name and its fields in braces, a constructor its name and
its arguments in parentheses. -/

namespace Recompiler.Text

/-- A record with named fields. -/
def record (name : String) (fields : List (String × String)) : String :=
  name ++ " \x7b " ++ ", ".intercalate (fields.map fun (field, value) => field ++ ": " ++ value) ++ " \x7d"

/-- A constructor with one argument. -/
def tuple (name arg : String) : String :=
  name ++ "(" ++ arg ++ ")"

def bool (b : Bool) : String :=
  if b then "true" else "false"

def option (text : Option String) : String :=
  match text with
  | some t => tuple "Some" t
  | none => "None"

/-- Lower-case hexadecimal digits of a number, after `0x`. -/
def hex (n : Nat) : String :=
  "0x" ++ String.ofList (Nat.toDigits 16 n)

end Recompiler.Text
