import JuliaLint.Decimal.Numeral
import JuliaLint.Ranking
import JuliaLint.Table

namespace JuliaLint

/-!
Untrusted data, as a configuration may arrive.  A record keeps its fields as
they were written; `Value.settle` gives each name one place and its last value,
and `Value.inOrder` lists the names that are list indices first, ascending, and
the others as written.  A value that a message quotes is shown as text, which
fails for a record that brings its own field `toString`.
-/

/-- Data without a fixed shape. -/
inductive Value where
  | null
  | boolean (truth : Bool)
  | number (value : Float)
  | text (content : String)
  | list (items : List Value)
  | record (fields : List (String × Value))

structure Unprintable where
  deriving DecidableEq, Repr

/-- What is said of a value that has no text. -/
def Unprintable.message (_ : Unprintable) : String :=
  "Cannot convert object to primitive value"

namespace Value

/-- The name of the field that replaces a record's own text. -/
def textField : String := "toString"

mutual

/--
The text of a value.  A list is the texts of its items with commas between
them, where an item that is null is left empty; a record has a fixed text.
-/
def display : Value → Except Unprintable String
  | null => .ok "null"
  | boolean true => .ok "true"
  | boolean false => .ok "false"
  | number value => .ok (Decimal.numeral value)
  | text content => .ok content
  | list items => do
      let texts ← displayItems items
      return ",".intercalate texts
  | record fields =>
      if fields.any fun field => field.1 == textField then
        .error {}
      else
        .ok "[object Object]"

def displayItems : List Value → Except Unprintable (List String)
  | [] => .ok []
  | null :: items => do
      let texts ← displayItems items
      return "" :: texts
  | item :: items => do
      let shown ← display item
      let texts ← displayItems items
      return shown :: texts

end

/-! ## Fields of a record -/

/-- Each name once, at its first place and with its last value. -/
def settle (fields : List (String × Value)) : List (String × Value) :=
  Table.overlay [] fields

/-- The number of decimal digits that a name spells, without leading zeros. -/
def decimalDigits? (name : String) : Option Nat :=
  let digits := name.toList
  if digits.all Char.isDigit && Nat.toDigits 10 (digitsValue digits) == digits then
    some (digitsValue digits)
  else
    none
where
  /-- The number that decimal digits denote. -/
  digitsValue (digits : List Char) : Nat :=
    digits.foldl (fun number digit => 10 * number + (digit.toNat - '0'.toNat)) 0

/-- The list index that a name spells; the largest is `2 ^ 32 - 2`. -/
def index? (name : String) : Option Nat :=
  (decimalDigits? name).filter fun number => decide (number < 0xFFFFFFFF)

/-- The fields of a record: indices ascending, then the other names as written. -/
def inOrder (fields : List (String × Value)) : List (String × Value) :=
  let settled := settle fields
  let indexed := settled.filterMap fun field => (index? field.1).map fun index => (index, field)
  let ascending := rankByKey (fun entry => -(entry.1 : Int)) indexed
  ascending.map Prod.snd ++ settled.filter fun field => (index? field.1).isNone

/-- The value of a field, the last one if the name is written more than once. -/
def field? (fields : List (String × Value)) (name : String) : Option Value :=
  (settle fields).lookup name

theorem field?_eq_lookup_reverse (fields : List (String × Value)) (name : String) :
    field? fields name = fields.reverse.lookup name := by
  rw [field?, settle, Table.lookup_overlay, List.lookup_nil, Option.or_none]

theorem nodup_names_settle (fields : List (String × Value)) :
    ((settle fields).map Prod.fst).Nodup := by
  apply Table.nodup_names_overlay
  exact List.nodup_nil

end Value
end JuliaLint
