import Determined.Schemes.Binary64

/-! The values that the schemas are about (`pkg/schemas/extensions/util.go`), and what the master
    and the client make of them.

    The master keeps a number as it is written and converts it where it is used. For the client, a
    number written without a fraction and an exponent is an integer of any size, and another one is
    a number of 64 bits. -/

namespace Determined.Schemas
open Determined.Schemes

/-- A number as it is written: with a fraction or an exponent, or without. -/
inductive Number where
  | int (value : ℤ)
  | float (value : ℚ)
  deriving DecidableEq, Repr

inductive JSON where
  | null
  | bool (value : Bool)
  | number (value : Number)
  | string (value : String)
  | array (elements : List JSON)
  | object (members : List (String × JSON))
  deriving Repr

abbrev JSONObject := List (String × JSON)

namespace Number

def literal : Number → ℚ
  | int value => value
  | float value => value

/-- `json.Number.Float64`; a number that is too large is an error. -/
def float64 (n : Number) : Option ℚ :=
  match binary64 n.literal with
  | some (some value) => some value
  | _ => none

/-- `json.Number.Int64`. -/
def int64 : Number → Option ℤ
  | int value => if -2 ^ 63 ≤ value ∧ value < 2 ^ 63 then some value else none
  | float _ => none

/-- The number that the client reads. -/
def python : Number → WithBot (WithTop ℚ)
  | int value => (((value : ℚ) : WithTop ℚ) : WithBot (WithTop ℚ))
  | float value => binary64 value

end Number

namespace JSON

def isNull : JSON → Bool
  | null => true
  | _ => false

def isArray : JSON → Bool
  | array _ => true
  | _ => false

def isObject : JSON → Bool
  | object _ => true
  | _ => false

def text : JSON → Option (List Char)
  | string value => some value.toList
  | _ => none

def float64 : JSON → Option ℚ
  | number n => n.float64
  | _ => none

def int64 : JSON → Option ℤ
  | number n => n.int64
  | _ => none

/-- What a map holds at a key, and what `dict.get` returns. -/
def get (members : JSONObject) (key : String) : JSON := (members.lookup key).getD null

/-- The truth of a value to the client. -/
def truthy : JSON → Bool
  | null => false
  | bool value => value
  | number n => n.python ≠ 0
  | string value => value ≠ ""
  | array elements => !elements.isEmpty
  | object members => !members.isEmpty

/-- A boolean is a number to the client. -/
def pythonNumber : JSON → Option (WithBot (WithTop ℚ))
  | number n => some n.python
  | bool value => some (if value then 1 else 0)
  | _ => none

/-- A boolean is an integer to the client. -/
def pythonInt : JSON → Option ℤ
  | number (.int value) => some value
  | bool value => some (if value then 1 else 0)
  | _ => none

mutual

/-- Python's `==`. -/
def pyEq : JSON → JSON → Bool
  | null, null => true
  | string x, string y => x == y
  | array xs, array ys => pyEqList xs ys
  | object xs, object ys => xs.length == ys.length && pyEqMembers xs ys
  | x, y =>
    match x.pythonNumber, y.pythonNumber with
    | some m, some n => m == n
    | _, _ => false

def pyEqList : List JSON → List JSON → Bool
  | [], [] => true
  | x :: xs, y :: ys => pyEq x y && pyEqList xs ys
  | _, _ => false

def pyEqMembers : JSONObject → JSONObject → Bool
  | [], _ => true
  | (key, x) :: xs, ys =>
    (match ys.lookup key with
    | some y => pyEq x y
    | none => false) && pyEqMembers xs ys

end

mutual

/-- Python's `>=`; values of other types cannot be compared. -/
def pyGe : JSON → JSON → Option Bool
  | string x, string y => some (y ≤ x)
  | array xs, array ys => pyGeList xs ys
  | x, y =>
    match x.pythonNumber, y.pythonNumber with
    | some m, some n => some (n ≤ m)
    | _, _ => none

/-- Lists are compared at the first elements that differ. -/
def pyGeList : List JSON → List JSON → Option Bool
  | [], [] => some true
  | [], _ :: _ => some false
  | _ :: _, [] => some true
  | x :: xs, y :: ys => if pyEq x y then pyGeList xs ys else pyGe x y

end

end JSON

end Determined.Schemas
