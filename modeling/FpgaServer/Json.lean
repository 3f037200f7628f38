/-!
# Json — `config/json11.cpp`

The tree `Json::parse` returns, and the accessors `Config.cpp` reads it with.  None of them fails: a value of another type,
a missing field and an index past the end are answered with a default.
-/
namespace Fpga

/-- A `json11::Json`.  The parser makes a number of up to nine digits an `int` and every other one a `double`: a rational, or
infinite (`none`) where the literal is too large. -/
inductive Json where
  | null
  | bool (value : Bool)
  | int (value : Int)
  | double (value : Option Rat)
  | string (value : String)
  | array (items : List Json)
  | object (fields : List (String × Json))

namespace Json

def stringValue : Json → String
  | .string value => value
  | _ => ""

def arrayItems : Json → List Json
  | .array items => items
  | _ => []

/-- `operator[](size_t)`. -/
def item (i : Nat) : Json → Json
  | .array items => items.getD i .null
  | _ => .null

/-- `operator[](const std::string&)`. -/
def field (key : String) : Json → Json
  | .object fields => (fields.lookup key).getD .null
  | _ => .null

/-- `static_cast<int>` of a `double`: towards zero.  What it yields out of the range of `int` is undefined, and given here. -/
def castInt (undefinedCast : Option Rat → Int) : Option Rat → Int
  | none => undefinedCast none
  | some x =>
    let n := x.num.tdiv x.den
    if -2147483648 ≤ n ∧ n ≤ 2147483647 then n else undefinedCast (some x)

def intValue (undefinedCast : Option Rat → Int) : Json → Int
  | .int value => value
  | .double value => castInt undefinedCast value
  | _ => 0

/-- The integer a number is. -/
def integer? : Json → Option Int
  | .int value => some value
  | .double (some x) => if x.den = 1 then some x.num else none
  | _ => none

/-- An integer in the range of `int` is read as itself, however it is stored. -/
theorem intValue_of_integer? {j : Json} {n : Int} (h : j.integer? = some n) (hlow : -2147483648 ≤ n) (hhigh : n ≤ 2147483647)
    (undefinedCast : Option Rat → Int) : j.intValue undefinedCast = n := by
  cases j with
  | int value =>
    cases h
    rfl
  | double value =>
    cases value with
    | none => cases h
    | some x =>
      rw [integer?] at h
      split at h
      · rename_i hden
        cases h
        have hcast : x.num.tdiv x.den = x.num := by
          rw [hden]
          exact Int.tdiv_one _
        simp only [intValue, castInt, hcast, if_pos (And.intro hlow hhigh)]
      · cases h
  | _ => cases h

end Json
end Fpga
