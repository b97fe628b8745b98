/-
JSON values as a decoder for untyped data sees them, and the access to a
member by a dotted path.  An object is the list of its members in the order
they were written; decoding into a map keeps the last member of a name.
-/
import Mathlib.Algebra.Order.Ring.Int

namespace Hoorific

/-- A JSON value.  A number is kept as an integer when it is written as one. -/
inductive Json where
  | null
  | bool (b : Bool)
  | int (n : Int)
  | real (text : String)
  | str (s : String)
  | arr (items : List Json)
  | obj (members : List (String × Json))

/-- The value as a map: an object, or `null` for the empty map. -/
def Json.members : Json → Option (List (String × Json))
  | .obj ms => some ms
  | .null => some []
  | _ => none

/-- The member of a map under a name. -/
def memberOf (name : String) (ms : List (String × Json)) : Option Json :=
  (ms.reverse.find? fun m => m.1 == name).map Prod.snd

/-- The parts of a text between dots. -/
def splitDots (s : String) : List String := (go s.toList).map String.ofList
where
  go : List Char → List (List Char)
    | [] => [[]]
    | c :: cs =>
      if c = '.' then [] :: go cs
      else match go cs with
        | [] => [[c]]
        | part :: parts => (c :: part) :: parts

/-- The value at a path of member names; an empty name leads nowhere. -/
def Json.walk : List String → Option Json → Option Json
  | [], v => v
  | part :: rest, v =>
    if part = "" then none
    else match v.bind Json.members with
      | none => none
      | some ms => Json.walk rest (memberOf part ms)

/-- The value at a dotted path. -/
def Json.field (data : Json) (path : String) : Option Json := Json.walk (splitDots path) (some data)

example : (splitDots "usage.input", splitDots "") = (["usage", "input"], [""]) := by decide

end Hoorific
