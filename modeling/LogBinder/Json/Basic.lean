/-
  Log binder — JSON documents.

  A document keeps the members of its objects in the order in which they are
  written, repeated names included.

  * `Json.settle` gives every name its first place and its last value;
  * `Json.depth` and `Json.isReadable` bound what a reader accepts.
-/
import LogBinder.Json.Number

namespace LogBinder

/-- A JSON value. -/
inductive Json where
  | null
  | bool (b : Bool)
  | number (n : Json.Number)
  | string (s : String)
  /-- Something well formed that denotes nothing: a string with half of a surrogate pair, an object
  with such a name, or a number without a finite value. -/
  | unreadable
  | array (items : List Json)
  | object (members : List (String × Json))
  deriving Inhabited

namespace Json

/-- Puts a member at the end, or in place of the one with its name. -/
def put {α : Type} (name : String) (value : α) : List (String × α) → List (String × α)
  | [] => [(name, value)]
  | m :: rest => if m.1 == name then (name, value) :: rest else m :: put name value rest

mutual

/-- The document in which repeated names have their first place and their last value. -/
def settle : Json → Json
  | array items => array (settleItems items)
  | object members => object (settleMembers [] members)
  | other => other

/-- The items with their members settled. -/
def settleItems : List Json → List Json
  | [] => []
  | item :: rest => settle item :: settleItems rest

/-- The members that follow some settled ones. -/
def settleMembers (before : List (String × Json)) : List (String × Json) → List (String × Json)
  | [] => before
  | (name, value) :: rest => settleMembers (put name (settle value) before) rest

end

mutual

/-- How many containers are nested in one another. -/
def depth : Json → Nat
  | array items => depthItems items + 1
  | object members => depthMembers members + 1
  | _ => 0

/-- The greatest depth of some items. -/
def depthItems : List Json → Nat
  | [] => 0
  | item :: rest => max (depth item) (depthItems rest)

/-- The greatest depth of some members. -/
def depthMembers : List (String × Json) → Nat
  | [] => 0
  | (_, value) :: rest => max (depth value) (depthMembers rest)

end

mutual

/-- Whether every part of a value denotes something. -/
def isReadable : Json → Bool
  | unreadable => false
  | array items => readableItems items
  | object members => readableMembers members
  | _ => true

/-- Whether every part of some items denotes something. -/
def readableItems : List Json → Bool
  | [] => true
  | item :: rest => isReadable item && readableItems rest

/-- Whether every part of some members denotes something. -/
def readableMembers : List (String × Json) → Bool
  | [] => true
  | (_, value) :: rest => isReadable value && readableMembers rest

end

end Json

end LogBinder
