/-
  Log binder — TOML values.

  A value is a scalar, an array, or a table that keeps its keys in order.
-/
import LogBinder.Number.Binary64

namespace LogBinder

/-- A TOML value that holds no other. -/
inductive Toml.Scalar where
  | string (s : String)
  | integer (n : Int)
  | float (x : Binary64)
  | boolean (b : Bool)
  /-- A date, a time of day or both, as it is written out. -/
  | moment (text : String)
  deriving DecidableEq, Repr

/-- A TOML value. -/
inductive Toml where
  | scalar (s : Toml.Scalar)
  | array (items : List Toml)
  | table (entries : List (String × Toml))
  deriving Inhabited

end LogBinder
