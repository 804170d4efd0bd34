/-
  Log binder — values of arguments.

  Data compare by their contents.  Switches, objects and functions are
  shared and compare by identity; callbacks compare by kind and path, nodes
  by path (`Value.same`).

  * `Value` with its accessors, `Arguments` with look-up by name;
  * `FunctionBody.call` runs a static function.
-/
import LogBinder.Level
import LogBinder.FormatProvider
import LogBinder.Uri
import LogBinder.Number.Binary64
import LogBinder.Number.Decimal
import LogBinder.Time.Duration
import LogBinder.Time.Moment
import LogBinder.Config.Node
import LogBinder.Plugin.TypeRef

namespace LogBinder

/-- Why plugin code cannot go on. -/
inductive PluginError where
  | failed (reason : String)
  | missingArgument (name : String)
  | argumentKind (name expected : String)
  | invalidUri (text : String) (fault : UriFault)
  deriving DecidableEq, Repr

/-- The wording of an error. -/
def PluginError.message : PluginError → String
  | failed reason => "Plugin failure: " ++ reason
  | missingArgument name => "Missing argument '" ++ name ++ "'"
  | argumentKind name expected => "Argument '" ++ name ++ "' is not " ++ expected
  | invalidUri text fault => "Invalid URI '" ++ text ++ "': " ++ fault.message

/-- What a static function does. -/
inductive FunctionBody where
  /-- It gives its first argument, or null. -/
  | echo
  | count
  | fails (reason : String)
  | constant (text : String)
  deriving DecidableEq, Repr

/-- What a nested callback does when it is run. -/
inductive CallbackBody where
  | inert
  /-- It configures the section at a node; the number tells callbacks apart. -/
  | configures (identity : Nat) (node : Node)

/-- A converted argument. -/
inductive Value where
  | null
  | string (s : String)
  | bool (b : Bool)
  | char (c : Char)
  | int (n : Int64)
  | uint (n : UInt64)
  | float (x : Binary64)
  | decimal (d : Decimal)
  | moment (m : Moment)
  | duration (d : Duration)
  | uri (u : Uri)
  | level (l : Level)
  | enum (type member : String) (ordinal : Nat)
  | typeName (name : String)
  | levelSwitch (cell : Nat)
  | filterSwitch (cell : Nat)
  | array (items : List Value)
  | sequence (container : String) (items : List Value)
  | map (container : String) (entries : List (Value × Value))
  /-- An object: its type, its identity, its label, and its arguments if it was constructed. -/
  | object (type : String) (identity : Nat) (label : String)
      (arguments : Option (List (String × Value)))
  | callback (kind : CallbackKind) (path : String) (body : CallbackBody)
  | delegate (name : String) (signature : Signature) (identity : Nat) (body : FunctionBody)
  | node (n : Node)
  | formatProvider (p : FormatProvider)
  deriving Inhabited

/-- Arguments by parameter name, in parameter order. -/
abbrev Arguments := List (String × Value)

namespace Value

/-! ## Equality -/

mutual

/-- Whether two values are equal. -/
def same : Value → Value → Bool
  | null, null => true
  | string a, string b => a == b
  | bool a, bool b => a == b
  | char a, char b => a == b
  | int a, int b => a == b
  | uint a, uint b => a == b
  | float a, float b => a.equals b
  | decimal a, decimal b => a.equals b
  | moment a, moment b => a == b
  | duration a, duration b => a == b
  | uri a, uri b => a == b
  | level a, level b => a == b
  | enum t m i, enum u n j => t == u && m == n && i == j
  | typeName a, typeName b => a == b
  | levelSwitch a, levelSwitch b => a == b
  | filterSwitch a, filterSwitch b => a == b
  | array a, array b => sameItems a b
  | sequence c a, sequence d b => c == d && sameItems a b
  | map c a, map d b => c == d && sameEntries a b
  | object _ a _ _, object _ b _ _ => a == b
  | callback k p _, callback l q _ => k == l && p == q
  | delegate _ _ a _, delegate _ _ b _ => a == b
  | node a, node b => a.path == b.path
  | formatProvider a, formatProvider b => a == b
  | _, _ => false

/-- Whether two lists of values are equal. -/
def sameItems : List Value → List Value → Bool
  | [], [] => true
  | a :: as, b :: bs => same a b && sameItems as bs
  | _, _ => false

/-- Whether two lists of keys and values are equal. -/
def sameEntries : List (Value × Value) → List (Value × Value) → Bool
  | [], [] => true
  | (k, a) :: as, (l, b) :: bs => same k l && same a b && sameEntries as bs
  | _, _ => false

end

/-! ## Accessors -/

/-- Whether there is no value. -/
def isNull : Value → Bool
  | null => true
  | _ => false

/-- The text of a string. -/
def string? : Value → Option String
  | string s => some s
  | _ => none

/-- The truth value. -/
def bool? : Value → Option Bool
  | bool b => some b
  | _ => none

/-- The integer, if it fits into the signed range. -/
def int? : Value → Option Int64
  | int n => some n
  | uint n => if n.toNat ≤ Integer.maxSigned then some (Int64.ofNat n.toNat) else none
  | _ => none

/-- The integer, if it is not negative. -/
def uint? : Value → Option UInt64
  | uint n => some n
  | int n => if 0 ≤ n.toInt then some (UInt64.ofNat n.toInt.toNat) else none
  | _ => none

/-- The double. -/
def float? : Value → Option Binary64
  | float x => some x
  | _ => none

/-- The level. -/
def level? : Value → Option Level
  | level l => some l
  | _ => none

/-- The time span. -/
def duration? : Value → Option Duration
  | duration d => some d
  | _ => none

/-- The cell of a level switch. -/
def levelSwitch? : Value → Option Nat
  | levelSwitch cell => some cell
  | _ => none

/-- The cell of a filter switch. -/
def filterSwitch? : Value → Option Nat
  | filterSwitch cell => some cell
  | _ => none

/-- The items of an array or a container of elements. -/
def items? : Value → Option (List Value)
  | array items => some items
  | sequence _ items => some items
  | _ => none

/-- The entries of a container of keys and values. -/
def entries? : Value → Option (List (Value × Value))
  | map _ entries => some entries
  | _ => none

/-- The type and the label of an object. -/
def object? : Value → Option (String × String)
  | object type _ label _ => some (type, label)
  | _ => none

/-- The path of a callback. -/
def callbackPath? : Value → Option String
  | callback _ path _ => some path
  | _ => none

/-- The name of a function. -/
def delegateName? : Value → Option String
  | delegate name _ _ _ => some name
  | _ => none

/-- The node. -/
def node? : Value → Option Node
  | node n => some n
  | _ => none

end Value

/-- Calls a function with arguments. -/
def FunctionBody.call (arguments : List Value) : FunctionBody → Except PluginError Value
  | echo => .ok (arguments.head?.getD .null)
  | count => .ok (.int (Int64.ofNat arguments.length))
  | fails reason => .error (.failed reason)
  | constant text => .ok (.string text)

namespace Arguments

/-- The argument of a name. -/
def get? (args : Arguments) (name : String) : Option Value :=
  List.lookup name args

/-- The argument of a name, which must be present. -/
def require (args : Arguments) (name : String) : Except PluginError Value :=
  match args.get? name with
  | some v => .ok v
  | none => .error (.missingArgument name)

/-- The text of an argument. -/
def string (args : Arguments) (name : String) : Except PluginError String := do
  match (← args.require name).string? with
  | some s => return s
  | none => throw (.argumentKind name "a string")

/-- The text of an argument, if it is present and a string. -/
def string? (args : Arguments) (name : String) : Option String :=
  (args.get? name).bind Value.string?

/-- The level of an argument. -/
def level (args : Arguments) (name : String) : Except PluginError Level := do
  match (← args.require name).level? with
  | some l => return l
  | none => throw (.argumentKind name "a log level")

end Arguments

end LogBinder
