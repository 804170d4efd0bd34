/-
  Log binder — expansion of `%NAME%` references.

  `expand lookup cs` replaces, from the left, each reference whose name
  `lookup` knows by its value.  A reference that is not known stays, and its
  closing sign may open the next one; substituted text is not read again.

  * `Environment` : named variables in order, and the lookup they give.
-/
import LogBinder.Text.Split

namespace LogBinder

/-- Variables in the order in which they were set. -/
abbrev Environment := List (String × String)

namespace Environment

/-- The value of the first variable whose definition `name=value` starts with the name asked for
and an equals sign. -/
def get? (env : Environment) (name : String) : Option String :=
  env.findSome? fun v =>
    let wanted := name.toList ++ ['=']
    let definition := v.1.toList ++ '=' :: v.2.toList
    if wanted.isPrefixOf definition then some (String.ofList (definition.drop wanted.length))
    else none

/-- Sets a variable; one that exists keeps its place. -/
def set (env : Environment) (name value : String) : Environment :=
  if env.any fun v => v.1 == name then env.map fun v => if v.1 == name then (name, value) else v
  else env ++ [(name, value)]

/-- Removes a variable. -/
def unset (env : Environment) (name : String) : Environment :=
  env.filter fun v => v.1 != name

end Environment

namespace Expansion

theorem length_lt_of_cut {sep : Char} {cs front back : List Char}
    (h : Text.cut sep cs = some (front, back)) : front.length + back.length + 1 = cs.length := by
  rw [(Text.cut_eq_some h).1]
  simp only [List.length_append, List.length_cons]
  omega

/-- The text with every known reference replaced. -/
def expand (lookup : List Char → Option (List Char)) (cs : List Char) : List Char :=
  match _h : Text.cut '%' cs with
  | none => cs
  | some (literal, after) =>
    match _h' : Text.cut '%' after with
    | none => cs
    | some (name, rest) =>
      match if name.isEmpty then none else lookup name with
      | some value => literal ++ value ++ expand lookup rest
      | none => literal ++ '%' :: name ++ expand lookup ('%' :: rest)
termination_by cs.length
decreasing_by
  all_goals
    have := length_lt_of_cut _h
    have := length_lt_of_cut _h'
    grind

end Expansion

/-- A text with the variables that it refers to filled in. -/
def Environment.expand (env : Environment) (text : String) : String :=
  String.ofList (Expansion.expand
    (fun name => (env.get? (String.ofList name)).map String.toList) text.toList)

/-- A text with the named values that it refers to filled in. -/
def Expansion.fill (values : List (String × String)) (text : String) : String :=
  String.ofList (Expansion.expand
    (fun name => (values.lookup (String.ofList name)).map String.toList) text.toList)

end LogBinder
