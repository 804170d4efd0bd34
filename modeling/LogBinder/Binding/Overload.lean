/-
  Log binder — choice of a method.

  Of the methods with the name of a directive, those are eligible whose
  parameters are all supplied or may be left out; the best of them is
  called.
-/
import LogBinder.Binding.Ranking

namespace LogBinder

namespace Method

/-- Whether every parameter is supplied or may be left out. -/
def isEligible (m : Method) (supplied : List String) : Bool :=
  m.parameters.all fun p => p.canOmit || supplied.contains p.name

/-- How well a method fits the supplied names. -/
def rank (m : Method) (supplied : List String) : Rank :=
  .of m.parameters fun p => supplied.contains p.name

end Method

namespace Overload

/-- The methods that a directive may call. -/
def eligible (methods : List Method) (name : String) (capability : Capability)
    (supplied : List String) : List Method :=
  methods.filter fun m =>
    m.name == name && m.capability = capability && m.isEligible supplied

/-- The method that a directive calls. -/
def select (methods : List Method) (name : String) (capability : Capability)
    (supplied : List String) : Option Method :=
  best (fun m => m.rank supplied) (eligible methods name capability supplied)

/-- The methods of a name, for messages. -/
def signatures (methods : List Method) (name : String) : List String :=
  (methods.filter fun m => m.name == name).map Method.signature

end Overload

end LogBinder
