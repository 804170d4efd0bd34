/-
  Log binder — the shortest decimal text of a double.

  The reals that round to a finite positive number form an interval around
  it.  Its shortest decimal is a point of the coarsest decimal grid
  (multiples of a power of ten) that meets this interval: of the two points
  next to the number the nearer one, if both are inside.

  * `shortest` finds that point as `digits * 10^exponent`;
  * a `Layout` says how digits are written, and `Layout.text` writes them.
-/
import LogBinder.Number.Binary64

namespace LogBinder

/-- Where a number goes that is as far from the grid point below as from the one above. -/
inductive TieRule where
  | up
  | even
  deriving DecidableEq, Repr

namespace Binary64

/-- The reals that round to a number, and the number itself, as multiples of a common unit. -/
structure Interval where
  low : Nat
  center : Nat
  high : Nat
  /-- Whether the ends round to the number. -/
  closed : Bool

/-- Whether a point lies in an interval. -/
def Interval.holds (i : Interval) (point : Nat) : Bool :=
  if i.closed then i.low ≤ point && point ≤ i.high else i.low < point && point < i.high

/-- The interval of `m * 2^e` in units of `2^(e-2)`; below a power of two it is half as wide. -/
def Interval.of (m : Nat) (e : Int) : Interval where
  low := if m = leastSignificand ∧ -1074 < e then 4 * m - 1 else 4 * m - 2
  center := 4 * m
  high := 4 * m + 2
  closed := m % 2 = 0

/-- The interval in units that are `factor` times smaller. -/
def Interval.refine (i : Interval) (factor : Nat) : Interval where
  low := i.low * factor
  center := i.center * factor
  high := i.high * factor
  closed := i.closed

/-- The point of the grid with the given step that is nearest to the center, if it is inside. -/
def Interval.gridPoint (i : Interval) (step : Nat) (tie : TieRule) : Option Nat :=
  let below := i.center / step
  let above := below + 1
  let rest := i.center % step
  let preferAbove := step < 2 * rest ∨ (2 * rest = step ∧ (tie = .up ∨ below % 2 = 1))
  match i.holds (below * step), i.holds (above * step) with
  | true, true => some (if preferAbove then above else below)
  | true, false => some below
  | false, true => some above
  | false, false => none

/-- The shortest decimal of the interval, trying at most `grids` grids from `10^k` down. -/
def Interval.shortest (i : Interval) (unit : Int) (tie : TieRule) : Nat → Int → Nat × Int
  | 0, k => (0, k)
  | grids + 1, k =>
    let scaled := i.refine (Nat.pow 2 unit.toNat * Nat.pow 10 (-k).toNat)
    let step := Nat.pow 2 (-unit).toNat * Nat.pow 10 k.toNat
    match scaled.gridPoint step tie with
    | some point => (point, k)
    | none => Interval.shortest i unit tie grids (k - 1)

/-- An exponent of ten above every number below `2^bits`; `1233/4096` is a little less than the
logarithm of two. -/
def coarsestExponent (bits : Int) : Int :=
  (bits * 1233) / 4096 + 1

/-- Digits and exponent of ten of the shortest decimal of a finite positive magnitude. -/
def shortest (tie : TieRule) (magnitude : Nat) : Nat × Int :=
  let (m, e) := parts magnitude
  (Interval.of m e).shortest (e - 2) tie 20 (coarsestExponent (e + m.log2 + 1))

end Binary64

/-- How a double is written. -/
structure Layout where
  tie : TieRule
  /-- The exponents of the leading digit that are written without an exponent: at least the first
  and less than the second. -/
  positional : Option (Int × Int)
  wholeEnd : String
  plus : String
  infinity : String
  nan : String

namespace Layout

/-- Zeros. -/
def zeros (n : Nat) : List Char :=
  List.replicate n '0'

/-- Digits with the decimal point after the first `place` of them. -/
def pointed (layout : Layout) (digits : List Char) (place : Int) : List Char :=
  if place ≤ 0 then '0' :: '.' :: zeros (-place).toNat ++ digits
  else if digits.length ≤ place then
    digits ++ zeros (place.toNat - digits.length) ++ layout.wholeEnd.toList
  else digits.take place.toNat ++ '.' :: digits.drop place.toNat

/-- Digits with the point after the first one, and an exponent. -/
def scientific (layout : Layout) (digits : List Char) (exponent : Int) : List Char :=
  let fraction := match digits.drop 1 with
    | [] => []
    | rest => '.' :: rest
  let sign := if exponent < 0 then ['-'] else layout.plus.toList
  digits.take 1 ++ fraction ++ 'e' :: sign ++ (toString exponent.natAbs).toList

/-- The text of a finite magnitude. -/
def magnitudeText (layout : Layout) (magnitude : Nat) : List Char :=
  if magnitude = 0 then '0' :: layout.wholeEnd.toList
  else
    let (number, k) := Binary64.shortest layout.tie magnitude
    let digits := (toString number).toList
    let leading := k + digits.length - 1
    let plain := match layout.positional with
      | none => true
      | some (least, above) => least ≤ leading && leading < above
    if plain then layout.pointed digits (leading + 1) else layout.scientific digits leading

/-- The text of a double. -/
def text (layout : Layout) (x : Binary64) : String :=
  if x.isNaN then layout.nan
  else
    let magnitude := if x.isInfinite then layout.infinity.toList
      else layout.magnitudeText x.magnitude
    String.ofList (if x.isNegative then '-' :: magnitude else magnitude)

end Layout

end LogBinder
