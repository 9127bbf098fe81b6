/-! JSON numbers, and which of them a binary64 number can stand for. A number is read in two steps:
its leading digits, as many as fit 64 bits, are rounded to binary64, and so is the product with a
power of ten, which is rounded to binary64 as well. -/

namespace PathPolicy.Json

/-- A numeral without sign, fraction and exponent that fits 64 bits is `natural`; any other one
stands for `significand * 10 ^ exponent`, up to its sign and to digits that do not fit. -/
inductive Number
  | natural (n : Nat)
  | decimal (significand : Nat) (exponent : Int)
  deriving DecidableEq, Repr

namespace Binary64

/-- The nearest number of at most 53 significant bits, the one with an even last bit if two are
equally near. -/
def round (n : Nat) : Nat :=
  let unused := n.log2 + 1 - 53
  let kept := n >>> unused
  let rest := n % (1 <<< unused)
  let half := 1 <<< unused / 2
  let up := half < rest || (half = rest && unused ≠ 0 && kept % 2 = 1)
  (if up then kept + 1 else kept) <<< unused

/-- The least magnitude that is rounded to infinity. -/
def overflow : Nat := 1 <<< 1024 - 1 <<< 970

/-- The greatest power of ten below `overflow`. -/
def maxTenPower : Int := 308

end Binary64

namespace Number

/-- Small numbers may become zero, but no number becomes infinite. -/
def isFinite : Number → Bool
  | natural _ => true
  | decimal significand exponent =>
    if significand = 0 || exponent < 0 then true
    else if Binary64.maxTenPower < exponent then false
    else Binary64.round significand * Binary64.round (Nat.pow 10 exponent.toNat) < Binary64.overflow

end Number

end PathPolicy.Json
