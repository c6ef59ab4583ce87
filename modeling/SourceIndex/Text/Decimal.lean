/-!
# Decimal numbers as text

Numbers with leading zeros, and quotients with a fixed number of places.
-/

namespace SourceIndex
namespace Decimal

/-- A number with at least `width` digits. -/
def padded (width number : Nat) : String :=
  let digits := toString number
  String.ofList (List.replicate (width - digits.length) '0') ++ digits

/-- A quotient rounded to the nearest number, a half to the even neighbour. -/
def roundDiv (amount size : Nat) : Nat :=
  let low := amount / size
  let rest := 2 * (amount % size)
  if rest < size then low
  else if size < rest then low + 1
  else low + low % 2

/-- A quotient with two places. -/
def hundredths (amount size : Nat) : String :=
  let parts := roundDiv (amount * 100) size
  toString (parts / 100) ++ "." ++ padded 2 (parts % 100)

end Decimal
end SourceIndex
