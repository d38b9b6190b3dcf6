/-
  Metrology.Binary.Format

  The two binary floating-point formats, as lists of magnitudes. The finite magnitudes of a
  format are numbered in increasing order from zero; the number of a magnitude, its rank,
  is also its bit pattern without the sign.
-/

namespace Metrology

/-- The formats of 32 and 64 bits. -/
inductive Format where
  | single
  | double
  deriving DecidableEq, Repr

namespace Format

/-- Number of bits of a full significand. -/
def precision : Format → Nat
  | single => 24
  | double => 53

/-- The least full significand: a one and `precision - 1` zeros. -/
def leadingBit : Format → Nat
  | single => 8388608
  | double => 4503599627370496

/-- The power of two that the last place of the smallest magnitudes stands for. -/
def leastExponent : Format → Int
  | single => -149
  | double => -1074

/-- The least power of two beyond the finite magnitudes. -/
def overflowExponent : Format → Int
  | single => 128
  | double => 1024

def rankCount : Format → Nat
  | single => 2139095040
  | double => 9218868437227405312

/-! ## The magnitude of a rank -/

/-- The significand of the magnitude with the given rank. -/
def significand (f : Format) (rank : Nat) : Nat :=
  if rank < f.leadingBit then rank else f.leadingBit + rank % f.leadingBit

/-- The power of two that the significand counts. -/
def exponent (f : Format) (rank : Nat) : Int :=
  f.leastExponent + (rank / f.leadingBit - 1 : Nat)

/-- The magnitude with the given rank. Ranks from `rankCount` on continue the list as if
the exponent had no bound. -/
def magnitude (f : Format) (rank : Nat) : Rat :=
  (f.significand rank : Rat) * (2 : Rat) ^ f.exponent rank

end Format

end Metrology
