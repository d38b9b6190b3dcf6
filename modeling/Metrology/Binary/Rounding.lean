/-
  Metrology.Binary.Rounding

  Floating-point numbers and the one rounding that every operation on them uses: to the
  nearest magnitude of the format, a tie to the one of even rank.
-/
import Metrology.Binary.Format

namespace Metrology

/-! ## Nearest rank -/

/-- The integer nearest to `n / d`, a tie going to the even one. -/
def roundHalfEven (n d : Nat) : Nat :=
  let quotient := n / d
  -- Twice the remainder tells on which side of the middle the fraction lies.
  let twice := 2 * (n % d)
  if twice < d then quotient
  else if d < twice then quotient + 1
  else quotient + quotient % 2

/-- Whether `n / d` is at least `2 ^ k`. -/
def reachesPowerOfTwo (n d : Nat) (k : Int) : Bool :=
  if 0 ≤ k then decide (d <<< k.toNat ≤ n) else decide (d ≤ n <<< (-k).toNat)

/-- The greatest `k` with `2 ^ k ≤ n / d`, for positive `n` and `d`. -/
def floorLog2 (n d : Nat) : Int :=
  -- The quotient of numbers of such lengths lies between `2 ^ (k - 1)` and `2 ^ (k + 1)`.
  let k : Int := (n.log2 : Int) - (d.log2 : Int)
  if reachesPowerOfTwo n d k then k else k - 1

namespace Format

/-- The power of two in whose multiples `n / d` is rounded. -/
def roundingExponent (f : Format) (n d : Nat) : Int :=
  max f.leastExponent (floorLog2 n d - (f.precision - 1 : Nat))

/-- The rank of the magnitude nearest to `n / d`. A significand that rounds up to the next
power of two carries into the rank of the next exponent, which is the rank wanted. -/
def nearestRank (f : Format) (n d : Nat) : Nat :=
  if n = 0 then 0
  else
    let e := f.roundingExponent n d
    -- The fraction is shifted by the exponent so that the quotient counts last places.
    let significand :=
      if 0 ≤ e then roundHalfEven n (d <<< e.toNat) else roundHalfEven (n <<< (-e).toNat) d
    (e - f.leastExponent).toNat * f.leadingBit + significand

end Format

/-! ## Floating-point numbers -/

/-- A number of a binary format: a sign and a finite rank, an infinity, or no number. -/
inductive Binary (f : Format) where
  | nan
  | infinite (negative : Bool)
  | finite (negative : Bool) (rank : Nat) (inRange : rank < f.rankCount)
  deriving DecidableEq

namespace Binary

variable {f : Format}

/-- The number with the given sign and rank, infinite past the last finite rank. -/
def ofRank (negative : Bool) (rank : Nat) : Binary f :=
  if h : rank < f.rankCount then .finite negative rank h else .infinite negative

/-- The number nearest to `q`, which carries the given sign also when it is zero. -/
def ofSigned (negative : Bool) (q : Rat) : Binary f :=
  ofRank negative (f.nearestRank q.num.natAbs q.den)

def ofRat (q : Rat) : Binary f := ofSigned (decide (q < 0)) q

def zero (negative : Bool) : Binary f := ofRank negative 0

/-- The rational with the given sign and magnitude. -/
def signedRat (negative : Bool) (q : Rat) : Rat := if negative then -q else q

/-- The exact value of a finite number. -/
def toRat? : Binary f → Option Rat
  | .finite negative rank _ => some (signedRat negative (f.magnitude rank))
  | _ => none

def isFinite : Binary f → Bool
  | .finite .. => true
  | _ => false

/-- A zero of either sign. -/
def isZero : Binary f → Bool
  | .finite _ rank _ => rank == 0
  | _ => false

def convert (g : Format) : Binary f → Binary g
  | .nan => .nan
  | .infinite negative => .infinite negative
  | .finite negative rank _ => ofSigned negative (f.magnitude rank)

theorem isFinite_iff_toRat? {x : Binary f} : x.isFinite = true ↔ ∃ q, x.toRat? = some q := by
  cases x <;> simp [isFinite, toRat?]

end Binary

end Metrology
