/-
  Metrology.Proofs.Quantity.Widening

  Quantities kept in a wider number type. No unit depends on the number type, and each
  operation that succeeds on narrower values succeeds on the wider ones in the same unit. By
  induction every expression that evaluates keeps its result when its values are widened.
-/
import Metrology.Proofs.Quantity.Expression
import Metrology.Proofs.Representation.Widening
import Metrology.Systems.Mechanics

namespace Metrology

variable {r s : Representation}

namespace Quantity

/-- The quantity with the value in the wider number type, in the same unit. -/
def widen (h : r.Widens s) (x : Quantity r) : Quantity s := ⟨h.widen x.value, x.unit⟩

@[simp] theorem unit_widen (h : r.Widens s) (x : Quantity r) : (x.widen h).unit = x.unit := rfl

theorem widen?_eq (h : r.Widens s) (x : Quantity r) : x.widen? s = some (x.widen h) := by
  rw [widen?, h.widen?_eq]
  rfl

/-! ## Conversion -/

/-- The factor depends on the units alone, and is accepted for the wider values if it is for
the narrower ones. -/
theorem convertTo_widen (h : r.Widens s) (x : Quantity r) (t : MeasureUnit) :
    Simulates (widen h) (x.convertTo t) ((x.widen h).convertTo t) := by
  rw [convertTo, convertTo]
  refine .bind_shared fun factor => ?_
  by_cases hfactor : r.isLossless factor = true
  · rw [if_pos hfactor, if_pos (h.isLossless hfactor)]
    exact (h.rescale hfactor x.value).bind fun v => .ok (widen h) ⟨v, t⟩
  · rw [if_neg hfactor]
    exact .error _

theorem toCoherent_widen (h : r.Widens s) (x : Quantity r) :
    Simulates (widen h) x.toCoherent (x.widen h).toCoherent := by
  -- Whether there is anything to convert is seen from the unit.
  rw [toCoherent, toCoherent, unit_widen]
  by_cases hcoherent : x.unit.isCoherent = true
  · rw [if_pos hcoherent, if_pos hcoherent]
    exact .ok (widen h) x
  · rw [if_neg hcoherent, if_neg hcoherent]
    exact convertTo_widen h x (coherentUnit x.dimension)

/-- The common unit is that of the units, which widening leaves alone. -/
theorem inCommonUnit_widen (h : r.Widens s) (operation : String) (x y : Quantity r) :
    Simulates (Prod.map (widen h) (widen h)) (inCommonUnit operation x y)
      (inCommonUnit operation (x.widen h) (y.widen h)) := by
  rw [inCommonUnit, inCommonUnit]
  -- The check and the common unit are the same step twice; only the conversions see values.
  refine .bind_shared fun _ => .bind_shared fun u => ?_
  refine (convertTo_widen h x u).bind fun x' => (convertTo_widen h y u).bind fun y' => ?_
  exact .ok _ (x', y')

/-! ## Arithmetic -/

theorem add_widen (h : r.Widens s) (x y : Quantity r) :
    Simulates (widen h) (x.add y) ((x.widen h).add (y.widen h)) := by
  refine (inCommonUnit_widen h "add" x y).bind fun p => ?_
  exact (h.add p.1.value p.2.value).bind fun v => .ok (widen h) ⟨v, p.1.unit⟩

theorem sub_widen (h : r.Widens s) (x y : Quantity r) :
    Simulates (widen h) (x.sub y) ((x.widen h).sub (y.widen h)) := by
  refine (inCommonUnit_widen h "subtract" x y).bind fun p => ?_
  exact (h.sub p.1.value p.2.value).bind fun v => .ok (widen h) ⟨v, p.1.unit⟩

theorem mul_widen (h : r.Widens s) (x y : Quantity r) :
    Simulates (widen h) (x.mul y) ((x.widen h).mul (y.widen h)) := by
  refine .bind_shared fun u => ?_
  exact (h.mul x.value y.value).bind fun v => .ok (widen h) ⟨v, u⟩

theorem div_widen (h : r.Widens s) (x y : Quantity r) :
    Simulates (widen h) (x.div y) ((x.widen h).div (y.widen h)) := by
  refine .bind_shared fun u => ?_
  exact (h.div x.value y.value).bind fun v => .ok (widen h) ⟨v, u⟩

theorem pow_widen (h : r.Widens s) (x : Quantity r) (n : Power) :
    Simulates (widen h) (x.pow n) ((x.widen h).pow n) := by
  refine .bind_shared fun u => ?_
  exact (h.pow x.value n).bind fun v => .ok (widen h) ⟨v, u⟩

theorem scale_widen (h : r.Widens s) (x : Quantity r) (factor : r.Value) :
    Simulates (widen h) (x.scale factor) ((x.widen h).scale (h.widen factor)) :=
  (h.mul x.value factor).map fun _ => rfl

theorem divScalar_widen (h : r.Widens s) (x : Quantity r) (divisor : r.Value) :
    Simulates (widen h) (x.divScalar divisor) ((x.widen h).divScalar (h.widen divisor)) :=
  (h.div x.value divisor).map fun _ => rfl

/-! ## Comparison -/

theorem tryEq_widen (h : r.Widens s) (x y : Quantity r) :
    Simulates id (x.tryEq y) ((x.widen h).tryEq (y.widen h)) := by
  refine (inCommonUnit_widen h "compare" x y).bind fun p => ?_
  have hequal := h.valueEq_widen p.1.value p.2.value
  dsimp only [Prod.map, widen]
  rw [hequal]
  exact .ok id _

theorem tryCompare_widen (h : r.Widens s) (x y : Quantity r) :
    Simulates id (x.tryCompare y) ((x.widen h).tryCompare (y.widen h)) := by
  refine (inCommonUnit_widen h "compare" x y).bind fun p => ?_
  have horder := h.valueCompare?_widen p.1.value p.2.value
  -- Exactly kept values always compare, so the failing branch is never taken.
  dsimp only [Prod.map, widen]
  rw [horder, Representation.valueCompare?_eq h.source]
  exact .ok id _

end Quantity

/-! ## Expressions -/

namespace Expression

/-- The expression with its quantities and its scalar factors and divisors in the wider number
type. -/
def widen (h : r.Widens s) : Expression r → Expression s
  | leaf q => leaf (q.widen h)
  | add a b => add (a.widen h) (b.widen h)
  | sub a b => sub (a.widen h) (b.widen h)
  | mul a b => mul (a.widen h) (b.widen h)
  | div a b => div (a.widen h) (b.widen h)
  | pow a n => pow (a.widen h) n
  | scale a factor => scale (a.widen h) (h.widen factor)
  | divScalar a divisor => divScalar (a.widen h) (h.widen divisor)
  | convertTo a target => convertTo (a.widen h) target
  | toCoherent a => toCoherent (a.widen h)

/-- An expression that evaluates, evaluates to the widened result once it is widened. -/
theorem simulates_widen (h : r.Widens s) (e : Expression r) :
    Simulates (Quantity.widen h) e.eval (e.widen h).eval := by
  -- The operands are widened results already, so each case is left with its own operation.
  induction e with
  | leaf q => exact .ok _ q
  | add a b iha ihb => exact iha.bind fun x => ihb.bind fun y => x.add_widen h y
  | sub a b iha ihb => exact iha.bind fun x => ihb.bind fun y => x.sub_widen h y
  | mul a b iha ihb => exact iha.bind fun x => ihb.bind fun y => x.mul_widen h y
  | div a b iha ihb => exact iha.bind fun x => ihb.bind fun y => x.div_widen h y
  | pow a n iha => exact iha.bind fun x => x.pow_widen h n
  | scale a factor iha => exact iha.bind fun x => x.scale_widen h factor
  | divScalar a divisor iha => exact iha.bind fun x => x.divScalar_widen h divisor
  | convertTo a target iha => exact iha.bind fun x => x.convertTo_widen h target
  | toCoherent a iha => exact iha.bind fun x => x.toCoherent_widen h

/-- Widening simulates evaluation. Wherever an expression evaluates over the narrower values,
it evaluates over the wider ones to the widened quantity, which is the same number in the same
unit, and where two results compare over the narrower values they compare in the same way over
the wider ones. -/
theorem eval_widen (h : r.Widens s) {e f : Expression r} {p q : Quantity r}
    (hp : e.eval = .ok p) (hq : f.eval = .ok q) :
    ∃ p' q' : Quantity s, (e.widen h).eval = .ok p' ∧ (f.widen h).eval = .ok q' ∧
      (p.widen? s = some p' ∧ s.number p'.value = r.number p.value ∧ p'.unit = p.unit) ∧
      (q.widen? s = some q' ∧ s.number q'.value = r.number q.value ∧ q'.unit = q.unit) ∧
        (∀ answer, p.tryEq q = .ok answer → p'.tryEq q' = .ok answer) ∧
          ∀ order, p.tryCompare q = .ok order → p'.tryCompare q' = .ok order := by
  refine ⟨p.widen h, q.widen h, simulates_widen h e p hp, simulates_widen h f q hq, ?_, ?_,
    p.tryEq_widen h q, p.tryCompare_widen h q⟩
  · exact ⟨p.widen?_eq h, h.number_widen p.value, rfl⟩
  · exact ⟨q.widen?_eq h, h.number_widen q.value, rfl⟩

/-- The square of a speed of six metres in two seconds, kept in 64 bits. -/
def squaredSpeed : Expression (.integer .w64) :=
  .pow (.div (.leaf ⟨.lit 6, Systems.coherentUnit Systems.length "metre"⟩)
    (.leaf ⟨.lit 2, Systems.coherentUnit Systems.time "second"⟩)) (.lit 2)

/-- The unit that it is evaluated in. -/
def squaredSpeedUnit : MeasureUnit :=
  .mk "m/s^2" "metre per second to the 2"
    ⟨[⟨Systems.length, .lit 2⟩, ⟨Systems.time, .lit (-2)⟩]⟩ .one .composed

/-- The squared speed and its double are 9 and 18 as ratios too, and compare in the same
way. -/
theorem eval_widen_squaredSpeed :
    ∃ p q : Quantity .exact, (squaredSpeed.widen .w64_exact).eval = .ok p ∧
      ((squaredSpeed.scale (.lit 2)).widen .w64_exact).eval = .ok q ∧
        p = ⟨(9 : Ratio), squaredSpeedUnit⟩ ∧ q = ⟨(18 : Ratio), squaredSpeedUnit⟩ ∧
          p.tryEq q = .ok false ∧ p.tryCompare q = .ok .lt := by
  have hspeed : squaredSpeed.eval = .ok ⟨.lit 9, squaredSpeedUnit⟩ := by cbv
  have hdouble : (squaredSpeed.scale (.lit 2)).eval = .ok ⟨.lit 18, squaredSpeedUnit⟩ := by cbv
  obtain ⟨p, q, hp, hq, ⟨hp', -⟩, ⟨hq', -⟩, heq, hcompare⟩ :=
    eval_widen .w64_exact hspeed hdouble
  refine ⟨p, q, hp, hq, ?_, ?_, heq false ?_, hcompare .lt ?_⟩
  · cases hp'
    rfl
  · cases hq'
    rfl
  · cbv
  · cbv

end Expression

end Metrology
