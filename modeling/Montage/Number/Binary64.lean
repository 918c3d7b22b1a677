import Montage.Number.Rounding

/-!
# Binary64 numbers

The numbers of the binary64 format, held exactly. A finite number is a sign and a magnitude that
counts units of `2 ^ -1074`, the least positive number of the format. Every operation computes
an exact ratio of integers and rounds it once, to the nearest number of the format and in a tie
to the one with the even significand.

* `Magnitude`: the counts of units that the format holds.
* `Magnitude.ofRatio?`: the nearest magnitude to a ratio, `none` beyond the largest.
* `Binary64`: not-a-number, the infinities and the signed magnitudes, with `+`, `-`, `*`, `/`.
* `Binary64.order`: the place on the number line that comparisons look at, none for not-a-number.
-/

namespace Montage

/-! ## Magnitudes -/

/-- The number of units of `2 ^ -1074` in one. -/
@[irreducible] def unitsInOne : Nat := Nat.pow 2 1074

/-- The first count of units beyond the largest finite number, that is `2 ^ 1024`. -/
@[irreducible] def unitLimit : Nat := Nat.pow 2 2098

/-- The distance between neighbouring numbers at a count of units: 53 significant bits fit. -/
def spacing (units : Nat) : Nat := Nat.pow 2 (units.log2 - 52)

/-- A magnitude of the format: a count of units with at most 53 significant bits, below the
limit. -/
structure Magnitude where
  units : Nat
  spacing_dvd : spacing units ∣ units
  lt_limit : units < unitLimit
  deriving DecidableEq

theorem spacing_pos (units : Nat) : 0 < spacing units := Nat.two_pow_pos _

theorem unitLimit_pos : 0 < unitLimit := by
  unfold unitLimit
  apply Nat.pow_pos
  decide

/-- A significand of at most 53 bits, or the first that has 54, keeps its spacing wherever the
point stands. -/
theorem spacing_dvd_mul_two_pow {k : Nat} (e : Nat) (h : k ≤ Nat.pow 2 53) :
    spacing (k * Nat.pow 2 e) ∣ k * Nat.pow 2 e := by
  simp only [spacing, Nat.pow_eq] at *
  rcases Nat.lt_or_eq_of_le h with hk | rfl
  · rcases Nat.eq_zero_or_pos k with rfl | hpos
    · simp
    · have hlt : (k * 2 ^ e).log2 < 53 + e := by
        rw [Nat.log2_lt (Nat.ne_of_gt (Nat.mul_pos hpos (Nat.two_pow_pos e))), Nat.pow_add]
        exact Nat.mul_lt_mul_of_pos_right hk (Nat.two_pow_pos e)
      exact Nat.dvd_trans (Nat.pow_dvd_pow 2 (by omega)) (Nat.dvd_mul_left _ _)
  · rw [← Nat.pow_add]
    exact Nat.pow_dvd_pow 2 (by rw [Nat.log2_two_pow]; omega)

namespace Magnitude

/-- The count of units nearest to `num / den` among those with 53 significant bits. -/
def nearest (num den : Nat) : Nat :=
  let gap := spacing (num / den)
  roundDiv num (den * gap) * gap

theorem roundDiv_spacing_le (num den : Nat) :
    roundDiv num (den * spacing (num / den)) ≤ Nat.pow 2 53 := by
  refine Nat.le_trans (roundDiv_le _ _) ?_
  rw [← Nat.div_div_eq_div_mul]
  suffices h : num / den / spacing (num / den) < Nat.pow 2 53 from h
  rw [Nat.div_lt_iff_lt_mul (spacing_pos _)]
  generalize num / den = q
  refine Nat.lt_of_lt_of_le (Nat.lt_log2_self (n := q)) ?_
  simp only [spacing, Nat.pow_eq]
  rw [← Nat.pow_add]
  exact Nat.pow_le_pow_right (by omega) (by omega)

theorem spacing_dvd_nearest (num den : Nat) : spacing (nearest num den) ∣ nearest num den :=
  spacing_dvd_mul_two_pow _ (roundDiv_spacing_le num den)

/-- The magnitude nearest to `num / den` units, if rounding stays below the limit. -/
def ofRatio? (num den : Nat) : Option Magnitude :=
  if h : nearest num den < unitLimit then
    some ⟨nearest num den, spacing_dvd_nearest num den, h⟩
  else
    none

def zero : Magnitude := ⟨0, Nat.dvd_zero _, unitLimit_pos⟩

end Magnitude

/-! ## Numbers -/

/-- A number of the binary64 format. Zero has two signs; not-a-number has one form. -/
inductive Binary64 where
  | nan
  | infinity (negative : Bool)
  | finite (negative : Bool) (magnitude : Magnitude)
  deriving DecidableEq

namespace Binary64

/-- The number nearest to `num / den` units with the given sign, infinite beyond the largest. -/
def ofRatio (negative : Bool) (num den : Nat) : Binary64 :=
  match Magnitude.ofRatio? num den with
  | some magnitude => finite negative magnitude
  | none => infinity negative

/-- The number nearest to an integer. -/
def ofInt (n : Int) : Binary64 := ofRatio (decide (n < 0)) (n.natAbs * unitsInOne) 1

instance (n : Nat) : OfNat Binary64 n := ⟨ofInt n⟩

instance : Inhabited Binary64 := ⟨0⟩

/-- The place on the number line, in units; the infinities stand at the two limits. -/
def order : Binary64 → Option Int
  | nan => none
  | infinity negative => some (if negative then -unitLimit else unitLimit)
  | finite negative m => some (if negative then -m.units else m.units)

def isFinite : Binary64 → Bool
  | finite .. => true
  | _ => false

/-- A comparison of two numbers by their places; nothing holds of not-a-number. -/
def compareBy (holds : Int → Int → Bool) (x y : Binary64) : Bool :=
  match x.order, y.order with
  | some a, some b => holds a b
  | _, _ => false

def lt : Binary64 → Binary64 → Bool := compareBy fun a b => decide (a < b)

def le : Binary64 → Binary64 → Bool := compareBy fun a b => decide (a ≤ b)

/-- Equality of numbers: both zeros are equal and not-a-number differs from itself. -/
def same : Binary64 → Binary64 → Bool := compareBy fun a b => decide (a = b)

instance : LT Binary64 := ⟨fun x y => x.lt y = true⟩

instance : LE Binary64 := ⟨fun x y => x.le y = true⟩

instance (x y : Binary64) : Decidable (x < y) := inferInstanceAs (Decidable (x.lt y = true))

instance (x y : Binary64) : Decidable (x ≤ y) := inferInstanceAs (Decidable (x.le y = true))

/-! ## Arithmetic -/

def neg : Binary64 → Binary64
  | nan => nan
  | infinity negative => infinity !negative
  | finite negative m => finite (!negative) m

def abs : Binary64 → Binary64
  | nan => nan
  | infinity _ => infinity false
  | finite _ m => finite false m

/-- The signed count of units of a finite number. -/
def signedUnits (negative : Bool) (m : Magnitude) : Int := if negative then -m.units else m.units

/-- The sum. Opposite numbers give the positive zero, two negative zeros the negative one. -/
def add : Binary64 → Binary64 → Binary64
  | nan, _ => nan
  | _, nan => nan
  | infinity a, infinity b => if a = b then infinity a else nan
  | infinity a, finite .. => infinity a
  | finite .., infinity b => infinity b
  | finite a x, finite b y =>
    let sum := signedUnits a x + signedUnits b y
    if sum = 0 then finite (a && b) .zero else ofRatio (decide (sum < 0)) sum.natAbs 1

/-- The product; zero times an infinity is not-a-number. -/
def mul : Binary64 → Binary64 → Binary64
  | nan, _ => nan
  | _, nan => nan
  | infinity a, infinity b => infinity (a ^^ b)
  | infinity a, finite b y => if y.units = 0 then nan else infinity (a ^^ b)
  | finite a x, infinity b => if x.units = 0 then nan else infinity (a ^^ b)
  | finite a x, finite b y => ofRatio (a ^^ b) (x.units * y.units) unitsInOne

/-- The quotient; zero by zero and infinity by infinity are not-a-number. -/
def div : Binary64 → Binary64 → Binary64
  | nan, _ => nan
  | _, nan => nan
  | infinity _, infinity _ => nan
  | infinity a, finite b _ => infinity (a ^^ b)
  | finite a _, infinity b => finite (a ^^ b) .zero
  | finite a x, finite b y =>
    if y.units = 0 then
      if x.units = 0 then nan else infinity (a ^^ b)
    else
      ofRatio (a ^^ b) (x.units * unitsInOne) y.units

instance : Neg Binary64 := ⟨neg⟩

instance : Add Binary64 := ⟨add⟩

instance : Sub Binary64 := ⟨fun x y => add x (neg y)⟩

instance : Mul Binary64 := ⟨mul⟩

instance : Div Binary64 := ⟨div⟩

/-! ## Integers from numbers -/

/-- The integer part, toward zero. Numbers that are not finite have none and give zero. -/
def truncate : Binary64 → Int
  | finite negative m =>
    let whole : Int := (m.units / unitsInOne : Nat)
    if negative then -whole else whole
  | _ => 0

/-- The nearest integer, a half going away from zero. Numbers that are not finite give zero. -/
def roundAway : Binary64 → Int
  | finite negative m =>
    let whole : Int := ((2 * m.units + unitsInOne) / (2 * unitsInOne) : Nat)
    if negative then -whole else whole
  | _ => 0

end Binary64

end Montage
