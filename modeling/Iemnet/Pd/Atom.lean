import Mathlib.Data.Rat.Defs
import Mathlib.Data.Int.Log
import Mathlib.Data.Rat.Floor

/-!
# Pd atoms and floats

The part of Pd that the iemnet objects compute with: the tagged {lit}`t_atom`
(a type field and a union that are written separately), the accessors
{lit}`atom_getfloat` and {lit}`atom_getint`, and the two directions of the
conversion between C integers and the single precision {lit}`t_float`.

A {lit}`t_float` value is a rational.  Storing an integer rounds to 24 bits of
precision; casting back truncates, and a cast that does not fit is undefined in
C, so a {lit}`FloatArg` carries the number the machine happens to deliver.

Main results:

- Theorem {lit}`roundToFloat_of_le`: integers up to 2^24 are stored exactly.
- Theorem {lit}`roundToSingle_natCast`: the conversions from integers and from doubles agree
  on the natural numbers.
- Theorem {lit}`FloatArg.toInt_ofInt`: such an integer survives the round trip
  through a float argument.
-/

namespace Iemnet
namespace Pd

/-- C's conversion of a float to an integer type drops the fraction. -/
def truncate (f : ℚ) : Int :=
  f.num.tdiv f.den

/-- An integer has no fraction to drop. -/
@[simp]
theorem truncate_intCast (n : Int) : truncate (n : ℚ) = n := by
  simp [truncate]

/-- A natural number has no fraction to drop. -/
@[simp]
theorem truncate_natCast (n : Nat) : truncate (n : ℚ) = n := by
  simpa using truncate_intCast (n : Int)

/-! ## Atoms -/

/-- {lit}`t_atomtype`, as far as it is distinguished here. -/
inductive AtomType
  | null
  | float
  | symbol
  | pointer
deriving DecidableEq, Repr

/-- {lit}`t_word`: the union holds whatever was stored last, whatever the type
field says. -/
inductive Word
  | float (f : ℚ)
  | symbol (s : String)
  | other
deriving DecidableEq, Repr

/-- {lit}`t_atom`. -/
structure Atom where
  type : AtomType
  w : Word
deriving DecidableEq, Repr

/-- {lit}`SETFLOAT`. -/
def setFloat (f : ℚ) : Atom :=
  ⟨.float, .float f⟩

/-- {lit}`SETSYMBOL`. -/
def setSymbol (s : String) : Atom :=
  ⟨.symbol, .symbol s⟩

/-- {lit}`atom_getfloat`: 0 unless the atom is typed as a float. -/
def atomGetfloat (a : Atom) : ℚ :=
  match a.type, a.w with
  | .float, .float f => f
  | _, _ => 0

/-- {lit}`atom_getint`. -/
def atomGetint (a : Atom) : Int :=
  truncate (atomGetfloat a)

/-- {lit}`atom_getsymbol`: an atom that is not a symbol reads as the symbol
{lit}`float`. -/
def atomGetsymbol (a : Atom) : String :=
  match a.type, a.w with
  | .symbol, .symbol s => s
  | _, _ => "float"

/-- A float atom reads as the float that was stored. -/
@[simp]
theorem atomGetfloat_setFloat (f : ℚ) : atomGetfloat (setFloat f) = f :=
  rfl

/-- A natural number is read back as an integer. -/
@[simp]
theorem atomGetint_setFloat_natCast (n : Nat) : atomGetint (setFloat n) = n := by
  simp [atomGetint]

/-! ## Storing an integer in a single precision float -/

/-- Round a natural number to 24 significant bits, ties to even. -/
def roundNat (m : Nat) : Nat :=
  let q := 2 ^ (m.log2 - 23)
  let d := m / q
  let r := m % q
  (d + if q < 2 * r ∨ (2 * r = q ∧ d % 2 = 1) then 1 else 0) * q

/-- The single precision value a C integer is converted to. -/
def roundToFloat (n : Int) : ℚ :=
  if 0 ≤ n then (roundNat n.natAbs : ℚ) else -(roundNat n.natAbs : ℚ)

/-- Up to 2^24 nothing is lost. -/
theorem roundNat_of_le {m : Nat} (hm : m ≤ 2 ^ 24) : roundNat m = m := by
  rcases Nat.lt_or_eq_of_le hm with hlt | rfl
  · have hlog : m.log2 - 23 = 0 := by
      by_cases h0 : m = 0
      · subst h0
        simp
      · have := (Nat.log2_lt h0).2 hlt
        omega
    simp [roundNat, hlog, Nat.mod_one]
  · decide

/-- Integers up to 2^24 are stored exactly. -/
theorem roundToFloat_of_le {n : Int} (hn : n.natAbs ≤ 2 ^ 24) :
    roundToFloat n = n := by
  unfold roundToFloat
  rw [roundNat_of_le hn]
  split
  · rename_i h
    have : ((n.natAbs : Int) : ℚ) = n := by rw [Int.natAbs_of_nonneg h]
    simpa using this
  · rename_i h
    have : ((-(n.natAbs : Int) : Int) : ℚ) = n := by congr 1; omega
    simpa using this

/-- Natural numbers up to 2^24 are stored exactly. -/
theorem roundToFloat_natCast {m : Nat} (hm : m ≤ 2 ^ 24) :
    roundToFloat (m : Int) = m := by
  simpa using roundToFloat_of_le (by simpa using hm : (m : Int).natAbs ≤ 2 ^ 24)

/-- The nearest integer, ties to even. -/
def roundEven (q : ℚ) : Int :=
  let d := ⌊q⌋
  let r := q - d
  d + if 1 / 2 < r ∨ (r = 1 / 2 ∧ d % 2 = 1) then 1 else 0

/-- The place of the last bit of a single precision float near {lit}`f`. -/
def lastBit (f : ℚ) : Int :=
  max (Int.log 2 |f| - 23) (-149)

/-- The single precision value a C double is converted to, if that is finite. -/
def roundToSingle (f : ℚ) : ℚ :=
  roundEven (f / 2 ^ lastBit f) * 2 ^ lastBit f

/-- Rounding a quotient of natural numbers is a matter of the remainder. -/
theorem roundEven_natCast_div (m : Nat) {q : Nat} (hq : 0 < q) :
    roundEven ((m : ℚ) / q) =
      (m / q + if q < 2 * (m % q) ∨ (2 * (m % q) = q ∧ m / q % 2 = 1) then 1 else 0 : Nat) := by
  have hpos : (0 : ℚ) < q := Nat.cast_pos.2 hq
  have hfloor : ⌊(m : ℚ) / q⌋ = (m / q : Nat) := by
    rw [Rat.floor_natCast_div_natCast, Int.natCast_div]
  have hrest : (m : ℚ) / q - ((m / q : Nat) : ℚ) = (m % q : Nat) / q := by
    rw [div_sub' hpos.ne', div_left_inj' hpos.ne', sub_eq_iff_eq_add]
    exact_mod_cast (Nat.mod_add_div m q).symm
  have hlt : 1 / 2 < ((m % q : Nat) : ℚ) / q ↔ q < 2 * (m % q) := by
    rw [div_lt_div_iff₀ two_pos hpos, one_mul]
    exact_mod_cast Iff.of_eq (by rw [Nat.mul_comm])
  have heq : ((m % q : Nat) : ℚ) / q = 1 / 2 ↔ 2 * (m % q) = q := by
    rw [div_eq_div_iff hpos.ne' two_ne_zero, one_mul]
    exact_mod_cast Iff.of_eq (by rw [Nat.mul_comm])
  have hodd : ((m / q : Nat) : Int) % 2 = 1 ↔ m / q % 2 = 1 := by omega
  simp only [roundEven, hfloor, Int.cast_natCast, hrest, hlt, heq, hodd]
  split <;> simp

/-- For natural numbers the two conversions agree. -/
theorem roundToSingle_natCast (m : Nat) : roundToSingle m = roundNat m := by
  have hlog : Int.log 2 |(m : ℚ)| = m.log2 := by
    rw [Nat.abs_cast, Int.log_natCast, Nat.log2_eq_log_two]
  by_cases hbig : 23 ≤ m.log2
  case pos =>
    have hlast : lastBit m = (m.log2 - 23 : Nat) := by
      rw [lastBit, hlog]
      omega
    have hpow : (2 : ℚ) ^ (m.log2 - 23) = (2 ^ (m.log2 - 23) : Nat) := by
      rw [Nat.cast_pow, Nat.cast_ofNat]
    rw [roundToSingle, hlast, zpow_natCast, hpow, roundEven_natCast_div m (Nat.two_pow_pos _)]
    simp only [roundNat]
    push_cast
    rfl
  case neg =>
    -- a small number fits: it is a multiple of its last bit
    have hlast : lastBit m = -(23 - m.log2 : Nat) := by
      rw [lastBit, hlog]
      omega
    have hsmall : m ≤ 2 ^ 24 := by
      have hlt := Nat.lt_log2_self (n := m)
      have hpow : 2 ^ (m.log2 + 1) ≤ 2 ^ 24 := Nat.pow_le_pow_right two_pos (by omega)
      omega
    have hwhole : (m : ℚ) / 2 ^ lastBit (m : ℚ) =
        ((m * 2 ^ (23 - m.log2) : Nat) : ℚ) / (1 : Nat) := by
      rw [hlast, zpow_neg, zpow_natCast, div_inv_eq_mul, Nat.cast_one, div_one]
      push_cast
      rfl
    have hround : (roundEven ((m : ℚ) / 2 ^ lastBit (m : ℚ)) : ℚ) =
        (m : ℚ) / 2 ^ lastBit (m : ℚ) := by
      rw [hwhole, roundEven_natCast_div _ Nat.one_pos]
      simp [Nat.mod_one]
    rw [roundToSingle, hround, div_mul_cancel₀ _ (zpow_ne_zero _ two_ne_zero),
      roundNat_of_le hsmall]

/-- {lit}`SETFLOAT` of a C integer. -/
def setInt (n : Int) : Atom :=
  setFloat (roundToFloat n)

/-- {lit}`SETFLOAT` of a C double. -/
def setDouble (f : ℚ) : Atom :=
  setFloat (roundToSingle f)

/-- A natural number up to 2^24 is stored as it is. -/
theorem setInt_natCast {m : Nat} (hm : m ≤ 2 ^ 24) : setInt m = setFloat m := by
  rw [setInt, roundToFloat_natCast hm]

/-- Integers that are stored exactly can be told apart. -/
theorem setInt_inj {m n : Int} (hm : m.natAbs ≤ 2 ^ 24) (hn : n.natAbs ≤ 2 ^ 24) :
    setInt m = setInt n ↔ m = n := by
  rw [setInt, setInt, roundToFloat_of_le hm, roundToFloat_of_le hn]
  constructor
  · intro h
    have hword := congrArg atomGetfloat h
    rw [atomGetfloat_setFloat, atomGetfloat_setFloat] at hword
    exact_mod_cast hword
  · exact congrArg fun k : Int => setFloat k

/-- A {lit}`t_int` handed to a function that takes an {lit}`int`. -/
def toInt32 (n : Int) : Int :=
  (BitVec.ofInt 32 n).toInt

/-! ## Casting a float argument to an integer -/

/-- A {lit}`t_floatarg` as a message handler sees it: the value, and the bits an
out-of-range cast of it delivers (C leaves that cast undefined; a NaN or an
infinity behaves like an out-of-range value here). -/
structure FloatArg where
  value : ℚ
  wild : BitVec 32
deriving DecidableEq

/-- {lit}`(int)f`. -/
def FloatArg.toInt (f : FloatArg) : Int :=
  if -(2 ^ 31) ≤ truncate f.value ∧ truncate f.value < 2 ^ 31 then truncate f.value
  else f.wild.toInt

/-- {lit}`(unsigned int)f`. -/
def FloatArg.toUInt (f : FloatArg) : Nat :=
  if 0 ≤ truncate f.value ∧ truncate f.value < 2 ^ 32 then (truncate f.value).toNat
  else f.wild.toNat

/-- {lit}`(unsigned short)f`. -/
def FloatArg.toUShort (f : FloatArg) : BitVec 16 :=
  if 0 ≤ truncate f.value ∧ truncate f.value < 2 ^ 16 then BitVec.ofInt 16 (truncate f.value)
  else f.wild.setWidth 16

/-- {lit}`(unsigned char)f`. -/
def FloatArg.toUChar (f : FloatArg) : BitVec 8 :=
  if 0 ≤ truncate f.value ∧ truncate f.value < 2 ^ 8 then BitVec.ofInt 8 (truncate f.value)
  else f.wild.setWidth 8

/-- An {lit}`int` handed to a function that takes a {lit}`t_floatarg`.  Only the
largest integers round out of range; the machine then delivers the integer
indefinite. -/
def FloatArg.ofInt (n : Int) : FloatArg :=
  ⟨roundToFloat n, 0x80000000#32⟩

/-- Every {lit}`unsigned int` fits 32 bits. -/
theorem FloatArg.toUInt_lt (f : FloatArg) : f.toUInt < 2 ^ 32 := by
  unfold FloatArg.toUInt
  split
  · omega
  · exact f.wild.isLt

/-- An integer of at most 2^24 survives the passage through a float argument. -/
theorem FloatArg.toInt_ofInt {n : Int} (hn : n.natAbs ≤ 2 ^ 24) :
    (FloatArg.ofInt n).toInt = n := by
  have hrange : -(2 ^ 31 : Int) ≤ n ∧ n < 2 ^ 31 := by omega
  unfold FloatArg.toInt FloatArg.ofInt
  rw [roundToFloat_of_le hn, truncate_intCast, if_pos hrange]

end Pd
end Iemnet
