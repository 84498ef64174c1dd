import ConstructionRobot.Lib.Call
import Mathlib.Data.Nat.Digits.Defs

/-!
# Records of little-endian fields

A message is a row of fields, each a number of `width` bytes, the low byte first. A signed field is
in two's complement.

* `Field.decode`: the number in some bytes.
* `Decodes`: a message is exactly the bytes of the fields, and each field has its value.
* `decodes_append`: a message in two parts, the bytes of the first field and the others. With it a
  message that is written field by field is decoded field by field.
* `sint_emod`: a number that fits into a signed field is found again.
-/

namespace Robot

/-- A field, and the number in it. -/
structure Field where
  width : ℕ
  signed : Bool
  value : ℤ
  deriving DecidableEq, Repr

namespace Field

/-- The number in the bytes of a field. -/
def decode (f : Field) (bytes : List UInt8) : ℤ :=
  let n : ℕ := Nat.ofDigits 256 (bytes.map UInt8.toNat)
  if f.signed then sint (8 * f.width) n else n

/-- The number is in the range of the field. -/
def Fits (f : Field) : Prop :=
  if f.signed then -2 ^ (8 * f.width - 1) ≤ f.value ∧ f.value < 2 ^ (8 * f.width - 1)
  else 0 ≤ f.value ∧ f.value < 2 ^ (8 * f.width)

end Field

/-- A signed type keeps a number up to multiples of `2 ^ w`. -/
theorem sint_emod (w : ℕ) (x : ℤ) : sint w (x % 2 ^ w) = sint w x := by
  have hpow : (2 : ℤ) ^ w = ((2 ^ w : ℕ) : ℤ) := by
    push_cast
    rfl
  rw [sint, sint, hpow, Int.emod_bmod]

/-- The bytes are those of the fields. -/
def Decodes : List Field → List UInt8 → Prop
  | [], bytes => bytes = []
  | f :: fields, bytes =>
    f.width ≤ bytes.length ∧ f.decode (bytes.take f.width) = f.value ∧
      Decodes fields (bytes.drop f.width)

/-- The bytes of the first field, and the others. -/
theorem decodes_append {f : Field} {fields : List Field} {bytes rest : List UInt8}
    (h : bytes.length = f.width) :
    Decodes (f :: fields) (bytes ++ rest) ↔ f.decode bytes = f.value ∧ Decodes fields rest := by
  rw [Decodes, ← h, List.take_left, List.drop_left, List.length_append]
  exact and_iff_right (Nat.le_add_right _ _)

theorem decodes_last {f : Field} {bytes : List UInt8} (h : bytes.length = f.width) :
    Decodes [f] bytes ↔ f.decode bytes = f.value := by
  rw [← List.append_nil bytes, decodes_append h, List.append_nil]
  exact and_iff_left rfl

end Robot
