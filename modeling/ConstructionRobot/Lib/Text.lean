import Mathlib.Data.Int.Notation
import Mathlib.Data.Nat.Notation
import Mathlib.Order.Lattice

/-!
# Texts and numbers of C

A string (`Text`), the number that it starts with (`atoi`), and the bytes of a number in memory
(`leBytes`).
-/

namespace Robot

/-- The characters of a string, without its terminator. -/
abbrev Text := List Char

/-- `isspace`. -/
def isSpace (c : Char) : Bool := c.toNat = 32 || (9 ≤ c.toNat && c.toNat ≤ 13)

/-- The digits at the start of a text, read behind the number `acc`. -/
def digits (acc : ℕ) : Text → ℕ
  | [] => acc
  | c :: text => if c.isDigit then digits (10 * acc + (c.toNat - 48)) text else acc

/-- `strtol(text, NULL, 10)` with a `long` of 32 bits: a number out of range gives the bound. -/
def strtol (text : Text) : ℤ :=
  let value : ℤ :=
    match text.dropWhile isSpace with
    | '-' :: rest => -digits 0 rest
    | '+' :: rest => digits 0 rest
    | rest => digits 0 rest
  max (-2147483648) (min value 2147483647)

/-- `atoi`, as the standard describes it: `(int)strtol(text, NULL, 10)`. -/
def atoi (text : Text) : ℤ := strtol text

example : atoi [' ', '-', '4', '2', 'x'] = -42 := by decide

/-- The `n` bytes of a number in memory, the lowest first; a negative number as its complement. -/
def leBytes (n : ℕ) (value : ℤ) : List UInt8 :=
  (List.range n).map fun i => UInt8.ofInt (Int.shiftRight value (8 * i))

@[simp] theorem leBytes_length (n : ℕ) (value : ℤ) : (leBytes n value).length = n := by
  simp [leBytes]

example : leBytes 2 (-2) = [0xFE, 0xFF] := by decide

end Robot
