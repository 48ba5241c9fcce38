import Mathlib.Algebra.Order.Floor.Ring
import Mathlib.Data.Int.Log
import Mathlib.Data.Rat.Floor
import Mathlib.Tactic.Linarith

/-!
# Numbers and ranges as Python computes them

`Number` is a Python `float` in exact arithmetic: a rational, an infinity, or NaN. Its comparisons
are Python's, so every comparison with NaN is false, and `floorDiv` and `toInt` are `//` and
`int()` with the exceptions that they raise. `truncate` is `int()` on a rational, and `range` is
Python's `range` on integers.
-/

namespace Python

/-- The exceptions that arithmetic, or the use of a missing object, raises. -/
inductive Error
  | valueError
  | overflowError
  | zeroDivisionError
  | attributeError
deriving DecidableEq, Repr

/-- A sequence that does not raise: neither part does. -/
theorem ok_of_bind {α β : Type} {x : Except Error α} {f : α → Except Error β} {b : β}
    (h : (x >>= f) = .ok b) : ∃ a, x = .ok a ∧ f a = .ok b := by
  cases x with
  | error e => cases h
  | ok a => exact ⟨a, rfl, h⟩

/-- A sequence that raises: one of the parts does. -/
theorem error_of_bind {α β : Type} {x : Except Error α} {f : α → Except Error β} {e : Error}
    (h : (x >>= f) = .error e) : x = .error e ∨ ∃ a, x = .ok a ∧ f a = .error e := by
  cases x with
  | error e' => exact .inl (congrArg Except.error (Except.error.inj h))
  | ok a => exact .inr ⟨a, rfl, h⟩

/-- A sequence whose first part raises. -/
theorem bind_of_error {α β : Type} {x : Except Error α} {f : α → Except Error β} {e : Error}
    (h : x = .error e) : (x >>= f) = .error e := by
  rw [h]
  rfl

/-- A sequence whose first part does not raise. -/
theorem bind_of_ok {α β : Type} {x : Except Error α} {f : α → Except Error β} {a : α}
    (h : x = .ok a) : (x >>= f) = f a := by
  rw [h]
  rfl

/-- A `float` in exact arithmetic. -/
inductive Number
  | nan
  | negInf
  | finite (q : ℚ)
  | posInf
deriving DecidableEq, Repr

namespace Number

/-- Python's `<`, which is false as soon as one side is NaN. -/
def blt : Number → Number → Bool
  | finite a, finite b => decide (a < b)
  | negInf, finite _ => true
  | negInf, posInf => true
  | finite _, posInf => true
  | _, _ => false

/-- Python's `<=`, which is false as soon as one side is NaN. -/
def ble : Number → Number → Bool
  | finite a, finite b => decide (a ≤ b)
  | negInf, negInf => true
  | negInf, finite _ => true
  | negInf, posInf => true
  | finite _, posInf => true
  | posInf, posInf => true
  | _, _ => false

instance : LT Number := ⟨fun a b => blt a b = true⟩

instance : LE Number := ⟨fun a b => ble a b = true⟩

instance (a b : Number) : Decidable (a < b) := inferInstanceAs (Decidable (blt a b = true))

instance (a b : Number) : Decidable (a ≤ b) := inferInstanceAs (Decidable (ble a b = true))

/-- Python's `+`. -/
def add : Number → Number → Number
  | nan, _ => nan
  | _, nan => nan
  | finite a, finite b => finite (a + b)
  | posInf, negInf => nan
  | negInf, posInf => nan
  | posInf, _ => posInf
  | _, posInf => posInf
  | negInf, _ => negInf
  | _, negInf => negInf

/-- Python's unary `-`. -/
def neg : Number → Number
  | nan => nan
  | negInf => posInf
  | finite a => finite (-a)
  | posInf => negInf

instance : Add Number := ⟨add⟩

instance : Neg Number := ⟨neg⟩

instance : Sub Number := ⟨fun a b => a + -b⟩

/-- Python's `max(a, b)`, which keeps `a` unless `b` is greater. -/
def pyMax (a b : Number) : Number := if a < b then b else a

/-- Python's `min(a, b)`, which keeps `a` unless `b` is smaller. -/
def pyMin (a b : Number) : Number := if b < a then b else a

/-- Multiplication by a positive rational. -/
def scale : Number → ℚ → Number
  | nan, _ => nan
  | negInf, _ => negInf
  | finite a, q => finite (a * q)
  | posInf, _ => posInf

/-- Division by a positive integer constant. -/
def divNat : Number → ℕ → Number
  | nan, _ => nan
  | negInf, _ => negInf
  | finite a, n => finite (a / n)
  | posInf, _ => posInf

/-- `math.isfinite`. -/
def isFinite : Number → Bool
  | finite _ => true
  | _ => false

/-- The rational of a finite number; zero stands for the others. -/
def toRat : Number → ℚ
  | finite q => q
  | _ => 0

/-- A finite number is its rational. -/
theorem eq_finite_toRat {x : Number} (h : x.isFinite = true) : x = finite x.toRat := by
  cases x with
  | finite q => rfl
  | nan | negInf | posInf => cases h

@[simp] theorem toRat_finite (q : ℚ) : (finite q).toRat = q := rfl

@[simp] theorem finite_lt_finite (a b : ℚ) : finite a < finite b ↔ a < b := by
  change decide (a < b) = true ↔ a < b
  simp

@[simp] theorem finite_le_finite (a b : ℚ) : finite a ≤ finite b ↔ a ≤ b := by
  change decide (a ≤ b) = true ↔ a ≤ b
  simp

@[simp] theorem finite_lt_posInf (a : ℚ) : finite a < posInf := rfl

@[simp] theorem negInf_lt_finite (a : ℚ) : negInf < finite a := rfl

@[simp] theorem not_posInf_lt (a : Number) : ¬ posInf < a := by
  cases a <;> exact Bool.false_ne_true

@[simp] theorem not_lt_nan (a : Number) : ¬ a < nan := by
  cases a <;> exact Bool.false_ne_true

@[simp] theorem not_finite_lt_negInf (a : ℚ) : ¬ finite a < negInf := Bool.false_ne_true

/-- What is at most `b` is not above it. -/
theorem not_lt_of_le {a b : Number} (h : a ≤ b) : ¬ b < a := by
  cases a with
  | nan => exact not_lt_nan b
  | negInf => cases b <;> exact Bool.false_ne_true
  | finite p =>
    cases b with
    | finite q =>
      rw [finite_le_finite] at h
      rw [finite_lt_finite]
      exact not_lt.mpr h
    | nan | negInf => cases h
    | posInf => exact not_posInf_lt _
  | posInf =>
    cases b with
    | posInf => exact not_posInf_lt _
    | nan | negInf | finite => cases h

@[simp] theorem finite_add_finite (a b : ℚ) : finite a + finite b = finite (a + b) := rfl

@[simp] theorem finite_add_posInf (a : ℚ) : finite a + posInf = posInf := rfl

@[simp] theorem finite_add_nan (a : ℚ) : finite a + nan = nan := rfl

@[simp] theorem finite_add_negInf (a : ℚ) : finite a + negInf = negInf := rfl

@[simp] theorem finite_sub_finite (a b : ℚ) : finite a - finite b = finite (a - b) := by
  change finite (a + -b) = finite (a - b)
  rw [sub_eq_add_neg]

@[simp] theorem finite_sub_negInf (a : ℚ) : finite a - negInf = posInf := rfl

@[simp] theorem posInf_sub_finite (a : ℚ) : posInf - finite a = posInf := rfl

@[simp] theorem negInf_sub_finite (a : ℚ) : negInf - finite a = negInf := rfl

@[simp] theorem nan_sub_finite (a : ℚ) : nan - finite a = nan := rfl

/-- Less than `r` has passed since `a` at `b` exactly when `b` is before `a + r`. -/
theorem finite_sub_lt_iff (a b : ℚ) (r : Number) :
    finite (b - a) < r ↔ finite b < finite a + r := by
  cases r with
  | nan => simp
  | negInf => simp
  -- Only a finite `r` has arithmetic: the infinities and NaN compare by definition.
  | finite r =>
    rw [finite_add_finite, finite_lt_finite, finite_lt_finite]
    exact sub_lt_iff_lt_add'
  | posInf => simp

/-- What is left of `r` at `b`, since `a`. -/
theorem sub_finite_sub (a b : ℚ) (r : Number) :
    r - finite (b - a) = finite a + r - finite b := by
  cases r with
  | finite r =>
    rw [finite_add_finite, finite_sub_finite, finite_sub_finite]
    congr 1
    ring
  | nan | negInf | posInf => rfl

/-- What is left of `r` is positive while less than `r` has passed. -/
theorem sub_finite_pos {a : ℚ} {r : Number} (h : finite a < r) : finite 0 < r - finite a := by
  cases r with
  | nan => exact absurd h (not_lt_nan _)
  | negInf => exact absurd h (not_finite_lt_negInf _)
  | finite r =>
    rw [finite_lt_finite] at h
    rw [finite_sub_finite, finite_lt_finite]
    exact sub_pos.mpr h
  | posInf => simp

/-- `max(a, b)` is `b` when `b` is greater. -/
theorem pyMax_of_lt {a b : Number} (h : a < b) : pyMax a b = b := if_pos h

end Number

/-- `x // y` for a finite `x`: the floor of the quotient, NaN for a NaN divisor, and the sign of the
quotient for an infinite one. -/
def floorDiv (x : ℚ) : Number → Except Error Number
  | .finite y => if y = 0 then .error .zeroDivisionError else .ok (.finite ⌊x / y⌋)
  | .nan => .ok .nan
  | .posInf => .ok (.finite (if x < 0 then -1 else 0))
  | .negInf => .ok (.finite (if 0 < x then -1 else 0))

/-- `a / b` for integers. -/
def trueDiv (a b : ℤ) : Except Error Number :=
  if b = 0 then .error .zeroDivisionError else .ok (.finite (a / b))

/-- `a / b` raises for no other divisor. -/
theorem trueDiv_of_ne (a : ℤ) {b : ℤ} (h : b ≠ 0) : trueDiv a b = .ok (.finite (a / b)) := if_neg h

/-- `int(q)` for a rational: truncation toward zero. -/
def truncate (q : ℚ) : ℤ := q.num.tdiv q.den

/-- `int(x)`: NaN and the infinities have no integer. -/
def toInt : Number → Except Error ℤ
  | .finite q => .ok (truncate q)
  | .nan => .error .valueError
  | .negInf => .error .overflowError
  | .posInf => .error .overflowError

/-- `int()` of an integer is the integer. -/
@[simp] theorem truncate_intCast (n : ℤ) : truncate (n : ℚ) = n := by
  simp [truncate]

/-- Truncation keeps the sign of a nonnegative number. -/
theorem truncate_nonneg {q : ℚ} (h : 0 ≤ q) : 0 ≤ truncate q :=
  Int.tdiv_nonneg (Rat.num_nonneg.mpr h) (Int.natCast_nonneg _)

/-- Floor division by a nonzero finite number does not raise. -/
theorem floorDiv_finite (x : ℚ) {y : ℚ} (h : y ≠ 0) :
    floorDiv x (.finite y) = .ok (.finite ⌊x / y⌋) := if_neg h

/-- Python's `range(lo, hi)`. -/
def range (lo hi : ℤ) : List ℤ := (List.range (hi - lo).toNat).map fun (k : ℕ) => lo + (k : ℤ)

/-- A range that is not above its start is empty. -/
theorem range_of_le {lo hi : ℤ} (h : hi ≤ lo) : range lo hi = [] := by
  have : (hi - lo).toNat = 0 := by omega
  simp [range, this]

/-- A range one longer has its last number appended. -/
theorem range_succ {lo hi : ℤ} (h : lo ≤ hi) : range lo (hi + 1) = range lo hi ++ [hi] := by
  -- The list of offsets is one longer, and its last offset is `hi - lo`.
  have e : (hi + 1 - lo).toNat = (hi - lo).toNat + 1 := by omega
  have hlast : lo + ((hi - lo).toNat : ℤ) = hi := by omega
  rw [range, e, List.range_succ, List.map_append, List.map_cons, List.map_nil, hlast]
  rfl

/-! ## `int()` and `str` -/

/-- The white space that `int()` strips. -/
def isIntSpace (c : Char) : Bool :=
  let n := c.toNat
  (0x09 ≤ n && n ≤ 0x0d) || n == 0x20 || n == 0x85 || n == 0xa0 || n == 0x1680 ||
    (0x2000 ≤ n && n ≤ 0x200a) || n == 0x2028 || n == 0x2029 || n == 0x202f || n == 0x205f ||
    n == 0x3000

/-- The white space that `str.strip` strips. -/
def isSpace (c : Char) : Bool := isIntSpace c || (0x1c ≤ c.toNat && c.toNat ≤ 0x1f)

/-- The characters of a string without the white space at its ends. -/
def stripChars (space : Char → Bool) (s : String) : List Char :=
  ((s.toList.dropWhile space).reverse.dropWhile space).reverse

/-- The zeros of the blocks of ten decimal digits of Unicode. -/
def digitZeros : List ℕ :=
  [0x30, 0x660, 0x6f0, 0x7c0, 0x966, 0x9e6, 0xa66, 0xae6, 0xb66, 0xbe6, 0xc66, 0xce6, 0xd66, 0xde6,
    0xe50, 0xed0, 0xf20, 0x1040, 0x1090, 0x17e0, 0x1810, 0x1946, 0x19d0, 0x1a80, 0x1a90, 0x1b50,
    0x1bb0, 0x1c40, 0x1c50, 0xa620, 0xa8d0, 0xa900, 0xa9d0, 0xa9f0, 0xaa50, 0xabf0, 0xff10, 0x104a0,
    0x10d30, 0x11066, 0x110f0, 0x11136, 0x111d0, 0x112f0, 0x11450, 0x114d0, 0x11650, 0x116c0,
    0x11730, 0x118e0, 0x11950, 0x11c50, 0x11d50, 0x11da0, 0x11f50, 0x16a60, 0x16ac0, 0x16b50,
    0x1d7ce, 0x1d7d8, 0x1d7e2, 0x1d7ec, 0x1d7f6, 0x1e140, 0x1e2f0, 0x1e4f0, 0x1e950, 0x1fbf0]

/-- The value of a decimal digit. -/
def digitValue (c : Char) : Option ℕ :=
  (digitZeros.find? fun start => start ≤ c.toNat && c.toNat < start + 10).map (c.toNat - ·)

/-- The digits of an integer literal: at least one, with single underscores between them. -/
def readDigits : List Char → Option (List ℕ)
  | [] => none
  | [c] => (digitValue c).map ([·])
  | c :: '_' :: rest => do return (← digitValue c) :: (← readDigits rest)
  | c :: rest => do return (← digitValue c) :: (← readDigits rest)

/-- The number that a list of decimal digits denotes. -/
def ofDigits (digits : List ℕ) : ℕ := digits.foldl (fun n d => 10 * n + d) 0

/-- The digit limit of `int()`. -/
def intMaxStrDigits : ℕ := 4300

/-- `int(s)` for a string. -/
def intOfString (s : String) : Except Error ℤ :=
  let read (sign : ℤ) (chars : List Char) : Except Error ℤ :=
    match readDigits chars with
    | none => .error .valueError
    | some digits =>
      if digits.length > intMaxStrDigits then .error .valueError else .ok (sign * ofDigits digits)
  match stripChars isIntSpace s with
  | '-' :: chars => read (-1) chars
  | '+' :: chars => read 1 chars
  | chars => read 1 chars

/-- The weight of the last of the 53 significant bits of a number. -/
def lastBit (n : ℕ) : ℕ := 2 ^ (n.log2 - 52)

/-- A number with 53 significant bits: the nearest one, and of two as near the one whose last bit is
zero. -/
def roundToFloat (n : ℕ) : ℕ :=
  let quotient := n / lastBit n
  let rest := n % lastBit n
  if lastBit n < 2 * rest ∨ (lastBit n = 2 * rest ∧ quotient % 2 = 1) then (quotient + 1) * lastBit n
  else quotient * lastBit n

/-- `float(n)` for an integer, which is rounded: integers that round to `2^1024` or more have no
`float`. -/
def floatOfInt (n : ℤ) : Except Error Number :=
  if |n| < 2 ^ 1024 - 2 ^ 970 then .ok (.finite (n.sign * roundToFloat n.natAbs))
  else .error .overflowError

/-- An integer is a `float` if it needs no more than 53 significant bits. -/
theorem roundToFloat_eq_self_iff (n : ℕ) : roundToFloat n = n ↔ lastBit n ∣ n := by
  unfold roundToFloat
  have hpos : 0 < lastBit n := Nat.two_pow_pos _
  constructor
  · intro h
    dsimp only at h
    split_ifs at h
    · exact ⟨n / lastBit n + 1, by rw [mul_comm, h]⟩
    · exact ⟨n / lastBit n, by rw [mul_comm, h]⟩
  · intro h
    have hrest : n % lastBit n = 0 := Nat.mod_eq_zero_of_dvd h
    have hnot : ¬ (lastBit n < 2 * (n % lastBit n) ∨
        (lastBit n = 2 * (n % lastBit n) ∧ n / lastBit n % 2 = 1)) := by
      rw [hrest]
      omega
    dsimp only
    rw [if_neg hnot, Nat.div_mul_cancel h]

/-! ## `str` of a `float` -/

/-- The nearest integer, and of two as near the even one. -/
def roundHalfEven (q : ℚ) : ℤ :=
  let below := ⌊q⌋
  if 1 / 2 < q - below ∨ (q - below = 1 / 2 ∧ below % 2 = 1) then below + 1 else below

/-- The text of a number, with zeros before it up to a width. -/
def zeroPad (width n : ℕ) : String :=
  let text := toString n
  String.ofList (List.replicate (width - text.length) '0') ++ text

/-- The sign of a number that is written. -/
def signText (q : ℚ) : String := if q < 0 then "-" else ""

/-- `f"{x:.nf}"`: the nearest decimal with so many digits after the point. -/
def fixed (digits : ℕ) : Number → String
  | .nan => "nan"
  | .negInf => "-inf"
  | .finite q =>
    let n := (roundHalfEven (|q| * 10 ^ digits)).toNat
    signText q ++ toString (n / 10 ^ digits) ++ "." ++ zeroPad digits (n % 10 ^ digits)
  | .posInf => "inf"

/-- The distance from a positive `float` to the next one. -/
def ulp (q : ℚ) : ℚ := 2 ^ max (Int.log 2 q - 52) (-1074)

/-- `float(r)` is the positive `float` `q`. -/
def readsAs (q r : ℚ) : Bool :=
  let above := ulp q / 2
  -- Below a power of two the numbers lie closer.
  let below := if q / ulp q = 2 ^ 52 ∧ Int.log 2 q - 52 > -1074 then above / 2 else above
  if (q / ulp q).num % 2 = 0 then q - below ≤ r && r ≤ q + above
  else q - below < r && r < q + above

/-- A positive `float` as the shortest decimal that reads as it: its digits, and the power of ten that
they count. -/
def shortestDecimal (q : ℚ) : ℕ × ℤ :=
  let candidates (digits : ℕ) : List (ℕ × ℤ) :=
    let power := Int.log 10 q - digits
    let scaled := q / 10 ^ power
    [(roundHalfEven scaled).toNat, ⌊scaled⌋₊, ⌈scaled⌉₊].map (·, power)
  (((List.range 17).flatMap candidates).find? fun d => readsAs q (d.1 * 10 ^ d.2)).getD (0, 0)

/-- `repr` of a positive `float`. -/
def positiveRepr (q : ℚ) : String :=
  let decimal := shortestDecimal q
  let all := (toString decimal.1).toList
  let digits := (all.reverse.dropWhile (· = '0')).reverse
  -- The value is `0.digits` times ten to the power of `point`.
  let point := all.length + decimal.2
  let zeros (n : ℤ) := List.replicate n.toNat '0'
  if point ≤ -4 ∨ 16 < point then
    let rest := if digits.length = 1 then [] else '.' :: digits.drop 1
    let sign := if point - 1 < 0 then "-" else "+"
    String.ofList (digits.take 1 ++ rest) ++ "e" ++ sign ++ zeroPad 2 (point - 1).natAbs
  else if point ≤ 0 then "0." ++ String.ofList (zeros (-point) ++ digits)
  else if digits.length ≤ point then
    String.ofList (digits ++ zeros (point - digits.length)) ++ ".0"
  else String.ofList (digits.take point.toNat) ++ "." ++ String.ofList (digits.drop point.toNat)

/-- `str(x)` for a `float`. -/
def strOfFloat : Number → String
  | .nan => "nan"
  | .negInf => "-inf"
  | .finite q => if q = 0 then "0.0" else signText q ++ positiveRepr |q|
  | .posInf => "inf"

/-- `s.startswith(start)`. -/
def startsWith (s start : String) : Bool := start.toList.isPrefixOf s.toList

/-- `s.strip().isdigit() and s.isascii()`. -/
def isAsciiDigits (s : String) : Bool :=
  let chars := stripChars isSpace s
  !chars.isEmpty && chars.all Char.isDigit && s.toList.all fun c => c.toNat < 128

end Python
