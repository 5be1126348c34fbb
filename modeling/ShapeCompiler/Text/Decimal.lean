/-!
Decimal text of binary floating-point numbers.

- `Binary.readsBack` tells which decimals round to a given binary value, by exact comparison
  of naturals.
- `Binary.shortest` picks a decimal with the fewest digits that reads back; of two such
  neighbours the closer one, and the upper one on a tie.
- `numberText` writes it: positional from `1e-4` up to `1e16`, with an exponent otherwise.
-/

namespace ShapeCompiler

/-- A finite non-negative binary value `mantissa * 2 ^ exponent`. -/
structure Binary where
  mantissa : Nat
  exponent : Int
  /-- The gap to the value below is half the gap to the value above. -/
  narrowBelow : Bool
  deriving DecidableEq

/-- A decimal value `digits * 10 ^ exponent`. -/
structure Decimal where
  digits : Nat
  exponent : Int
  deriving DecidableEq

/-- The magnitude held by the bits of a finite number; the sign bit is ignored. -/
def Binary.ofBits (bits : UInt64) : Binary :=
  let e := ((bits >>> 52) &&& 0x7FF).toNat
  let f := (bits &&& 0xFFFFFFFFFFFFF).toNat
  if e = 0 then ⟨f, -1074, false⟩
  else ⟨0x10000000000000 + f, (e : Int) - 1075, f == 0 && e > 1⟩

/-- Compares `a * 10 ^ i` with `n * 2 ^ j`, exactly. -/
def compareScaled (a : Nat) (i : Int) (n : Nat) (j : Int) : Ordering :=
  compare (a * Nat.pow 10 i.toNat * Nat.pow 2 (-j).toNat)
    (n * Nat.pow 2 j.toNat * Nat.pow 10 (-i).toNat)

namespace Binary

/-- The decimal lies among the reals that round to the value. The ends of that interval belong
to it exactly when the mantissa is even. -/
def readsBack (x : Binary) (d : Decimal) : Bool :=
  let low := if x.narrowBelow then 4 * x.mantissa - 1 else 4 * x.mantissa - 2
  let atLow := compareScaled d.digits d.exponent low (x.exponent - 2)
  let atHigh := compareScaled d.digits d.exponent (4 * x.mantissa + 2) (x.exponent - 2)
  let closed := x.mantissa % 2 == 0
  (atLow == .gt || (closed && atLow == .eq)) && (atHigh == .lt || (closed && atHigh == .eq))

/-- The least `k` with `x < 10 ^ k`, for a value that is not zero. -/
def scale (x : Binary) : Int :=
  let estimate := ((x.mantissa.log2 : Int) + x.exponent) * 30103 / 100000
  let above (k : Int) : Bool := compareScaled 1 k x.mantissa x.exponent == .gt
  ([estimate - 1, estimate, estimate + 1].find? above).getD (estimate + 2)

/-- The better of the value's two neighbours on the grid of multiples of `10 ^ grid`, if either
of them reads back. -/
def onGrid (x : Binary) (grid : Int) : Option Decimal :=
  let num := x.mantissa * Nat.pow 2 x.exponent.toNat * Nat.pow 10 (-grid).toNat
  let den := Nat.pow 2 (-x.exponent).toNat * Nat.pow 10 grid.toNat
  let below : Decimal := ⟨num / den, grid⟩
  let above : Decimal := ⟨num / den + 1, grid⟩
  match x.readsBack below, x.readsBack above with
  | true, true => some (if 2 * num < (2 * below.digits + 1) * den then below else above)
  | true, false => some below
  | false, true => some above
  | false, false => none

/-- The value itself, written out in full. -/
def exact (x : Binary) : Decimal :=
  if 0 ≤ x.exponent then ⟨x.mantissa * Nat.pow 2 x.exponent.toNat, 0⟩
  else ⟨x.mantissa * Nat.pow 5 (-x.exponent).toNat, x.exponent⟩

end Binary

/-- Moves trailing zeros of the digits into the exponent. -/
def Decimal.trim (d : Decimal) : Decimal :=
  if h : d.digits ≠ 0 ∧ d.digits % 10 = 0 then
    Decimal.trim ⟨d.digits / 10, d.exponent + 1⟩
  else d
termination_by d.digits
decreasing_by exact Nat.div_lt_self (Nat.pos_of_ne_zero h.1) (by decide)

/-- The shortest decimal that reads back. -/
def Binary.shortest (x : Binary) : Decimal :=
  if x.mantissa = 0 then ⟨0, 0⟩
  else
    let k := x.scale
    let found := (List.range 17).findSome? fun n => x.onGrid (k - (n + 1 : Nat))
    (found.getD x.exact).trim

/-- How numbers are laid out: exponents `e` of the leading digit with `plainFrom ≤ e < plainBelow`
are written positionally. -/
structure NumberFormat where
  plainFrom : Int
  plainBelow : Int

/-- Numbers in code are positional from `1e-4` up to, and without, `1e16`. -/
def NumberFormat.code : NumberFormat := ⟨-4, 16⟩

private def zeros (n : Int) : String := String.ofList (List.replicate n.toNat '0')

/-- Lays out a decimal; a positional number always shows a point. -/
def Decimal.layout (f : NumberFormat) (d : Decimal) : String :=
  let ds := (toString d.digits).toList
  let count : Int := ds.length
  let lead := count - 1 + d.exponent
  if d.digits = 0 then "0.0"
  else if f.plainFrom ≤ lead ∧ lead < f.plainBelow then
    if 0 ≤ d.exponent then String.ofList ds ++ zeros d.exponent ++ ".0"
    else if 0 ≤ lead then
      let whole := (lead + 1).toNat
      String.ofList (ds.take whole) ++ "." ++ String.ofList (ds.drop whole)
    else "0." ++ zeros (-1 - lead) ++ String.ofList ds
  else
    let fraction := ds.drop 1
    let point := if fraction.isEmpty then "" else "." ++ String.ofList fraction
    String.ofList (ds.take 1) ++ point ++ "e" ++ toString lead

/-- The text of a number: the fewest digits that read back, with a sign also on zero. -/
def numberText (x : Float) : String :=
  let bits := x.toBits
  let negative := bits >>> 63 == 1
  let magnitude := bits &&& 0x7FFFFFFFFFFFFFFF
  let sign := if negative then "-" else ""
  if magnitude > 0x7FF0000000000000 then "NaN"
  else if magnitude == 0x7FF0000000000000 then sign ++ "inf"
  else sign ++ (Binary.ofBits bits).shortest.layout .code

end ShapeCompiler
