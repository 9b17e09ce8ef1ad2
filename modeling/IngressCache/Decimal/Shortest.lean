/-!
# The fewest digits that read back

Every finite double-precision number is the nearest one to an interval of real numbers. Among
the decimals of that interval the fewest digits are chosen, and of those the nearest to the
number. All of it is exact arithmetic on natural numbers.
-/

namespace IngressCache.Decimal

/-- A positive decimal: an integer of digits without a final zero, times a power of ten. -/
structure Scientific where
  digits : Nat
  exponent : Int
  deriving DecidableEq, Repr

/-- A positive binary number `mantissa * 2 ^ exponent`. -/
structure Binary where
  mantissa : Nat
  exponent : Int
  deriving DecidableEq, Repr

def Binary.ofBits (bits : UInt64) : Binary :=
  let fraction : Nat := bits.toNat % Nat.pow 2 52
  let biased : Nat := bits.toNat / Nat.pow 2 52 % Nat.pow 2 11
  if biased = 0 then ⟨fraction, -1074⟩ else ⟨Nat.pow 2 52 + fraction, (biased : Int) - 1075⟩

structure Ratio where
  num : Nat
  den : Nat

/-- `n * 2 ^ q * 10 ^ p` as a fraction. -/
def Ratio.scaled (n : Nat) (q p : Int) : Ratio :=
  ⟨n * Nat.pow 2 q.toNat * Nat.pow 10 p.toNat, Nat.pow 2 (-q).toNat * Nat.pow 10 (-p).toNat⟩

def Ratio.floor (r : Ratio) : Nat := r.num / r.den

def Ratio.le (r s : Ratio) : Bool := r.num * s.den ≤ s.num * r.den

def Ratio.lt (r s : Ratio) : Bool := r.num * s.den < s.num * r.den

def Ratio.distance (r s : Ratio) : Ratio :=
  ⟨(r.num * s.den - s.num * r.den) + (s.num * r.den - r.num * s.den), r.den * s.den⟩

/-! ### The interval -/

/-- The ends of the interval of the reals that round to a number, in units of a quarter of its
last place: half a place on each side, and a quarter below a power of two. -/
def ends (b : Binary) : Nat × Nat :=
  let low := if b.mantissa = Nat.pow 2 52 ∧ b.exponent > -1074 then 4 * b.mantissa - 1
    else 4 * b.mantissa - 2
  (low, 4 * b.mantissa + 2)

/-- True if the decimal `d * 10 ^ e` rounds to the number; the ends round to an even mantissa. -/
def reads (b : Binary) (d : Nat) (e : Int) : Bool :=
  let (low, high) := ends b
  let x : Ratio := ⟨d, 1⟩
  let lowEnd := Ratio.scaled low (b.exponent - 2) (-e)
  let highEnd := Ratio.scaled high (b.exponent - 2) (-e)
  if b.mantissa % 2 = 0 then lowEnd.le x && x.le highEnd else lowEnd.lt x && x.lt highEnd

/-- The better of the two neighbours of a number on the grid of multiples of `10 ^ e`. -/
def onGrid (b : Binary) (e : Int) : Option Nat :=
  let exact := Ratio.scaled b.mantissa b.exponent (-e)
  let below := exact.floor
  match reads b below e && 0 < below, reads b (below + 1) e with
  | false, false => none
  | true, false => some below
  | false, true => some (below + 1)
  | true, true =>
    let down := exact.distance ⟨below, 1⟩
    let up := exact.distance ⟨below + 1, 1⟩
    if down.lt up || (!up.lt down && below % 2 == 0) then some below else some (below + 1)

/-! ### The digits -/

def magnitude (b : Binary) : Int :=
  ((b.mantissa.log2 : Int) + b.exponent) * 30103 / 100000 + 1

/-- Drops the zeros at the end of the digits; `fuel` bounds their number. -/
def Scientific.trim : (fuel : Nat) → Scientific → Scientific
  | 0, s => s
  | fuel + 1, s =>
    if s.digits % 10 = 0 ∧ s.digits ≠ 0 then trim fuel ⟨s.digits / 10, s.exponent + 1⟩ else s

/-- The first hit on grids that become finer, of `count` grids from the exponent `e` downwards. -/
def search (b : Binary) : (count : Nat) → (e : Int) → Scientific
  | 0, e => ⟨b.mantissa, e⟩
  | count + 1, e =>
    match onGrid b e with
    | some d => Scientific.trim 20 ⟨d, e⟩
    | none => search b count (e - 1)

/-- The shortest decimal that reads back as a number other than zero. -/
def shortest (b : Binary) : Scientific :=
  search b 20 (magnitude b)

example : shortest ⟨5404319552844595, -54⟩ = ⟨3, -1⟩ := by decide +kernel

/-! ### Layout -/

/-- Decisions of a printer of decimals: the exponents of the first digit that are written
without an exponent part, and the least number of digits of that part. -/
structure Layout where
  firstPositional : Int
  lastPositional : Int
  exponentWidth : Nat

def Layout.exponentText (l : Layout) (e : Int) : List Char :=
  let ds := Nat.toDigits 10 e.natAbs
  'e' :: (if e < 0 then '-' else '+') :: (List.replicate (l.exponentWidth - ds.length) '0' ++ ds)

/-- A positive decimal as text, with a digit on each side of the point. -/
def Layout.text (l : Layout) (s : Scientific) : List Char :=
  let ds := Nat.toDigits 10 s.digits
  let first := s.exponent + ds.length - 1
  if l.firstPositional ≤ first ∧ first ≤ l.lastPositional then
    if 0 ≤ s.exponent then ds ++ List.replicate s.exponent.toNat '0' ++ ['.', '0']
    else if 0 ≤ first then ds.take (first.toNat + 1) ++ '.' :: ds.drop (first.toNat + 1)
    else '0' :: '.' :: (List.replicate (-first - 1).toNat '0' ++ ds)
  else
    ds.take 1 ++ (if ds.length = 1 then [] else '.' :: ds.drop 1) ++ l.exponentText first

def Layout.render (l : Layout) (x : Float) : String :=
  let bits := x.toBits
  let sign := if bits.toNat / Nat.pow 2 63 = 1 then ['-'] else []
  let b := Binary.ofBits bits
  String.ofList (sign ++ if b.mantissa = 0 then ['0', '.', '0'] else l.text (shortest b))

end IngressCache.Decimal
