import Mathlib.Algebra.Group.Int.Defs
import Mathlib.Algebra.Group.Nat.Defs
import Rv64gcEmu.HostModel

namespace Rv64gcEmu

/-- The template parameter `T` of the floating-point handlers: `float` or `double`. -/
inductive Fmt where
  | single
  | double
  deriving DecidableEq, Repr

namespace Fmt

def width : Fmt → Nat
  | .single => 32
  | .double => 64

def expBits : Fmt → Nat
  | .single => 8
  | .double => 11

def fracBits : Fmt → Nat
  | .single => 23
  | .double => 52

def bias : Fmt → Nat
  | .single => 127
  | .double => 1023

/-- A value of the host type, as its bit pattern. -/
abbrev Bits (f : Fmt) := BitVec f.width

def length : Fmt → Width
  | .single => .w32
  | .double => .w64

variable {f : Fmt}

def sign (x : f.Bits) : Bool := x.getLsbD (f.width - 1)

def exponent (x : f.Bits) : Nat := x.toNat / 2 ^ f.fracBits % 2 ^ f.expBits

def fraction (x : f.Bits) : Nat := x.toNat % 2 ^ f.fracBits

def isSpecial (x : f.Bits) : Bool := exponent x = 2 ^ f.expBits - 1

/-- `std::isnan`. -/
def isNan (x : f.Bits) : Bool := isSpecial x && fraction x ≠ 0

def isInf (x : f.Bits) : Bool := isSpecial x && fraction x = 0

def isZero (x : f.Bits) : Bool := exponent x = 0 && fraction x = 0

def isSubnormal (x : f.Bits) : Bool := exponent x = 0 && fraction x ≠ 0

def signMask (f : Fmt) : f.Bits := BitVec.ofNat _ (2 ^ (f.width - 1))

/-- Unary minus flips the sign bit. -/
def neg (x : f.Bits) : f.Bits := x ^^^ signMask f

/-- `std::copysign`. -/
def copysign (x y : f.Bits) : f.Bits := (x &&& ~~~(signMask f)) ||| (y &&& signMask f)

/-- The position of a number in the order of the numbers; both zeros are 0. -/
def rank (x : f.Bits) : Int :=
  let magnitude : Int := exponent x * 2 ^ f.fracBits + fraction x
  if sign x then -magnitude else magnitude

/-- `<`, false when an operand is a NaN. -/
def lt (x y : f.Bits) : Bool := !isNan x && !isNan y && rank x < rank y

def le (x y : f.Bits) : Bool := !isNan x && !isNan y && rank x ≤ rank y

def eq (x y : f.Bits) : Bool := !isNan x && !isNan y && rank x = rank y

/-- The number `(-1)^sign * significand * 2^(scale - bias - fracBits)`. -/
def significand (x : f.Bits) : Nat :=
  if exponent x = 0 then fraction x else 2 ^ f.fracBits + fraction x

def scale (x : f.Bits) : Nat := max (exponent x) 1

/-- The number with its fraction part cut off, as a conversion to an integer type does. -/
def truncated (x : f.Bits) : Int :=
  let magnitude : Int := significand x * 2 ^ scale x / 2 ^ (f.bias + f.fracBits)
  if sign x then -magnitude else magnitude

/-- An integer of at most `2 ^ fracBits` is a number of the format. -/
def ofMagnitude (f : Fmt) (negative : Bool) (n : Nat) : f.Bits :=
  let body :=
    if n = 0 then 0 else (n.log2 + f.bias - 1) * 2 ^ f.fracBits + n * 2 ^ (f.fracBits - n.log2)
  BitVec.ofNat _ ((if negative then 2 ^ (f.width - 1) else 0) + body)

/-- A number with a fraction part becomes `pick` of its magnitude, given as a quotient; an
integer, an infinity and a NaN stay as they are. -/
def integral (pick : Nat → Nat → Nat) (x : f.Bits) : f.Bits :=
  if f.bias + f.fracBits ≤ scale x then x
  else ofMagnitude f (sign x) (pick (significand x * 2 ^ scale x) (2 ^ (f.bias + f.fracBits)))

def quotientDown (a b : Nat) : Nat := a / b

def quotientUp (a b : Nat) : Nat := (a + (b - 1)) / b

/-- A half goes up. -/
def quotientNearest (a b : Nat) : Nat := (2 * a + b) / (2 * b)

/-- `std::round`: ties away from zero. -/
def round (x : f.Bits) : f.Bits := integral quotientNearest x

/-- `std::trunc`. -/
def trunc (x : f.Bits) : f.Bits := integral quotientDown x

/-- `std::floor`. -/
def floor (x : f.Bits) : f.Bits := integral (if sign x then quotientUp else quotientDown) x

/-- `std::ceil`. -/
def ceil (x : f.Bits) : f.Bits := integral (if sign x then quotientDown else quotientUp) x

end Fmt

/-- The host's pending floating-point exceptions, as far as `set_exceptions` reads them. -/
structure FeFlags where
  divByZero : Bool
  inexact : Bool
  overflow : Bool
  underflow : Bool
  deriving DecidableEq, Repr, Inhabited

namespace FeFlags

def clear : FeFlags := ⟨false, false, false, false⟩

def raise (a b : FeFlags) : FeFlags :=
  ⟨a.divByZero || b.divByZero, a.inexact || b.inexact, a.overflow || b.overflow,
    a.underflow || b.underflow⟩

end FeFlags

/-- An integer type of the host that a floating-point value is converted to or from. -/
inductive IntType where
  | int32
  | uint32
  | int64
  | uint64
  deriving DecidableEq, Repr

def IntType.min : IntType → Int
  | .int32 => -2 ^ 31
  | .uint32 => 0
  | .int64 => -2 ^ 63
  | .uint64 => 0

def IntType.max : IntType → Int
  | .int32 => 2 ^ 31 - 1
  | .uint32 => 2 ^ 32 - 1
  | .int64 => 2 ^ 63 - 1
  | .uint64 => 2 ^ 64 - 1

/-- The rounding arithmetic of the host: results as bit patterns, with the
exceptions an operation raises. `mulAdd` and `mulSub` are the expressions
`a * b + c` and `a * b - c`, which a compiler may contract. The functions that round
to an integer have exact results; a host may raise inexact in them or not. -/
structure Fpu where
  add (f : Fmt) : f.Bits → f.Bits → f.Bits × FeFlags
  sub (f : Fmt) : f.Bits → f.Bits → f.Bits × FeFlags
  mul (f : Fmt) : f.Bits → f.Bits → f.Bits × FeFlags
  div (f : Fmt) : f.Bits → f.Bits → f.Bits × FeFlags
  mulAdd (f : Fmt) : f.Bits → f.Bits → f.Bits → f.Bits × FeFlags
  mulSub (f : Fmt) : f.Bits → f.Bits → f.Bits → f.Bits × FeFlags
  sqrt (f : Fmt) : f.Bits → f.Bits × FeFlags
  roundFlags (f : Fmt) : f.Bits → FeFlags
  truncFlags (f : Fmt) : f.Bits → FeFlags
  floorFlags (f : Fmt) : f.Bits → FeFlags
  ceilFlags (f : Fmt) : f.Bits → FeFlags
  convert (f g : Fmt) : f.Bits → g.Bits × FeFlags
  ofInt (f : Fmt) : Int → f.Bits × FeFlags
  castFlags (f : Fmt) : f.Bits → FeFlags
  deriving Inhabited

namespace Fpu

def round (fpu : Fpu) (f : Fmt) (x : f.Bits) : f.Bits × FeFlags := (Fmt.round x, fpu.roundFlags f x)

def trunc (fpu : Fpu) (f : Fmt) (x : f.Bits) : f.Bits × FeFlags := (Fmt.trunc x, fpu.truncFlags f x)

def floor (fpu : Fpu) (f : Fmt) (x : f.Bits) : f.Bits × FeFlags := (Fmt.floor x, fpu.floorFlags f x)

def ceil (fpu : Fpu) (f : Fmt) (x : f.Bits) : f.Bits × FeFlags := (Fmt.ceil x, fpu.ceilFlags f x)

end Fpu

/-- The exact value of `std::numeric_limits<T>::min()` or `max()` converted to the
floating-point type, rounded to nearest. -/
def Fpu.limit (fpu : Fpu) (f : Fmt) (x : Int) : f.Bits := (fpu.ofInt f x).1

end Rv64gcEmu
