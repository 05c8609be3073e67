import Mathlib
import Knok.Ops

/-!
# Static creation operations

`arange`, `linspace`, `eye` and the two compile-time random operations take
literal arguments and are expanded to the list of their elements, once by the
type checker (to validate the call) and once by the lowerer (to emit a dense
constant).  Both go through the functions of this file.

Integers are `i128` in the code: `ℤ` with wrap-around at `2 ^ 127`.  Floating
point is Lean's own binary64 and binary32.  An element of a float tensor is
kept as a value (`Literal.float`) instead of its decimal text.
-/

namespace Knok

/-! ## Static scalars -/

/-- Two's complement wrap-around of a 128-bit signed integer. -/
def wrapI128 (value : ℤ) : ℤ := Int.bmod value (2 ^ 128)

/-- Value of a digit sequence, or `none` at the first other character. -/
def parseDigits : ℕ → List Char → Option ℕ
  | acc, [] => some acc
  | acc, c :: cs =>
      if c.isDigit then parseDigits (acc * 10 + (c.toNat - 48)) cs else none

/-- A sign and what follows it. -/
def splitSign : List Char → Bool × List Char
  | '-' :: cs => (true, cs)
  | '+' :: cs => (false, cs)
  | cs => (false, cs)

/-- `str::parse::<i128>`. -/
def parseI128 (text : String) : Option ℤ :=
  let (negative, digits) := splitSign text.toList
  if digits.isEmpty then none
  else
    (parseDigits 0 digits).bind fun magnitude =>
      let value : ℤ := if negative then -magnitude else magnitude
      if -2 ^ 127 ≤ value ∧ value < 2 ^ 127 then some value else none

/-- The exponent after an `e` or `E`; no exponent is exponent zero. -/
def parseExponent : List Char → Option ℤ
  | [] => some 0
  | c :: cs =>
      if c == 'e' || c == 'E' then
        let (negative, digits) := splitSign cs
        if digits.isEmpty then none
        else (parseDigits 0 digits).map fun magnitude =>
          if negative then -(magnitude : ℤ) else magnitude
      else none

/-- `mantissa · 10 ^ exponent`, rounded. -/
def scientific (mantissa : ℕ) (exponent : ℤ) : Float :=
  Float.ofScientific mantissa (exponent < 0) exponent.natAbs

/-- `str::parse::<f64>`: digits with an optional point and exponent, or a name
of an infinity or of a NaN. -/
def parseF64 (text : String) : Option Float :=
  let (negative, body) := splitSign text.toList
  let signed (value : Float) : Float := if negative then -value else value
  let lower := body.map Char.toLower
  if lower = ['i', 'n', 'f'] ∨ lower = ['i', 'n', 'f', 'i', 'n', 'i', 't', 'y'] then
    some (signed (1 / 0))
  else if lower = ['n', 'a', 'n'] then some (0 / 0)
  else
    let whole := body.takeWhile Char.isDigit
    let afterWhole := body.dropWhile Char.isDigit
    let (fraction, rest) := match afterWhole with
      | '.' :: cs => (cs.takeWhile Char.isDigit, cs.dropWhile Char.isDigit)
      | cs => ([], cs)
    if whole.isEmpty && fraction.isEmpty then none
    else
      (parseDigits 0 (whole ++ fraction)).bind fun mantissa =>
        (parseExponent rest).map fun exponent =>
          signed (scientific mantissa (exponent - fraction.length))

/-- Parsed static scalar literal. -/
inductive StaticScalar where
  | bool (value : Bool)
  | int (value : ℤ)
  | float (value : Float)

/-- The static scalar that an expression denotes: a literal of its element type
under any number of negations. -/
def Expr.staticScalar : Expr → Option StaticScalar
  | .const value elem =>
      match elem with
      | .bool =>
          if value = "0" then some (.bool false)
          else if value = "1" then some (.bool true)
          else none
      | .i32 | .i64 => (parseI128 value).map .int
      | .f32 | .f64 | .f16 | .bf16 => (parseF64 value).map .float
  | .unary .neg value =>
      match value.staticScalar with
      | some (.int value) => some (.int (wrapI128 (-value)))
      | some (.float value) => some (.float (-value))
      | _ => none
  | _ => none

/-! ## Parameters -/

/-- A numeric parameter of a static creation operation. -/
inductive NumericParam where
  | int (value : ℤ)
  | float (value : Float)

/-- The parameter as an integer, when it is one. -/
def NumericParam.asInt : NumericParam → Option ℤ
  | .int value => some value
  | .float _ => none

/-- The parameter as a floating-point number. -/
def NumericParam.asFloat : NumericParam → Float
  | .int value => Float.ofInt value
  | .float value => value

/-- The parameter that one argument denotes. -/
def numericParam (opName : String) (arg : Expr) : Except Error NumericParam :=
  match arg.staticScalar with
  | some (.int value) => .ok (.int value)
  | some (.float value) =>
      if value.isFinite then .ok (.float value)
      else .error (.msg s!"{opName} parameters must be finite numeric literals")
  | _ => .error (.msg s!"{opName} parameters must be numeric literals")

/-- Parameters of a call that takes `low` to `high` of them. -/
def parseNumericParams (opName : String) (args : List Expr) (low high : ℕ) :
    Except Error (List NumericParam) := do
  let expected := if low = high then s!"{low}" else s!"{low} to {high}"
  failIf (!(low ≤ args.length && args.length ≤ high))
    s!"{opName} expects {expected} literal arguments, got {args.length}"
  args.mapM (numericParam opName)

/-- The parameter as an integer, or an error. -/
def requireInt (param : NumericParam) (message : String) : Except Error ℤ :=
  match param.asInt with
  | some value => .ok value
  | none => .error (.msg message)

/-- The two parameters of `linspace` and of the random operations. -/
def parsePair (opName : String) (args : List Expr) :
    Except Error (NumericParam × NumericParam) := do
  match ← parseNumericParams opName args 2 2 with
  | [low, high] => return (low, high)
  | _ => .error (.msg s!"{opName} expects 2 literal arguments, got {args.length}")

/-- Floating-point bounds with `low < high`. -/
def parseFloatBounds (opName : String) (args : List Expr) :
    Except Error (Float × Float) := do
  let (low, high) ← parsePair opName args
  failIf (!(low.asFloat < high.asFloat)) s!"{opName} requires low < high"
  return (low.asFloat, high.asFloat)

/-- Integer bounds with `low < high`. -/
def parseIntegerBounds (opName : String) (args : List Expr) :
    Except Error (ℤ × ℤ) := do
  let (low, high) ← parsePair opName args
  let low ← requireInt low s!"{opName} bounds must be integer literals"
  let high ← requireInt high s!"{opName} bounds must be integer literals"
  failIf (!(low < high)) s!"{opName} requires low < high"
  return (low, high)

/-! ## Elements -/

/-- One element of a dense constant: its text, or, for a float element, the
value whose text the code prints. -/
inductive Literal where
  | text (value : String)
  | float (value : Float)

/-- The text of an integer element that fits its type. -/
def integerLiteralForElem (value : ℤ) : ElementType → Except Error Literal
  | .i32 =>
      if value < -2 ^ 31 ∨ 2 ^ 31 - 1 < value then
        .error (.msg s!"integer literal {value} does not fit in i32")
      else .ok (.text (toString value))
  | .i64 =>
      if value < -2 ^ 63 ∨ 2 ^ 63 - 1 < value then
        .error (.msg s!"integer literal {value} does not fit in i64")
      else .ok (.text (toString value))
  | _ => .error (.msg "integer literal target must be i32 or i64")

/-- Number of integers from `start` to `stop` in steps of `step`. -/
def integerArangeLen (start stop step : ℤ) : Except Error ℕ :=
  if step = 0 then .error (.msg "arange step must not be zero")
  else
    let distance := wrapI128 (stop - start)
    if (0 < step ∧ distance ≤ 0) ∨ (step < 0 ∧ 0 ≤ distance) then .ok 0
    else
      let len := (distance.natAbs + step.natAbs - 1) / step.natAbs
      if len < usizeSize then .ok len
      else .error (.msg "arange length exceeds usize")

/-- Number of floats from `start` to `stop` in steps of `step`. -/
def floatArangeLen (start stop step : Float) : Except Error ℕ :=
  if step == 0 then .error (.msg "arange step must not be zero")
  else
    let distance := stop - start
    if (0 < step && distance <= 0) || (step < 0 && 0 <= distance) then .ok 0
    else
      let len := (distance / step).ceil
      if !len.isFinite || len < 0 || Float.ofNat (usizeSize - 1) < len then
        .error (.msg "arange length exceeds usize")
      else .ok len.toUInt64.toNat

/-- The arithmetic progression of `i128` values. -/
def integerProgression (start step : ℤ) (len : ℕ) : List ℤ :=
  (List.range len).map fun index => wrapI128 (start + wrapI128 (step * index))

/-- The arithmetic progression of floats. -/
def floatProgression (start step : Float) (len : ℕ) : List Float :=
  (List.range len).map fun index => start + step * Float.ofNat index

/-- The `start`, `stop` and `step` of an `arange` call. -/
def arangeParams (args : List Expr) :
    Except Error (NumericParam × NumericParam × NumericParam) := do
  match ← parseNumericParams "arange" args 1 3 with
  | [stop] => return (.int 0, stop, .int 1)
  | [start, stop] => return (start, stop, .int 1)
  | [start, stop, step] => return (start, stop, step)
  | _ => .error (.msg "parse_numeric_params enforces arange arity")

/-- The elements of a static `arange`. -/
def staticArangeLiterals (target : TensorType) (args : List Expr) :
    Except Error (List Literal) := do
  validateStaticVectorTarget target "arange"
  let (start, stop, step) ← arangeParams args
  let len := target.dim 0
  match target.elem with
  | .i32 | .i64 => do
      let integerOnly := "arange integer targets require integer parameters"
      let start ← requireInt start integerOnly
      let stop ← requireInt stop integerOnly
      let step ← requireInt step integerOnly
      let expected ← integerArangeLen start stop step
      failIf (expected != len)
        s!"arange produces {expected} values but target shape {target.shape} has {len}"
      (integerProgression start step len).mapM
        fun value => integerLiteralForElem value target.elem
  | .f32 | .f64 | .f16 | .bf16 => do
      let expected ← floatArangeLen start.asFloat stop.asFloat step.asFloat
      failIf (expected != len)
        s!"arange produces {expected} values but target shape {target.shape} has {len}"
      return (floatProgression start.asFloat step.asFloat len).map .float
  | .bool => .error (.msg "arange target element type must be numeric")

/-- The values of an integer `linspace`. -/
def integerLinspaceValues (start stop : ℤ) (len : ℕ) : Except Error (List ℤ) :=
  match len with
  | 0 => .ok []
  | 1 => .ok [start]
  | _ =>
      let intervals : ℤ := len - 1
      let distance := wrapI128 (stop - start)
      if distance.tmod intervals ≠ 0 then
        .error (.msg
          s!"linspace integer target requires evenly divisible endpoints for {len} values")
      else .ok (integerProgression start (distance.tdiv intervals) len)

/-- The values of a float `linspace`. -/
def floatLinspaceValues (start stop : Float) (len : ℕ) : List Float :=
  match len with
  | 0 => []
  | 1 => [start]
  | _ => floatProgression start ((stop - start) / Float.ofNat (len - 1)) len

/-- The elements of a static `linspace`. -/
def staticLinspaceLiterals (target : TensorType) (args : List Expr) :
    Except Error (List Literal) := do
  validateStaticVectorTarget target "linspace"
  let (start, stop) ← parsePair "linspace" args
  let len := target.dim 0
  match target.elem with
  | .i32 | .i64 => do
      let integerOnly := "linspace integer targets require integer parameters"
      let start ← requireInt start integerOnly
      let stop ← requireInt stop integerOnly
      let values ← integerLinspaceValues start stop len
      values.mapM fun value => integerLiteralForElem value target.elem
  | .f32 | .f64 | .f16 | .bf16 =>
      return (floatLinspaceValues start.asFloat stop.asFloat len).map .float
  | .bool => .error (.msg "linspace target element type must be numeric")

/-- The elements of an identity matrix, row by row. -/
def staticEyeLiterals (target : TensorType) : Except Error (List Literal) := do
  validateStaticEyeTarget target
  let rows := target.dim 0
  return (List.range rows).flatMap fun row => (List.range rows).map fun col =>
    .text (if row = col then target.elem.oneLiteral else target.elem.zeroLiteral)

/-! ## Compile-time random elements -/

/-- One step of the SplitMix64 generator. -/
def splitmix64 (value : UInt64) : UInt64 :=
  let value := value + 0x9E3779B97F4A7C15
  let mixed := value
  let mixed := (mixed ^^^ (mixed >>> 30)) * 0xBF58476D1CE4E5B9
  let mixed := (mixed ^^^ (mixed >>> 27)) * 0x94D049BB133111EB
  mixed ^^^ (mixed >>> 31)

/-- A float in `[0, 1)` from the low 53 bits. -/
def unitF64FromU64 (value : UInt64) : Float :=
  (value &&& (2 ^ 53 - 1)).toFloat * (1 / (2 ^ 53 : UInt64).toFloat)

/-- A float in `[0, 1)` from the low 24 bits. -/
def unitF32FromU64 (value : UInt64) : Float32 :=
  (value &&& (2 ^ 24 - 1)).toFloat32 * (1 / (2 ^ 24 : UInt64).toFloat32)

/-- The next binary64 number below. -/
def nextDownF64 (value : Float) : Float :=
  if value == -(1 / 0) then value
  else if value == 0 then -(Float.ofBits 1)
  else if 0 < value then Float.ofBits (value.toBits - 1)
  else Float.ofBits (value.toBits + 1)

/-- The next binary32 number below. -/
def nextDownF32 (value : Float32) : Float32 :=
  if value == -(1 / 0) then value
  else if value == 0 then -(Float32.ofBits 1)
  else if 0 < value then Float32.ofBits (value.toBits - 1)
  else Float32.ofBits (value.toBits + 1)

/-- One uniformly distributed element between `low` and `high`. -/
def randomUniformLiteral (elem : ElementType) (low high : Float) (hash : UInt64) :
    Except Error Literal :=
  match elem with
  | .f32 => do
      let low := low.toFloat32
      let high := high.toFloat32
      failIf (!low.isFinite || !high.isFinite)
        "static_random_uniform f32 bounds must be finite"
      failIf (high <= low)
        "static_random_uniform requires low < high after f32 rounding"
      let value := low + unitF32FromU64 hash * (high - low)
      let value := if high <= value then nextDownF32 high else value
      let value := if value < low then low else value
      return .float value.toFloat
  | .f64 =>
      let value := low + unitF64FromU64 hash * (high - low)
      let value := if high <= value then nextDownF64 high else value
      let value := if value < low then low else value
      .ok (.float value)
  | _ => .error (.msg "static_random_uniform target element type must be f32 or f64")

/-- The elements of a compile-time uniform random tensor. -/
def staticRandomUniformLiterals (target : TensorType) (seed : UInt64)
    (args : List Expr) : Except Error (List Literal) := do
  validateRandomUniformTarget target "static_random_uniform"
  let (low, high) ← parseFloatBounds "static_random_uniform" args
  (List.range (elementCount target)).mapM fun index =>
    randomUniformLiteral target.elem low high
      (splitmix64 (seed + UInt64.ofNat index))

/-- The elements of a compile-time integer random tensor. -/
def staticRandomIntLiterals (target : TensorType) (seed : UInt64)
    (args : List Expr) : Except Error (List Literal) := do
  validateRandomIntTarget target "static_random_int"
  let (low, high) ← parseIntegerBounds "static_random_int" args
  let range := wrapI128 (high - low)
  failIf (range < 0) "static_random_int range must be positive"
  (List.range (elementCount target)).mapM fun index =>
    let sample := (splitmix64 (seed + UInt64.ofNat index)).toNat
    integerLiteralForElem (wrapI128 (low + (sample % range.toNat : ℕ))) target.elem

/-! ## Validation of a call -/

/-- Literal arguments of a static creation operation; every other operation
passes. -/
def validateStaticCreationCall (op : CallOp) (args : List Expr) :
    Except Error Unit :=
  match op with
  | .arange target => do
      let _ ← staticArangeLiterals target args
  | .linspace target => do
      let _ ← staticLinspaceLiterals target args
  | .eye target => do
      failIf (!args.isEmpty) s!"Eye expects 0 arguments, got {args.length}"
      let _ ← staticEyeLiterals target
  | .staticRandomUniform target seed => do
      let _ ← staticRandomUniformLiterals target seed args
  | .staticRandomInt target seed => do
      let _ ← staticRandomIntLiterals target seed args
  | _ => .ok ()

end Knok
