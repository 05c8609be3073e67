import Mathlib

/-!
# The graph IR

Data model of the tensor-graph compiler: element and tensor types, the closed
list of graph operations, expressions, and the two graph forms (untyped before
semantic validation, typed after it).

### Design decisions

* **Sizes.**  `usize` values are `ℕ`; wherever the code *adds or multiplies*
  sizes, the operation is one of `usizeAdd`, `usizeMul`, `usizeSum`,
  `usizeProduct`, which reduce modulo `2 ^ 64` (release-build arithmetic).
* **Sharing.**  `Expr.node` and `Expr.tupleGet` carry their payload in the
  tree, exactly as `Arc<Expr>` does up to pointer identity: the code compares
  payloads structurally, never by address.
* **Errors.**  An error keeps its text, and, for the failures that come from
  *resolving a graph call*, the kind of failure (`CallFault`), which the code
  only encodes in the text.
-/

namespace Knok

/-! ## Sizes -/

/-- Number of values of the code's `usize`. -/
def usizeSize : ℕ := 2 ^ 64

/-- `a + b` on `usize`. -/
def usizeAdd (a b : ℕ) : ℕ := (a + b) % usizeSize

/-- `a * b` on `usize`. -/
def usizeMul (a b : ℕ) : ℕ := (a * b) % usizeSize

/-- `iter().sum::<usize>()`. -/
def usizeSum (xs : List ℕ) : ℕ := xs.foldl usizeAdd 0

/-- `iter().product::<usize>()`. -/
def usizeProduct (xs : List ℕ) : ℕ := xs.foldl usizeMul 1

theorem usizeAdd_of_lt {a b : ℕ} (h : a + b < 2 ^ 64) : usizeAdd a b = a + b :=
  Nat.mod_eq_of_lt h

theorem usizeMul_of_lt {a b : ℕ} (h : a * b < 2 ^ 64) : usizeMul a b = a * b :=
  Nat.mod_eq_of_lt h

theorem usizeAdd_lt (a b : ℕ) : usizeAdd a b < 2 ^ 64 :=
  Nat.mod_lt _ (by decide)

private theorem foldl_usizeAdd (xs : List ℕ) :
    ∀ acc : ℕ, xs.foldl usizeAdd (acc % usizeSize) = (acc + xs.sum) % usizeSize := by
  induction xs with
  | nil => intro acc; simp
  | cons x xs ih =>
      intro acc
      have step : usizeAdd (acc % usizeSize) x = (acc + x) % usizeSize := by
        simp [usizeAdd, Nat.add_mod]
      rw [List.foldl_cons, step, ih, List.sum_cons, Nat.add_assoc]

private theorem foldl_usizeMul (xs : List ℕ) :
    ∀ acc : ℕ, xs.foldl usizeMul (acc % usizeSize) = (acc * xs.prod) % usizeSize := by
  induction xs with
  | nil => intro acc; simp
  | cons x xs ih =>
      intro acc
      have step : usizeMul (acc % usizeSize) x = (acc * x) % usizeSize := by
        simp [usizeMul, Nat.mul_mod]
      rw [List.foldl_cons, step, ih, List.prod_cons, Nat.mul_assoc]

/-- The wrapping sum is the sum of the integers, reduced once. -/
theorem usizeSum_eq (xs : List ℕ) : usizeSum xs = xs.sum % 2 ^ 64 := by
  simpa [usizeSum, usizeSize] using foldl_usizeAdd xs 0

/-- The wrapping product is the product of the integers, reduced once. -/
theorem usizeProduct_eq (xs : List ℕ) : usizeProduct xs = xs.prod % 2 ^ 64 := by
  simpa [usizeProduct, usizeSize] using foldl_usizeMul xs 1

/-! ## Errors -/

/-- The three ways in which resolving a call to another graph can fail. -/
inductive CallFault where
  /-- The callee is already being expanded. -/
  | recursive
  /-- The callee is not in the registry. -/
  | missing
  /-- The number of arguments is not the callee's number of inputs. -/
  | arity
  deriving DecidableEq

/-- What an error is about: a graph call, an exhausted inlining depth (which
the code, recursing on its own stack, never reports), or anything else. -/
inductive ErrorKind where
  | call (fault : CallFault)
  | depth
  | other
  deriving DecidableEq

/-- An error with its text. -/
structure Error where
  kind : ErrorKind
  message : String
  deriving DecidableEq

/-- An error that does not come from resolving a graph call. -/
def Error.msg (message : String) : Error := ⟨.other, message⟩

/-- An error that comes from resolving a graph call. -/
def Error.callFault (fault : CallFault) (message : String) : Error :=
  ⟨.call fault, message⟩

/-- The error was raised because of a graph call. -/
def Error.IsCallFault (e : Error) : Prop := ∃ fault, e.kind = .call fault

/-- `if condition { return Err(message) }`. -/
def failIf (condition : Bool) (message : String) : Except Error Unit :=
  if condition then .error (.msg message) else .ok ()

@[simp] theorem failIf_eq_ok_iff {condition : Bool} {message : String} {u : Unit} :
    failIf condition message = .ok u ↔ condition = false := by
  cases condition <;> simp [failIf]

/-! ## Types -/

/-- Supported graph element type. -/
inductive ElementType where
  | bool
  | f32
  | f64
  | f16
  | bf16
  | i32
  | i64
  deriving DecidableEq

namespace ElementType

/-- The MLIR scalar type name. -/
def mlirType : ElementType → String
  | bool => "i1"
  | f32 => "f32"
  | f64 => "f64"
  | f16 => "f16"
  | bf16 => "bf16"
  | i32 => "i32"
  | i64 => "i64"

/-- Floating-point element types. -/
def isFloat : ElementType → Bool
  | f32 | f64 | f16 | bf16 => true
  | _ => false

/-- The boolean element type. -/
def isBool : ElementType → Bool
  | bool => true
  | _ => false

/-- Non-boolean numeric element types. -/
def isNumeric (elem : ElementType) : Bool := !elem.isBool

/-- A zero literal suitable for this element type. -/
def zeroLiteral : ElementType → String
  | bool => "0"
  | f32 | f64 | f16 | bf16 => "0.0"
  | i32 | i64 => "0"

/-- A one literal suitable for this element type. -/
def oneLiteral : ElementType → String
  | bool => "1"
  | f32 | f64 | f16 | bf16 => "1.0"
  | i32 | i64 => "1"

/-- `Debug` rendering. -/
def debug : ElementType → String
  | bool => "Bool"
  | f32 => "F32"
  | f64 => "F64"
  | f16 => "F16"
  | bf16 => "BF16"
  | i32 => "I32"
  | i64 => "I64"

theorem isNumeric_of_isFloat {elem : ElementType} (h : elem.isFloat = true) :
    elem.isNumeric = true := by
  cases elem <;> simp_all [isFloat, isNumeric, isBool]

end ElementType

/-- Static tensor type. -/
structure TensorType where
  elem : ElementType
  shape : List ℕ
  deriving DecidableEq

namespace TensorType

/-- The tensor rank. -/
def rank (ty : TensorType) : ℕ := ty.shape.length

/-- The MLIR `tensor<...>` type text. -/
def mlirType (ty : TensorType) : String :=
  if ty.shape.isEmpty then s!"tensor<{ty.elem.mlirType}>"
  else
    let dims := "x".intercalate (ty.shape.map toString)
    s!"tensor<{dims}x{ty.elem.mlirType}>"

/-- `Debug` rendering. -/
def debug (ty : TensorType) : String :=
  "TensorType \x7b elem: " ++ ty.elem.debug ++ ", shape: " ++
    toString ty.shape ++ " \x7d"

end TensorType

/-! ## Operations -/

/-- Unary arithmetic operator. -/
inductive UnaryOp where
  | neg
  deriving DecidableEq

/-- Binary arithmetic operator. -/
inductive BinaryOp where
  | add
  | sub
  | mul
  | div
  deriving DecidableEq

/-- Axis selection for reductions and axis-sensitive operations. -/
inductive AxisSpec where
  | all
  | one (axis : ℕ)
  deriving DecidableEq

/-- The selected axis, or `none` for all-axis operations. -/
def AxisSpec.index : AxisSpec → Option ℕ
  | .all => none
  | .one axis => some axis

/-- Explicit 2D padding amounts. -/
structure Padding2d where
  top : ℕ
  bottom : ℕ
  left : ℕ
  right : ℕ
  deriving DecidableEq

/-- Static 2D convolution options; a pair is a `[usize; 2]`. -/
structure Conv2dOptions where
  padding : Padding2d
  stride : ℕ × ℕ
  dilation : ℕ × ℕ
  groups : ℕ
  deriving DecidableEq

/-- Static 2D pooling options. -/
structure Pool2dOptions where
  kernel : ℕ × ℕ
  padding : Padding2d
  stride : ℕ × ℕ
  dilation : ℕ × ℕ
  deriving DecidableEq

/-- Function-style graph operation.  `repeat` and `where` are Lean keywords,
hence the trailing underscore. -/
inductive CallOp where
  | abs
  | all (axis : AxisSpec)
  | argmax (axis : AxisSpec)
  | argmin (axis : AxisSpec)
  | any (axis : AxisSpec)
  | clip
  | concat (axis : ℕ)
  | conv2d (options : Conv2dOptions)
  | ceil
  | detach
  | diagonal (axes : Option (ℕ × ℕ))
  | dot
  | equal
  | eye (target : TensorType)
  | exp
  | exp2
  | expM1
  | floor
  | fullLike
  | greater
  | greaterEqual
  | gather (target : TensorType) (axis : ℕ)
  | isNan
  | less
  | lessEqual
  | arange (target : TensorType)
  | linspace (target : TensorType)
  | randomUniform (target : TensorType)
  | randomInt (target : TensorType)
  | staticRandomUniform (target : TensorType) (seed : UInt64)
  | staticRandomInt (target : TensorType) (seed : UInt64)
  | log
  | log1P
  | log2
  | log10
  | logicalAnd
  | logicalNot
  | logicalOr
  | logicalXor
  | inner
  | matmul
  | maxPool2d (options : Pool2dOptions)
  | max (axis : AxisSpec)
  | avgPool2d (options : Pool2dOptions)
  | mean (axis : AxisSpec)
  | min (axis : AxisSpec)
  | minimum
  | maximum
  | notEqual
  | flip (axes : List ℕ)
  | moveAxis (source destination : ℕ)
  | pad (target : TensorType) (lows : List ℕ)
  | outer
  | pow
  | prod (axis : AxisSpec)
  | ptp (axis : AxisSpec)
  | permute (target : TensorType) (axes : List ℕ)
  | permuteDims (axes : List ℕ)
  | reciprocal
  | relu
  | repeat_ (axis count : ℕ)
  | reshape (target : TensorType)
  | roll (axis shift : ℕ)
  | broadcast (target : TensorType)
  | rint
  | round
  | sigmoid
  | slice (target : TensorType) (starts : List ℕ)
  | softmax (axis : AxisSpec)
  | sqrt
  | square
  | squeeze (target : TensorType)
  | stack (axis : ℕ)
  | std (axis : AxisSpec)
  | sum (axis : AxisSpec)
  | split (axis : ℕ) (sections : List ℕ)
  | swapAxes (axis0 axis1 : ℕ)
  | tanh
  | cos
  | sin
  | tan
  | take (axis index : ℕ)
  | tile (multiples : List ℕ)
  | takeAlongAxis (axis : ℕ)
  | trace (axes : Option (ℕ × ℕ))
  | transpose (axes : List ℕ)
  | unsqueeze (target : TensorType)
  | var (axis : AxisSpec)
  | vecdot (axis : Option ℕ)
  | where_
  | onesLike
  | zerosLike
  | graph (name : String)
  deriving DecidableEq

/-- An operation calls a graph or is primitive. -/
theorem CallOp.eq_graph_or (op : CallOp) :
    (∃ name, op = .graph name) ∨ ∀ name, op ≠ .graph name := by
  cases op with
  | graph name => exact .inl ⟨name, rfl⟩
  | _ => exact .inr (by simp)

/-- The stable textual operation name used in diagnostics. -/
def CallOp.name : CallOp → String
  | abs => "abs"
  | all _ => "all"
  | argmax _ => "argmax"
  | argmin _ => "argmin"
  | any _ => "any"
  | clip => "clip"
  | concat _ => "concat"
  | conv2d _ => "conv2d"
  | ceil => "ceil"
  | detach => "detach"
  | diagonal _ => "diagonal"
  | dot => "dot"
  | equal => "equal"
  | eye _ => "eye"
  | exp => "exp"
  | exp2 => "exp2"
  | expM1 => "expm1"
  | floor => "floor"
  | fullLike => "full_like"
  | greater => "greater"
  | greaterEqual => "greater_equal"
  | gather .. => "gather"
  | isNan => "isnan"
  | less => "less"
  | lessEqual => "less_equal"
  | arange _ => "arange"
  | linspace _ => "linspace"
  | randomUniform _ => "random_uniform"
  | randomInt _ => "random_int"
  | staticRandomUniform .. => "static_random_uniform"
  | staticRandomInt .. => "static_random_int"
  | log => "log"
  | log1P => "log1p"
  | log2 => "log2"
  | log10 => "log10"
  | logicalAnd => "logical_and"
  | logicalNot => "logical_not"
  | logicalOr => "logical_or"
  | logicalXor => "logical_xor"
  | inner => "inner"
  | matmul => "matmul"
  | maxPool2d _ => "max_pool2d"
  | max _ => "max"
  | avgPool2d _ => "avg_pool2d"
  | mean _ => "mean"
  | min _ => "min"
  | minimum => "minimum"
  | maximum => "maximum"
  | notEqual => "not_equal"
  | flip _ => "flip"
  | moveAxis .. => "moveaxis"
  | pad .. => "pad"
  | outer => "outer"
  | pow => "pow"
  | prod _ => "prod"
  | ptp _ => "ptp"
  | permute .. => "permute"
  | permuteDims _ => "permute_dims"
  | reciprocal => "reciprocal"
  | relu => "relu"
  | repeat_ .. => "repeat"
  | reshape _ => "reshape"
  | roll .. => "roll"
  | broadcast _ => "broadcast"
  | rint => "rint"
  | round => "round"
  | sigmoid => "sigmoid"
  | slice .. => "slice"
  | softmax _ => "softmax"
  | sqrt => "sqrt"
  | square => "square"
  | squeeze _ => "squeeze"
  | stack _ => "stack"
  | std _ => "std"
  | sum _ => "sum"
  | split .. => "split"
  | swapAxes .. => "swapaxes"
  | tanh => "tanh"
  | cos => "cos"
  | sin => "sin"
  | tan => "tan"
  | take .. => "take"
  | tile _ => "tile"
  | takeAlongAxis _ => "take_along_axis"
  | trace _ => "trace"
  | transpose _ => "transpose"
  | unsqueeze _ => "unsqueeze"
  | var _ => "var"
  | vecdot _ => "vecdot"
  | where_ => "where"
  | onesLike => "ones_like"
  | zerosLike => "zeros_like"
  | graph _ => "graph"

/-! ## Expressions -/

/-- Graph expression, before and after type checking. -/
inductive Expr where
  /-- Reference to an input or let-bound value. -/
  | var (name : String)
  /-- Scalar literal with an explicit element type. -/
  | const (value : String) (elem : ElementType)
  | unary (op : UnaryOp) (value : Expr)
  | binary (op : BinaryOp) (lhs rhs : Expr)
  /-- Traced node that should be let-bound once even when cloned. -/
  | node (nodeId : ℕ) (value : Expr)
  /-- Projection from a traced multi-output expression. -/
  | tupleGet (tupleId : ℕ) (value : Expr) (index : ℕ)
  | call (op : CallOp) (args : List Expr)

namespace Expr

/-- Induction over expressions: a call may use the hypothesis at each of its
arguments. -/
@[elab_as_elim, induction_eliminator]
theorem induct {motive : Expr → Prop}
    (var : ∀ name, motive (.var name))
    (const : ∀ value elem, motive (.const value elem))
    (unary : ∀ op value, motive value → motive (.unary op value))
    (binary : ∀ op lhs rhs, motive lhs → motive rhs → motive (.binary op lhs rhs))
    (node : ∀ nodeId value, motive value → motive (.node nodeId value))
    (tupleGet : ∀ tupleId value index, motive value →
      motive (.tupleGet tupleId value index))
    (call : ∀ op args, (∀ arg ∈ args, motive arg) → motive (.call op args))
    (e : Expr) : motive e := by
  refine @Expr.rec motive (fun args => ∀ arg ∈ args, motive arg)
    var const unary binary node tupleGet call ?_ ?_ e
  · intro arg harg
    cases harg
  · intro head tail ihHead ihTail arg harg
    rcases List.mem_cons.mp harg with rfl | harg
    · exact ihHead
    · exact ihTail arg harg

mutual

/-- Structural equality test: what `==` on payloads computes. -/
def beq : Expr → Expr → Bool
  | .var a, .var b => a == b
  | .const v s, .const w t => v == w && s == t
  | .unary o a, .unary p b => o == p && beq a b
  | .binary o a b, .binary p c d => o == p && beq a c && beq b d
  | .node i a, .node j b => i == j && beq a b
  | .tupleGet i a k, .tupleGet j b l => i == j && beq a b && k == l
  | .call o as, .call p bs => o == p && beqList as bs
  | _, _ => false

/-- `beq` along two argument lists. -/
def beqList : List Expr → List Expr → Bool
  | [], [] => true
  | a :: as, b :: bs => beq a b && beqList as bs
  | _, _ => false

end

theorem beqList_eq_true_iff (as : List Expr)
    (ih : ∀ a ∈ as, ∀ b, beq a b = true ↔ a = b) :
    ∀ bs, beqList as bs = true ↔ as = bs := by
  induction as with
  | nil => intro bs; cases bs <;> simp [beqList]
  | cons a as ihas =>
      intro bs
      cases bs with
      | nil => simp [beqList]
      | cons b bs =>
          have hhead := ih a (List.mem_cons_self ..) b
          have htail := ihas (fun c hc => ih c (List.mem_cons_of_mem _ hc)) bs
          simp [beqList, hhead, htail]

theorem beq_eq_true_iff (a : Expr) : ∀ b, beq a b = true ↔ a = b := by
  induction a with
  | call op args ih =>
      intro b
      cases b <;> simp [beq, beqList_eq_true_iff args ih]
  | var name => intro b; cases b <;> simp [beq]
  | const value elem => intro b; cases b <;> simp [beq]
  | unary op value ih => intro b; cases b <;> simp [beq, ih]
  | binary op lhs rhs ihl ihr =>
      intro b; cases b <;> simp [beq, ihl, ihr, and_assoc]
  | node nodeId value ih => intro b; cases b <;> simp [beq, ih]
  | tupleGet tupleId value index ih =>
      intro b; cases b <;> simp [beq, ih, and_assoc]

instance : DecidableEq Expr := fun a b =>
  decidable_of_iff (beq a b = true) (beq_eq_true_iff a b)

/-! ### Subexpressions -/

mutual

/-- Every expression that occurs in an expression, at any depth: operands,
arguments and shared payloads, the expression itself first. -/
def subexprs : Expr → List Expr
  | .var name => [.var name]
  | .const value elem => [.const value elem]
  | .unary op value => .unary op value :: subexprs value
  | .binary op lhs rhs => .binary op lhs rhs :: (subexprs lhs ++ subexprs rhs)
  | .node nodeId value => .node nodeId value :: subexprs value
  | .tupleGet tupleId value index => .tupleGet tupleId value index :: subexprs value
  | .call op args => .call op args :: subexprsList args

/-- The expressions that occur in one of a list of arguments. -/
def subexprsList : List Expr → List Expr
  | [] => []
  | arg :: args => subexprs arg ++ subexprsList args

end

@[simp] theorem mem_subexprsList {s : Expr} {args : List Expr} :
    s ∈ subexprsList args ↔ ∃ arg ∈ args, s ∈ arg.subexprs := by
  induction args with
  | nil => simp [subexprsList]
  | cons arg args ih => simp [subexprsList, ih]

theorem mem_subexprs_self (e : Expr) : e ∈ e.subexprs := by
  cases e <;> simp [subexprs]

theorem mem_subexprs_node {s value : Expr} (nodeId : ℕ) (h : s ∈ value.subexprs) :
    s ∈ (Expr.node nodeId value).subexprs :=
  List.mem_cons_of_mem _ h

/-- Occurrence is transitive. -/
theorem mem_subexprs_trans {r s e : Expr} (hrs : r ∈ s.subexprs)
    (hse : s ∈ e.subexprs) : r ∈ e.subexprs := by
  induction e with
  | var name => simpa [subexprs, List.mem_singleton.mp hse] using hrs
  | const value elem => simpa [subexprs, List.mem_singleton.mp hse] using hrs
  | unary op value ih =>
      rcases List.mem_cons.mp hse with rfl | hse
      · exact hrs
      · exact List.mem_cons_of_mem _ (ih hse)
  | binary op lhs rhs ihl ihr =>
      rcases List.mem_cons.mp hse with rfl | hse
      · exact hrs
      · rcases List.mem_append.mp hse with hse | hse
        · exact List.mem_cons_of_mem _ (List.mem_append_left _ (ihl hse))
        · exact List.mem_cons_of_mem _ (List.mem_append_right _ (ihr hse))
  | node nodeId value ih =>
      rcases List.mem_cons.mp hse with rfl | hse
      · exact hrs
      · exact List.mem_cons_of_mem _ (ih hse)
  | tupleGet tupleId value index ih =>
      rcases List.mem_cons.mp hse with rfl | hse
      · exact hrs
      · exact List.mem_cons_of_mem _ (ih hse)
  | call op args ih =>
      rcases List.mem_cons.mp hse with rfl | hse
      · exact hrs
      · obtain ⟨arg, harg, hse⟩ := mem_subexprsList.mp hse
        exact List.mem_cons_of_mem _ (mem_subexprsList.mpr ⟨arg, harg, ih arg harg hse⟩)

/-- The variables that occur in an expression. -/
def vars (e : Expr) : List String :=
  e.subexprs.filterMap fun
    | .var name => some name
    | _ => none

@[simp] theorem mem_vars {name : String} {e : Expr} :
    name ∈ e.vars ↔ Expr.var name ∈ e.subexprs := by
  simp only [vars, List.mem_filterMap]
  constructor
  · rintro ⟨s, hs, h⟩
    cases s <;> simp_all
  · intro h
    exact ⟨_, h, rfl⟩

/-- The largest nesting of an expression: strictly larger than that of every
proper subexpression. -/
theorem sizeOf_le_of_mem_subexprs {s e : Expr} (h : s ∈ e.subexprs) :
    s = e ∨ sizeOf s < sizeOf e := by
  induction e with
  | var name => exact .inl (List.mem_singleton.mp h)
  | const value elem => exact .inl (List.mem_singleton.mp h)
  | unary op value ih =>
      rcases List.mem_cons.mp h with h | h
      · exact .inl h
      · have := ih h; simp only [unary.sizeOf_spec]; grind
  | binary op lhs rhs ihl ihr =>
      rcases List.mem_cons.mp h with h | h
      · exact .inl h
      · simp only [binary.sizeOf_spec]
        rcases List.mem_append.mp h with h | h
        · have := ihl h; grind
        · have := ihr h; grind
  | node nodeId value ih =>
      rcases List.mem_cons.mp h with h | h
      · exact .inl h
      · have := ih h; simp only [node.sizeOf_spec]; grind
  | tupleGet tupleId value index ih =>
      rcases List.mem_cons.mp h with h | h
      · exact .inl h
      · have := ih h; simp only [tupleGet.sizeOf_spec]; grind
  | call op args ih =>
      rcases List.mem_cons.mp h with h | h
      · exact .inl h
      · obtain ⟨arg, harg, h⟩ := mem_subexprsList.mp h
        have hsize := List.sizeOf_lt_of_mem harg
        have := ih arg harg h
        simp only [call.sizeOf_spec]
        grind

/-- A shared payload does not contain the node it is the payload of. -/
theorem node_not_mem_payload (nodeId : ℕ) (value : Expr) :
    Expr.node nodeId value ∉ value.subexprs := by
  intro h
  have hsize := sizeOf_le_of_mem_subexprs h
  have hspec : sizeOf (Expr.node nodeId value) = 1 + sizeOf nodeId + sizeOf value := by
    simp
  rcases hsize with heq | hlt
  · have : sizeOf (Expr.node nodeId value) = sizeOf value := by rw [heq]
    omega
  · omega

end Expr

/-! ### Sharing -/

/-- Every node id that occurs in the expressions carries one payload. -/
def SharedNodes (es : List Expr) : Prop :=
  ∀ nodeId v w, (∃ e ∈ es, Expr.node nodeId v ∈ e.subexprs) →
    (∃ e ∈ es, Expr.node nodeId w ∈ e.subexprs) → v = w

/-- Every tuple id that occurs in the expressions carries one payload. -/
def SharedTuples (es : List Expr) : Prop :=
  ∀ tupleId v w k l, (∃ e ∈ es, Expr.tupleGet tupleId v k ∈ e.subexprs) →
    (∃ e ∈ es, Expr.tupleGet tupleId w l ∈ e.subexprs) → v = w

/-! ## Graphs -/

/-- One named graph input. -/
structure Input where
  name : String
  ty : TensorType
  deriving DecidableEq

/-- Untyped let binding. -/
structure Let where
  names : List String
  value : Expr
  deriving DecidableEq

/-- Untyped graph IR produced before semantic validation. -/
structure Graph where
  name : String
  backend : String
  inputs : List Input
  outputs : List TensorType
  lets : List Let
  body : List Expr
  deriving DecidableEq

/-- The expressions of a graph: its let values, then its body. -/
def Graph.exprs (graph : Graph) : List Expr := graph.lets.map Let.value ++ graph.body

/-- Type-checked expression value that may produce multiple tensors. -/
structure TypedValue where
  kind : Expr
  tys : List TensorType
  deriving DecidableEq

/-- Type-checked expression that produces one tensor. -/
structure TypedExpr where
  kind : Expr
  ty : TensorType
  deriving DecidableEq

/-- Type-checked let binding. -/
structure TypedLet where
  names : List String
  value : TypedValue
  deriving DecidableEq

/-- Type-checked graph IR. -/
structure TypedGraph where
  name : String
  backend : String
  inputs : List Input
  outputs : List TensorType
  lets : List TypedLet
  body : List TypedExpr
  deriving DecidableEq

/-- The expressions of a typed graph: its let values, then its body. -/
def TypedGraph.exprs (graph : TypedGraph) : List Expr :=
  graph.lets.map (fun binding => binding.value.kind) ++ graph.body.map TypedExpr.kind

/-- The names that a graph binds: its inputs, then its lets. -/
def TypedGraph.boundNames (graph : TypedGraph) : List String :=
  graph.inputs.map Input.name ++ graph.lets.flatMap TypedLet.names

/-- No let binds a name that is an input or is bound by a let already. -/
structure TypedGraph.NoRebinding (graph : TypedGraph) : Prop where
  lets : (graph.lets.flatMap TypedLet.names).Nodup
  inputs : ∀ name ∈ graph.lets.flatMap TypedLet.names, name ∉ graph.inputs.map Input.name

/-- Names that are pairwise distinct are not rebound. -/
theorem TypedGraph.noRebinding_of_nodup {graph : TypedGraph}
    (h : graph.boundNames.Nodup) : graph.NoRebinding := by
  obtain ⟨-, hlets, hdisjoint⟩ := List.nodup_append.mp h
  exact ⟨hlets, fun name hlet hinput => hdisjoint name hinput name hlet rfl⟩

/-- Input and output types for resolving graph calls. -/
structure GraphSignature where
  inputs : List TensorType
  outputs : List TensorType
  deriving DecidableEq

end Knok
