import Knok.Ast
import Knok.Ops
import Knok.StaticCreation
import Knok.Control.Checked
import Knok.Control.Stateful
import Knok.Semantics
import Knok.TypeCheck
import Knok.Words
import Knok.CacheKey
import Knok.Fresh
import Knok.Normalize
import Knok.Lowering
import Knok.Inlining
import Knok.Typing
import Knok.Sharing
import Knok.Random
import Knok.Arrays.Index
import Knok.Arrays.Gather
import Knok.Arrays.Broadcast
import Knok.Arrays.Layout
import Knok.Arrays.Contraction
import Knok.Arrays.Convolution
import Knok.Arrays.Promotion
import Knok.TypedSemantics
import Knok.Broadcast
import Knok.BroadcastRule
import Knok.MatmulRule
import Knok.Movement
import Knok.MovementRule
import Knok.ConvRule
import Knok.Exact
import Knok.Evaluates
import Knok.Autograd.Builder
import Knok.Autograd.Flatten
import Knok.Autograd.Reverse
import Knok.Autograd.ValueAndGrad
import Knok.Autograd.Naming
import Knok.Autograd.Denotation
import Knok.Autograd.Unbroadcast
import Knok.Autograd.Adjoint.Movement
import Knok.Autograd.Adjoint.MovementRules
import Knok.Autograd.Adjoint.MovementSizes
import Knok.Autograd.Adjoint.Unbroadcast
import Knok.Autograd.Adjoint.Matmul
import Knok.Lowering.Value
import Knok.Lowering.Shape
import Knok.Lowering.Dialect
import Knok.Lowering.Broadcast
import Knok.Lowering.Generic
import Knok.Lowering.Matmul
import Knok.Lowering.TensorOps
import Knok.Lowering.Pieces
import Knok.Lowering.Movement
import Knok.Lowering.Conv
import Knok.Autograd.Adjoint.Conv
import Knok.Arrays.Indexing
import Knok.IndexRule
import Knok.Numbers
import Knok.Literals
import Knok.NumberRules
import Knok.Autograd.Adjoint.Indexing
import Knok.Autograd.Adjoint.Selection
import Knok.Arrays.Reduction
import Knok.Arrays.Softmax
import Knok.ReductionRule
import Knok.Autograd.Adjoint.Reduction
import Knok.Autograd.Adjoint.Softmax
import Knok.Arrays.Products
import Knok.ProductRule
import Knok.Autograd.Adjoint.Product
import Knok.StaticIntegers
import Knok.RandomInt
import Knok.StaticArguments
import Knok.Arrays.Nested
import Knok.Tensor
import Knok.TensorSerde
import Knok.Autograd.StaticArguments
import Knok.PartialJoin
import Knok.BroadcastJoin
import Knok.Unsqueeze
import Knok.NestedLiteral
import Knok.Lowering.Elementwise
import Knok.Lowering.Reductions
import Knok.NumberFormat
import Knok.Arrays.Extreme
import Knok.Lowering.ArgExtreme
import Knok.Lowering.Linalg
import Knok.Lowering.Gather
import Knok.Lowering.Softmax
import Knok.Lowering.Reassociation
import Knok.Lowering.DenseLiteral
import Knok.Lowering.ShapeArithmetic
import Knok.NodeClashes
import Knok.ExactSemantics
import Knok.Marks
import Knok.Autograd.ForwardNodes
import Knok.Autograd.Adjoint.Ring
import Knok.Autograd.Sweep
import Knok.Autograd.Soundness
import Knok.Autograd.Stops
import Knok.Tracing
import Knok.Control.Machine
import Knok.CacheProtocol
import Knok.TypeSoundness
import Knok.Artifacts
import Knok.Runtime
import Knok.Codegen
import Knok.CompilerFlags
import Knok.Emission
import Knok.Arrays.Pooling
import Knok.Autograd.Adjoint.Pool
import Knok.Autograd.Adjoint.Extreme
import Knok.Lowering.Pool
