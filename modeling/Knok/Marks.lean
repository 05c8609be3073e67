import Mathlib
import Knok.MovementRule
import Knok.TypedSemantics

/-!
# Marks

A value is marked when it and everything it is computed from satisfies a condition
on the operations and the types they are applied to.  Marks are a typed semantics
(`marks`): evaluating a graph with marked arguments tells whether the condition
holds of all that its outputs depend on, through lets and calls.

The condition used here is that of exact ring arithmetic (`RingExact`): the operation
is one of a ring (`ringOp`), and the sizes that its type rule compares modulo `2^64`
agree as numbers (`exactSizes`).
-/

namespace Knok

open Arrays Control

universe u

/-! ## The semantics of marks -/

section Marks

variable (okBinary : BinaryOp → Bool) (ok : CallOp → List TensorType → Bool)

/-- The results of an operation, marked if the operands are and the condition holds. -/
def markedCall (op : CallOp) (vs : List (TensorType × Bool)) :
    Option (List (TensorType × Bool)) :=
  (inferCallResults op (vs.map Prod.fst)).toOption.map fun tys =>
    tys.map fun ty => (ty, ok op (vs.map Prod.fst) && vs.all Prod.snd)

/-- The results of an operation; those of a split are marked like the slices that
they are. -/
def markedResults (op : CallOp) (vs : List (TensorType × Bool)) :
    Option (List (TensorType × Bool)) :=
  match op with
  | .split axis sections => do
      let tys ← (inferCallResults (.split axis sections) (vs.map Prod.fst)).toOption
      let v ← single vs
      return (splitSlices (markedCall ok) axis v.1.rank v 0 tys).getD
        (tys.map fun ty => (ty, false))
  | op => markedCall ok op vs

variable {ok}

theorem markedResults_of_ne_split {op : CallOp} (h : ∀ axis sections, op ≠ .split axis sections) :
    markedResults ok op = markedCall ok op := by
  funext vs
  cases op with
  | split axis sections => exact absurd rfl (h axis sections)
  | _ => rfl

theorem splitSlices_markedResults {axis rank : ℕ} {v : TensorType × Bool} {tys : List TensorType} :
    ∀ offset, splitSlices (markedResults ok) axis rank v offset tys =
      splitSlices (markedCall ok) axis rank v offset tys := by
  induction tys with
  | nil => exact fun _ => rfl
  | cons ty tys ih =>
      intro offset
      rw [splitSlices, splitSlices, ih]
      rfl

/-- Marked slices have the types of the sections. -/
theorem splitSlices_marked_types {axis rank : ℕ} {v : TensorType × Bool} {tys : List TensorType} :
    ∀ {offset : ℕ} {ws : List (TensorType × Bool)},
      splitSlices (markedCall ok) axis rank v offset tys = some ws → ws.map Prod.fst = tys := by
  induction tys with
  | nil =>
      intro offset ws h
      cases Option.some.inj h
      rfl
  | cons ty tys ih =>
      intro offset ws h
      simp only [splitSlices, Option.bind_eq_bind, Option.bind_eq_some_iff] at h
      obtain ⟨w, ⟨results, hresults, hsingle⟩, ws', hrest, hcons⟩ := h
      cases hcons
      obtain rfl := single_eq_some_iff.mp hsingle
      obtain ⟨tys', htys', hmap⟩ := Option.map_eq_some_iff.mp hresults
      obtain rfl := inferCallResults_slice (except_toOption_eq_some_iff.mp htys')
      cases hmap
      rw [List.map_cons, ih hrest]

variable (ok)

/-- Marks as a typed semantics. -/
def marks : TypedSemantics (TensorType × Bool) where
  const _ elem := some (⟨elem, []⟩, true)
  unary _ v := some v
  binary op l r := (binaryResultType l.1 r.1).toOption.map fun ty =>
    (ty, okBinary op && l.2 && r.2)
  call := markedResults ok
  typeOf := Prod.fst
  const_typed _ _ := ⟨_, rfl, rfl⟩
  unary_typed _ v _ := ⟨v, rfl, rfl⟩
  binary_typed op l r ty h := ⟨(ty, okBinary op && l.2 && r.2), by rw [h]; rfl, rfl⟩
  call_typed op vs tys h := by
    by_cases hsplit : ∃ axis sections, op = .split axis sections
    · obtain ⟨axis, sections, rfl⟩ := hsplit
      have hone := h
      simp only [inferCallResults, except_bind_eq_ok_iff, expectUnary_eq_ok_iff] at hone
      obtain ⟨ty, hvs, -⟩ := hone
      obtain ⟨v, rfl, -⟩ := List.map_eq_singleton_iff.mp hvs
      refine ⟨(splitSlices (markedCall ok) axis v.1.rank v 0 tys).getD
        (tys.map fun ty => (ty, false)), ?_, ?_⟩
      · rw [markedResults, h]
        rfl
      · cases hslices : splitSlices (markedCall ok) axis v.1.rank v 0 tys with
        | none =>
            rw [Option.getD_none, List.map_map]
            exact List.map_id tys
        | some ws => exact splitSlices_marked_types hslices
    · refine ⟨tys.map fun ty => (ty, ok op (vs.map Prod.fst) && vs.all Prod.snd), ?_, ?_⟩
      · rw [markedResults_of_ne_split fun axis sections heq => hsplit ⟨axis, sections, heq⟩,
          markedCall, h]
        rfl
      · rw [List.map_map]
        exact List.map_id tys
  split_slices axis sections v tys ws h hslices := by
    rw [splitSlices_markedResults] at hslices
    rw [markedResults, List.map_singleton, h]
    show some ((splitSlices (markedCall ok) axis v.1.rank v 0 tys).getD _) = some ws
    rw [hslices]
    rfl

end Marks

/-! ## The conditions -/

/-- The operations of ring arithmetic. -/
def ringOp : CallOp → Bool
  | .square | .sum _ | .reshape _ | .squeeze _ | .unsqueeze _ | .broadcast _ | .detach
  | .zerosLike | .onesLike | .split .. | .slice .. | .graph _ => true
  | _ => false

/-- The operators of ring arithmetic. -/
def ringBinary : BinaryOp → Bool
  | .div => false
  | _ => true

/-- The type rule computes the sizes that the operation has: a reshape keeps the
number of elements, and a slice lies in its operand. -/
def exactSizes (op : CallOp) (tys : List TensorType) : Bool :=
  match op with
  | .reshape target => (headType tys).shape.prod = target.shape.prod
  | .slice target starts =>
      WindowFits starts target.shape (headType tys).shape ∧ UsizeDims (headType tys).shape
  | _ => true

/-- Marks for ring arithmetic in which no size wraps. -/
abbrev ringMarks : TypedSemantics (TensorType × Bool) :=
  marks ringBinary fun op tys => ringOp op && exactSizes op tys

/-- The arguments of a graph, marked. -/
def markedInputs (graph : TypedGraph) : List (TensorType × Bool) :=
  graph.inputs.map fun input => (input.ty, true)

/-- **Exact ring arithmetic** is all that the outputs of a graph depend on, through
lets and calls: every reshape keeps the number of elements, and every slice and
section of a split lies in its operand, as numbers and not only modulo `2^64`. -/
def RingExact (graph : TypedGraph) (graphs : Registry) : Prop :=
  ∃ tys : List TensorType, evalGraph ringMarks.interp
    (callsAt ringMarks.interp graphs graphs.length) graph (markedInputs graph) =
      some (tys.map fun ty => (ty, true))

/-! ## Sizes alone -/

/-- An operation of ring arithmetic, or no operation. -/
def ringExpr : Expr → Bool
  | .binary op _ _ => ringBinary op
  | .call op _ => ringOp op
  | _ => true

/-- All operations of a graph are those of ring arithmetic. -/
def TypedGraph.RingOps (graph : TypedGraph) : Prop :=
  ∀ e ∈ graph.exprs, ∀ s ∈ e.subexprs, ringExpr s = true

instance (graph : TypedGraph) : Decidable graph.RingOps :=
  inferInstanceAs (Decidable (∀ e ∈ graph.exprs, ∀ s ∈ e.subexprs, ringExpr s = true))

/-- Marks for sizes that do not wrap, whatever the operations. -/
abbrev sizeMarks : TypedSemantics (TensorType × Bool) := marks (fun _ => true) exactSizes

/-- **Exact sizes** in all that the outputs of a graph depend on: every reshape keeps
the number of elements, and every slice and section of a split lies in its operand,
as numbers and not only modulo `2^64`. -/
def SizesExact (graph : TypedGraph) (graphs : Registry) : Prop :=
  ∃ tys : List TensorType, evalGraph sizeMarks.interp
    (callsAt sizeMarks.interp graphs graphs.length) graph (markedInputs graph) =
      some (tys.map fun ty => (ty, true))

theorem splitSlices_congr {V : Type*} {call call' : CallOp → List V → Option (List V)}
    (h : ∀ target starts, call (.slice target starts) = call' (.slice target starts))
    {axis rank : ℕ} {v : V} {tys : List TensorType} :
    ∀ offset, splitSlices call axis rank v offset tys =
      splitSlices call' axis rank v offset tys := by
  induction tys with
  | nil => exact fun _ => rfl
  | cons ty tys ih => exact fun offset => by rw [splitSlices, splitSlices, h, ih]

/-- The results of a ring operation are marked by its sizes. -/
theorem markedResults_of_ringOp {op : CallOp} (h : ringOp op = true) :
    markedResults (fun op tys => ringOp op && exactSizes op tys) op =
      markedResults exactSizes op := by
  have hcall : ∀ op : CallOp, ringOp op = true →
      markedCall (fun op tys => ringOp op && exactSizes op tys) op = markedCall exactSizes op := by
    intro op hop
    funext vs
    simp only [markedCall, hop, Bool.true_and]
  funext vs
  cases op with
  | split axis sections =>
      have hslices := @splitSlices_congr _ _ _ fun target starts =>
        hcall (.slice target starts) rfl
      simp only [markedResults, hslices]
  | _ => exact congrFun (hcall _ h) vs

theorem evalOutputs_ringMarks {calls : Calls (TensorType × Bool)} {env : Env (TensorType × Bool)}
    {e : Expr} (h : ∀ s ∈ e.subexprs, ringExpr s = true) :
    evalOutputs ringMarks.interp calls env e = evalOutputs sizeMarks.interp calls env e := by
  refine @evalOutputs_congr_interp _ ringMarks.interp sizeMarks.interp calls env rfl rfl e
    (fun op lhs rhs hop => ?_) fun op args hop => ?_
  · have hring : ringBinary op = true := h _ hop
    funext l r
    show Option.map _ _ = Option.map _ _
    rw [hring]
  · funext args vs
    exact congrArg vs.bind (markedResults_of_ringOp (h _ hop))

/-- **Ring operations with exact sizes** are exact ring arithmetic. -/
theorem ringExact_of_sizesExact {graph : TypedGraph} {graphs : Registry}
    (hops : graph.RingOps)
    (hgraphs : ∀ name callee, graphs.get name = some callee → callee.RingOps)
    (h : SizesExact graph graphs) : RingExact graph graphs := by
  obtain ⟨tys, htys⟩ := h
  have hcalls := @callsAt_congr _ ringMarks.interp sizeMarks.interp graphs
    (fun name callee hget e he _ _ => evalOutputs_ringMarks (hgraphs name callee hget e he))
    graphs.length
  refine ⟨tys, ?_⟩
  rw [hcalls, evalGraph_congr (fun e he env => evalOutputs_ringMarks (hops e he))]
  exact htys

end Knok
