import Mathlib
import Knok.ExactSemantics
import Knok.Sharing

/-!
# Accepted graphs do not go wrong

A registry is built graph by graph: each one is type-checked with the signatures
of those before it.  A graph that is accepted then has outputs on all arguments of
its input types, and they have its output types, whatever the primitive operations
compute (`evalGraph_typed`).  In particular every graph call that is reached is
resolved, within as many nested calls as there are graphs.
-/

namespace Knok

open Control

universe u

variable {V : Type u}

/-- The signature that other graphs are checked with. -/
def TypedGraph.signature (graph : TypedGraph) : GraphSignature :=
  ⟨graph.inputs.map Input.ty, graph.outputs⟩

def Registry.signatures (graphs : Registry) : List (String × GraphSignature) :=
  graphs.map fun entry => (entry.1, entry.2.signature)

/-- Each graph was accepted when the graphs before it were known, and has a new name. -/
inductive Registry.Built : Registry → Prop where
  | nil : Built []
  | snoc {graphs : Registry} {source : Graph} {graph : TypedGraph} (hbuilt : Built graphs)
      (hnew : graphs.get source.name = none) (hcheck : typeCheck source graphs.signatures = .ok graph)
      (hnames : graph.NoRebinding) : Built (graphs ++ [(source.name, graph)])

/-- What a resolved call knows. -/
theorem TypeChecker.calls_eq_some {checker : TypeChecker} {name : String}
    {tys outputs : List TensorType} (h : checker.calls name tys = some outputs) :
    ∃ signature, checker.signature name = some signature ∧ tys = signature.inputs ∧
      outputs = signature.outputs := by
  obtain ⟨signature, hresolve, htys⟩ := Option.bind_eq_some_iff.mp h
  obtain ⟨-, hsignature, -⟩ := resolve_eq_ok_iff.mp (except_toOption_eq_some_iff.mp hresolve)
  split at htys
  · next hinputs => exact ⟨signature, hsignature, hinputs, (Option.some.inj htys).symm⟩
  · cases htys

/-- Calls that are resolved stay resolved when graphs are added. -/
theorem callsAt_append {I : Interp V} (hstrict : I.Strict) (graphs more : Registry) (depth : ℕ) :
    ∀ name args vs, callsAt I graphs depth name args = some vs →
      callsAt I (graphs ++ more) depth name args = some vs := by
  induction depth with
  | zero =>
      intro name args vs h
      cases h
  | succ depth ih =>
      intro name args vs h
      obtain ⟨graph, hget, hgraph⟩ := Option.bind_eq_some_iff.mp h
      refine Option.bind_eq_some_iff.mpr ⟨graph, ?_, evalGraph_mono_calls hstrict ih hgraph⟩
      rw [Registry.get] at hget ⊢
      rw [List.lookup_append, hget]
      rfl

/-- The signature of a name is that of the graph that is registered under it. -/
theorem signature_snoc {graphs : Registry} {name current other : String} {graph : TypedGraph} :
    TypeChecker.signature ⟨Registry.signatures (graphs ++ [(name, graph)]), current⟩ other =
      if other = name then some graph.signature
      else TypeChecker.signature ⟨graphs.signatures, current⟩ other := by
  rw [TypeChecker.signature, Registry.signatures, List.map_append, List.reverse_append]
  show List.lookup other ((name, graph.signature) :: _) = _
  rw [List.lookup_cons]
  split_ifs with h
  · subst h
    simp
  · rw [beq_eq_false_iff_ne.mpr h]
    rfl

/-- Every call that a built registry types has a value. -/
theorem Registry.Built.callsTyped {graphs : Registry} (h : graphs.Built) (S : TypedSemantics V) :
    ∀ current, S.CallsTyped (TypeChecker.calls ⟨graphs.signatures, current⟩)
      (callsAt S.interp graphs graphs.length) := by
  induction h with
  | nil =>
      intro current name vs tys h
      obtain ⟨signature, hsignature, -⟩ := TypeChecker.calls_eq_some h
      cases hsignature
  | @snoc graphs source graph hbuilt hnew hcheck hnames ih =>
      intro current name vs tys h
      obtain ⟨signature, hsignature, hinputs, rfl⟩ := TypeChecker.calls_eq_some h
      rw [signature_snoc] at hsignature
      rw [List.length_append, List.length_singleton]
      split_ifs at hsignature with hname
      · -- the graph itself, which calls those before it
        subst hname
        cases hsignature
        obtain ⟨ws, hws, htys⟩ := TypedSemantics.exists_evalGraph (ih source.name)
          (wellTyped_of_typeCheck hcheck hnames) hinputs
        refine ⟨ws, ?_, htys⟩
        have hget : Registry.get (graphs ++ [(source.name, graph)]) source.name = some graph := by
          rw [Registry.get] at hnew ⊢
          rw [List.lookup_append, hnew, List.lookup_cons_self]
          rfl
        refine Option.bind_eq_some_iff.mpr ⟨graph, hget, ?_⟩
        exact evalGraph_mono_calls S.strict (callsAt_append S.strict graphs _ _) hws
      · -- a graph before it; its own name is never resolved
        have hcall : TypeChecker.calls ⟨graphs.signatures, source.name⟩ name (vs.map S.typeOf) =
            some signature.outputs := by
          have hresolve : TypeChecker.resolve ⟨graphs.signatures, source.name⟩ name
              (vs.map S.typeOf).length = .ok signature :=
            resolve_eq_ok_iff.mpr ⟨hname, hsignature, by rw [hinputs]⟩
          simp only [TypeChecker.calls, hresolve, Option.bind_eq_bind]
          exact if_pos hinputs
        obtain ⟨ws, hws, htys⟩ := ih source.name name vs _ hcall
        refine ⟨ws, callsAt_mono S.strict _ (Nat.le_succ _) name vs ws ?_, htys⟩
        exact callsAt_append S.strict graphs _ _ name vs ws hws

/-- **Accepted graphs do not go wrong.** -/
theorem evalGraph_typed {graphs : Registry} (h : graphs.Built) {source : Graph}
    {graph : TypedGraph} (hcheck : typeCheck source graphs.signatures = .ok graph)
    (hnames : graph.NoRebinding) (S : TypedSemantics V) {args : List V}
    (hargs : args.map S.typeOf = graph.inputs.map Input.ty) {depth : ℕ}
    (hdepth : graphs.length ≤ depth) :
    ∃ vs, evalGraph S.interp (callsAt S.interp graphs depth) graph args = some vs ∧
      vs.map S.typeOf = graph.outputs := by
  obtain ⟨vs, hvs, htys⟩ := TypedSemantics.exists_evalGraph (h.callsTyped S source.name)
    (wellTyped_of_typeCheck hcheck hnames) hargs
  exact ⟨vs, evalGraph_mono_calls S.strict (callsAt_mono S.strict graphs hdepth) hvs, htys⟩

theorem built_double : Registry.Built [("double", doubleGraph)] :=
  .snoc .nil rfl (rfl : typeCheck doubleGraph.source [] = .ok doubleGraph)
    ⟨by decide, by decide⟩

/-- Integers, without literals. -/
def literalFree : Arithmetic ℤ := ⟨fun _ _ => 0, fun _ _ _ => 0, fun _ _ _ _ => 0⟩

theorem evalGraph_typed_callerGraph : ∃ vs, evalGraph literalFree.semantics.interp
    (callsAt literalFree.semantics.interp [("double", doubleGraph)] 1) callerGraph
      [⟨⟨.f32, []⟩, fun _ => 3⟩] = some vs ∧ vs.map Tensor.ty = [⟨.f32, []⟩] :=
  evalGraph_typed built_double
    (rfl : typeCheck callerGraph.source (Registry.signatures [("double", doubleGraph)]) =
      .ok callerGraph) ⟨by decide, by decide⟩ literalFree.semantics rfl le_rfl

end Knok
