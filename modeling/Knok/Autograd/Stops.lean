import Mathlib
import Knok.MovementRule
import Knok.Autograd.Soundness

/-!
# No gradient leaks through a stop

A reverse rule sends gradients to some operands only (`targets_reverseCall`): never to
a condition, an index or the operand that a fill takes its shape from, and to none at
all where the gradient stops.  `dependence` evaluates a graph to the inputs that its
values depend on along such operands, through lets and calls.  During the sweep,
whatever has a pending gradient depends on no more than the loss does
(`PendingWithin.reverseNodes`), so an input that the loss does not depend on gets zeros
(`gradient_of_not_reachesLoss`).
-/

namespace Knok.Autograd

open Control

/-! ## Operands that gradients pass to -/

/-- The operands that a gradient can pass to.  A condition and an index are not
among them, nor is the operand that a fill takes its shape from. -/
def differentiableArgs {α : Type*} (op : CallOp) (args : List α) : List α :=
  match op with
  | .where_ | .fullLike => args.drop 1
  | .gather _ _ | .takeAlongAxis _ => args.take 1
  | _ => args

/-- The positions of the operands that a rule sends gradients to. -/
def targetPositions : CallOp → List ℕ
  | .where_ => [1, 2]
  | .fullLike => [1]
  | .clip => [0, 1, 2]
  | .pow | .minimum | .maximum | .matmul | .dot | .vecdot _ | .inner | .outer | .concat _
  | .stack _ | .conv2d _ => [0, 1]
  | _ => [0]

/-- All contributions go to operands at the positions. -/
def Targets (args : List Expr) (positions : List ℕ) (x : Contributions) : Prop :=
  ∀ cs, x = .ok cs → ∀ c ∈ cs, ∃ k ∈ positions, c.1 = argAt args k

namespace Targets

variable {args : List Expr} {positions : List ℕ}

theorem of_ok {cs : List (Expr × Expr)} (h : ∀ c ∈ cs, ∃ k ∈ positions, c.1 = argAt args k) :
    Targets args positions (.ok cs) := by
  intro cs' heq
  cases heq
  exact h

theorem of_one {k : ℕ} {grad : Expr} (hk : k ∈ positions) :
    Targets args positions (.ok [(argAt args k, grad)]) :=
  of_ok fun _ hc => ⟨k, hk, by rw [List.mem_singleton.mp hc]⟩

theorem of_two {k l : ℕ} {grad grad' : Expr} (hk : k ∈ positions) (hl : l ∈ positions) :
    Targets args positions (.ok [(argAt args k, grad), (argAt args l, grad')]) := by
  refine of_ok fun c hc => ?_
  rcases List.mem_pair.mp hc with rfl | rfl
  · exact ⟨k, hk, rfl⟩
  · exact ⟨l, hl, rfl⟩

theorem of_error {e : Error} : Targets args positions (.error e) :=
  fun _ heq => by cases heq

theorem bind {α : Type} {x : Except Error α} {f : α → Contributions}
    (h : ∀ a, x = .ok a → Targets args positions (f a)) : Targets args positions (x >>= f) := by
  intro cs heq
  obtain ⟨a, ha, hf⟩ := except_bind_eq_ok_iff.mp heq
  exact h a ha cs hf

end Targets

variable {env : String → Option TensorType}

theorem eq_or_eq_of_binaryContributions {lhs rhs : Expr} {outputTy : TensorType}
    {lhsGrad rhsGrad : Expr} {cs : List (Expr × Expr)}
    (h : binaryContributions env lhs rhs outputTy lhsGrad rhsGrad = .ok cs) {c : Expr × Expr}
    (hc : c ∈ cs) : c.1 = lhs ∨ c.1 = rhs := by
  simp only [binaryContributions, except_bind_eq_ok_iff, except_pure_eq_ok_iff] at h
  obtain ⟨_, -, _, -, _, -, _, -, rfl⟩ := h
  rcases List.mem_pair.mp hc with rfl | rfl
  · exact .inl rfl
  · exact .inr rfl

theorem targets_binaryContributions {args : List Expr} {positions : List ℕ} {k l : ℕ}
    {outputTy : TensorType} {lhsGrad rhsGrad : Expr} (hk : k ∈ positions) (hl : l ∈ positions) :
    Targets args positions
      (binaryContributions env (argAt args k) (argAt args l) outputTy lhsGrad rhsGrad) := by
  intro cs h c hc
  rcases eq_or_eq_of_binaryContributions h hc with heq | heq
  · exact ⟨k, hk, heq⟩
  · exact ⟨l, hl, heq⟩

/-- A rule that reads the type of an operand. -/
theorem Targets.of_typed {args : List Expr} {positions : List ℕ} {e : Expr} {k : ℕ}
    {grad : TensorType → Expr} (hk : k ∈ positions) :
    Targets args positions (do
      let ty ← exprTy env e
      return [(argAt args k, grad ty)]) :=
  Targets.bind fun _ _ => Targets.of_one hk

theorem targets_reverseMatmul {args : List Expr} {outputTy : TensorType} {grad : Expr} :
    Targets args [0, 1] (reverseMatmul env args outputTy grad) := by
  unfold reverseMatmul
  iterate 13 refine Targets.bind fun _ _ => ?_
  exact Targets.of_two (by simp) (by simp)

theorem targets_reverseInner {args : List Expr} {outputTy : TensorType} {grad : Expr} :
    Targets args [0, 1] (reverseInner env args outputTy grad) := by
  unfold reverseInner
  refine Targets.bind fun lhsTy _ => Targets.bind fun rhsTy _ => ?_
  split_ifs
  · exact Targets.bind fun _ _ => Targets.bind fun _ _ => Targets.of_two (by simp) (by simp)
  · exact Targets.of_two (by simp) (by simp)

theorem targets_reverseTile {args : List Expr} {outputTy : TensorType} {multiples : List ℕ}
    {grad : Expr} : Targets args [0] (reverseTile env args outputTy multiples grad) := by
  unfold reverseTile
  refine Targets.bind fun inputTy _ => ?_
  split_ifs
  · exact Targets.of_one (by simp)
  · exact Targets.bind fun _ _ => Targets.of_one (by simp)

theorem targets_reverseRepeat {args : List Expr} {axis count : ℕ} {grad : Expr} :
    Targets args [0] (reverseRepeat env args axis count grad) := by
  unfold reverseRepeat
  refine Targets.bind fun inputTy _ => ?_
  split_ifs with hempty hone
  · exact Targets.of_one (by simp)
  · exact Targets.of_one (by simp)
  · dsimp only
    split_ifs
    · exact Targets.of_error
    · exact Targets.of_one (by simp)

theorem targets_reverseTakeAlongAxis {args : List Expr} {outputTy : TensorType} {axis : ℕ}
    {grad : Expr} : Targets args [0] (reverseTakeAlongAxis env args outputTy axis grad) := by
  unfold reverseTakeAlongAxis
  refine Targets.bind fun inputTy _ => Targets.bind fun indicesTy _ => ?_
  split
  · exact Targets.of_one (by simp)
  · exact Targets.bind fun _ _ => Targets.of_one (by simp)

/-- A reduction of a scalar over all axes has no gradient. -/
theorem Targets.of_guarded {args : List Expr} {positions : List ℕ} {p : Prop} [Decidable p]
    {x : Contributions} (h : Targets args positions x) :
    Targets args positions (if p then .ok [] else x) := by
  split_ifs
  · exact Targets.of_ok fun c hc => absurd hc List.not_mem_nil
  · exact h

/-- **A rule sends gradients to the operands at its positions.** -/
theorem targets_reverseCall (node : Node) (op : CallOp) (args : List Expr) (grad : Expr) :
    Targets args (targetPositions op) (reverseCall env node op args grad) := by
  unfold reverseCall
  dsimp only
  split_ifs with hstops
  · exact Targets.of_ok fun c hc => absurd hc List.not_mem_nil
  cases op with
  | abs | exp | exp2 | expM1 | log | log1P | log2 | log10 | sin | cos | tan | tanh | relu
  | sigmoid | square | reciprocal | sqrt | swapAxes _ _ | moveAxis _ _ | permuteDims _
  | permute _ _ | flip _ => exact Targets.of_one (List.mem_singleton_self 0)
  | sum _ | mean _ | prod _ | max _ | min _ | reshape _ | squeeze _ | unsqueeze _ | pad _ _
  | slice _ _ | take _ _ | roll _ _ | transpose _ | maxPool2d _ =>
      exact Targets.of_typed (List.mem_singleton_self 0)
  | var _ | std _ | ptp _ =>
      exact Targets.bind fun _ _ => Targets.of_guarded (Targets.of_one (List.mem_singleton_self 0))
  | softmax _ | broadcast _ | avgPool2d _ =>
      exact Targets.bind fun _ _ => Targets.bind fun _ _ =>
        Targets.of_one (List.mem_singleton_self 0)
  | trace _ | diagonal _ =>
      exact Targets.bind fun _ _ => Targets.bind fun _ _ =>
        Targets.of_one (List.mem_singleton_self 0)
  | gather _ _ =>
      exact Targets.bind fun _ _ => Targets.bind fun _ _ => Targets.bind fun _ _ =>
        Targets.of_one (List.mem_singleton_self 0)
  | fullLike =>
      exact Targets.bind fun _ _ => Targets.bind fun _ _ =>
        Targets.of_one (List.mem_singleton_self 1)
  | tile _ => exact targets_reverseTile
  | repeat_ _ _ => exact targets_reverseRepeat
  | takeAlongAxis _ => exact targets_reverseTakeAlongAxis
  | matmul => exact targets_reverseMatmul
  | inner => exact targets_reverseInner
  | dot | stack _ => exact Targets.of_two (by simp [targetPositions]) (by simp [targetPositions])
  | vecdot _ =>
      exact Targets.bind fun _ _ =>
        Targets.of_two (by simp [targetPositions]) (by simp [targetPositions])
  | outer | concat _ | conv2d _ =>
      exact Targets.bind fun _ _ => Targets.bind fun _ _ =>
        Targets.of_two (by simp [targetPositions]) (by simp [targetPositions])
  | pow =>
      exact Targets.bind fun _ _ => Targets.bind fun _ _ => Targets.bind fun _ _ =>
        Targets.bind fun _ _ =>
          Targets.of_two (by simp [targetPositions]) (by simp [targetPositions])
  | minimum | maximum =>
      exact targets_binaryContributions (by simp [targetPositions]) (by simp [targetPositions])
  | where_ =>
      exact targets_binaryContributions (by simp [targetPositions]) (by simp [targetPositions])
  | clip =>
      iterate 6 refine Targets.bind fun _ _ => ?_
      refine Targets.of_ok fun c hc => ?_
      simp only [List.mem_cons, List.not_mem_nil, or_false] at hc
      rcases hc with rfl | rfl | rfl
      · exact ⟨0, by simp [targetPositions], rfl⟩
      · exact ⟨1, by simp [targetPositions], rfl⟩
      · exact ⟨2, by simp [targetPositions], rfl⟩
  | _ => exact Targets.of_error

/-- The type rules ask for the operands at these positions. -/
theorem lt_length_of_targetPositions {op : CallOp} {ty : TensorType} {tys results : List TensorType}
    (hstops : callStopsGradient op ty = false) (h : inferCallResults op tys = .ok results) :
    ∀ k ∈ targetPositions op, k < tys.length := by
  cases op with
  | graph name => cases h
  | arange _ | linspace _ | eye _ | staticRandomUniform _ _ | staticRandomInt _ _
  | randomUniform _ | randomInt _ => simp [callStopsGradient] at hstops
  | clip | where_ =>
      obtain ⟨triple, htys, -⟩ := except_bind_eq_ok_iff.mp h
      obtain rfl := expectTernary_eq_ok_iff.mp htys
      simp [targetPositions]
  | greater | greaterEqual | less | lessEqual | equal | notEqual | gather _ _ | fullLike
  | logicalAnd | logicalOr | logicalXor | minimum | maximum | pow | concat _ | stack _
  | takeAlongAxis _ | matmul | conv2d _ | dot | inner | outer | vecdot _ =>
      obtain ⟨pair, htys, -⟩ := except_bind_eq_ok_iff.mp h
      obtain rfl := expectBinary_eq_ok_iff.mp htys
      simp [targetPositions]
  | _ =>
      obtain ⟨ty, htys, -⟩ := except_bind_eq_ok_iff.mp h
      obtain rfl := expectUnary_eq_ok_iff.mp htys
      simp [targetPositions]

/-- The operands at these positions are differentiable. -/
theorem mem_differentiableArgs {α : Type*} {op : CallOp} {args : List α} {k : ℕ} {arg : α}
    (hk : k ∈ targetPositions op) (harg : args[k]? = some arg) :
    arg ∈ differentiableArgs op args := by
  cases op with
  | where_ =>
      simp only [targetPositions, List.mem_cons, List.not_mem_nil, or_false] at hk
      rcases hk with rfl | rfl
      · exact List.mem_of_getElem? (i := 0) (by simpa [differentiableArgs] using harg)
      · exact List.mem_of_getElem? (i := 1) (by simpa [differentiableArgs] using harg)
  | fullLike =>
      obtain rfl := List.mem_singleton.mp hk
      exact List.mem_of_getElem? (i := 0) (by simpa [differentiableArgs] using harg)
  | gather _ _ | takeAlongAxis _ =>
      obtain rfl := List.mem_singleton.mp hk
      exact List.mem_of_getElem? (i := 0) (by simpa [differentiableArgs] using harg)
  | _ => exact List.mem_of_getElem? harg

theorem eq_or_eq_of_reverseBinary {op : BinaryOp} {lhs rhs : Expr} {ty : TensorType}
    {grad : Expr} {cs : List (Expr × Expr)} (h : reverseBinary env op lhs rhs ty grad = .ok cs)
    {c : Expr × Expr} (hc : c ∈ cs) : c.1 = lhs ∨ c.1 = rhs := by
  cases op <;> exact eq_or_eq_of_binaryContributions h hc

/-! ## Dependence -/

/-- A value that is its type and the inputs it depends on differentiably. -/
abbrev Dependence := TensorType × Finset String

/-- The inputs that some of the values depend on. -/
def dependsOn (vs : List Dependence) : Finset String :=
  vs.foldr (fun v inputs => v.2 ∪ inputs) ∅

theorem subset_dependsOn {v : Dependence} {vs : List Dependence} (h : v ∈ vs) :
    v.2 ⊆ dependsOn vs := by
  induction vs with
  | nil => cases h
  | cons w vs ih =>
      rcases List.mem_cons.mp h with rfl | h
      · exact Finset.subset_union_left
      · exact (ih h).trans Finset.subset_union_right

/-- What a result of an operation depends on: nothing if the gradient stops there,
otherwise what its differentiable operands depend on. -/
def passedOn (op : CallOp) (vs : List Dependence) (ty : TensorType) : Dependence :=
  (ty, if callStopsGradient op ty then ∅ else dependsOn (differentiableArgs op vs))

/-- The results of an operation. -/
def dependentResults (op : CallOp) (vs : List Dependence) : Option (List Dependence) :=
  (inferCallResults op (vs.map Prod.fst)).toOption.map fun tys => tys.map (passedOn op vs)

/-- A slice depends on what a split of the same operand does. -/
theorem splitSlices_dependentResults {axis rank : ℕ} {sections : List ℕ} {v : Dependence}
    {tys : List TensorType} :
    ∀ {offset : ℕ} {ws : List Dependence},
      splitSlices dependentResults axis rank v offset tys = some ws →
        ws = tys.map (passedOn (.split axis sections) [v]) := by
  induction tys with
  | nil => exact fun h => (Option.some.inj h).symm
  | cons ty tys ih =>
      intro offset ws h
      simp only [splitSlices, Option.bind_eq_bind, Option.bind_eq_some_iff] at h
      obtain ⟨w, ⟨results, hresults, hsingle⟩, ws', hrest, hcons⟩ := h
      cases hcons
      obtain rfl := single_eq_some_iff.mp hsingle
      obtain ⟨tys', htys', hmap⟩ := Option.map_eq_some_iff.mp hresults
      obtain rfl := inferCallResults_slice (except_toOption_eq_some_iff.mp htys')
      obtain rfl : passedOn _ [v] ty = w := List.head_eq_of_cons_eq hmap
      rw [List.map_cons, ih hrest]
      rfl

/-- Dependence as a typed semantics.  Constants depend on nothing, arithmetic on
what its operands depend on. -/
def dependence : TypedSemantics Dependence where
  const _ elem := some (⟨elem, []⟩, ∅)
  unary _ v := some v
  binary _ l r := (binaryResultType l.1 r.1).toOption.map fun ty => (ty, l.2 ∪ r.2)
  call := dependentResults
  typeOf := Prod.fst
  const_typed _ _ := ⟨_, rfl, rfl⟩
  unary_typed _ v _ := ⟨v, rfl, rfl⟩
  binary_typed _ l r ty h := ⟨(ty, l.2 ∪ r.2), by rw [h]; rfl, rfl⟩
  call_typed op vs tys h := by
    refine ⟨tys.map (passedOn op vs), ?_, ?_⟩
    · rw [dependentResults, h]
      rfl
    · rw [List.map_map]
      exact List.map_id tys
  split_slices axis sections v tys ws h hslices := by
    rw [splitSlices_dependentResults hslices, dependentResults, List.map_singleton, h]
    rfl

/-- A float input depends on itself. -/
def inputDependence (input : Input) : Dependence :=
  (input.ty, if input.ty.elem.isFloat then {input.name} else ∅)

/-- The arguments of a graph. -/
def dependentInputs (graph : TypedGraph) : List Dependence :=
  graph.inputs.map inputDependence

/-- **An input reaches the loss**: some path from it to the loss, through lets and
calls, passes no stop. -/
def ReachesLoss (graph : TypedGraph) (graphs : Registry) (name : String) : Prop :=
  ∃ loss, evalGraph dependence.interp (callsAt dependence.interp graphs graphs.length) graph
    (dependentInputs graph) = some [loss] ∧ name ∈ loss.2

/-! ## The sweep -/

section Sweep

variable {tyEnv : String → Option TensorType} {types : Env TensorType} {env : Env Dependence}

/-- **A node passes gradients only to what it depends on.** -/
theorem subset_of_nodeContributions {node : Node} {names : List String} {inputs : Finset String}
    (hsolves : Solves dependence.interp noCalls env (names, node.expr)) (hname : node.name ∈ names)
    (hnode : env node.name = some (node.ty, inputs)) {grad : Expr} {cs : List (Expr × Expr)}
    (hok : nodeContributions tyEnv node grad = .ok cs) {c : Expr × Expr} (hc : c ∈ cs)
    {name : String} (hvar : c.1 = .var name) : ∃ v, env name = some v ∧ v.2 ⊆ inputs := by
  obtain ⟨outs, houts, hnames⟩ := hsolves
  -- the value of the node is one of the outputs of its expression
  have hout : (node.ty, inputs) ∈ outs := by
    have hmem := List.mem_map_of_mem (f := env) hname
    rw [hnames, hnode] at hmem
    obtain ⟨out, hout, heq⟩ := List.mem_map.mp hmem
    exact Option.some.inj heq ▸ hout
  obtain ⟨nodeName, e, ty⟩ := node
  dsimp only at houts hout
  cases e with
  | var other =>
      cases hok
      obtain rfl := List.mem_singleton.mp hc
      cases hvar
      obtain ⟨v, hv, hresult⟩ := Option.bind_eq_some_iff.mp houts
      cases hresult
      exact ⟨v, hv, (List.mem_singleton.mp hout) ▸ subset_rfl⟩
  | const value elem =>
      cases hok
      cases hc
  | unary op value =>
      cases op with
      | neg =>
          cases hok
          obtain rfl := List.mem_singleton.mp hc
          cases hvar
          obtain ⟨v, hv, hresult⟩ := Option.bind_eq_some_iff.mp houts
          cases hresult
          rw [← evalTensor, evalTensor_var] at hv
          exact ⟨v, hv, (List.mem_singleton.mp hout) ▸ subset_rfl⟩
  | binary op lhs rhs =>
      obtain ⟨l, hl, hrest⟩ := Option.bind_eq_some_iff.mp houts
      obtain ⟨r, hr, hrest⟩ := Option.bind_eq_some_iff.mp hrest
      obtain ⟨w, hw, hresult⟩ := Option.bind_eq_some_iff.mp hrest
      cases hresult
      obtain ⟨ty', -, rfl⟩ := Option.map_eq_some_iff.mp hw
      have hinputs : inputs = l.2 ∪ r.2 := (Prod.mk.inj (List.mem_singleton.mp hout)).2
      rcases eq_or_eq_of_reverseBinary hok hc with hlhs | hrhs
      · rw [← evalTensor, ← hlhs, hvar, evalTensor_var] at hl
        exact ⟨l, hl, hinputs ▸ Finset.subset_union_left⟩
      · rw [← evalTensor, ← hrhs, hvar, evalTensor_var] at hr
        exact ⟨r, hr, hinputs ▸ Finset.subset_union_right⟩
  | node nodeId value => cases hok
  | tupleGet tupleId value index => cases hok
  | call op args =>
      have hstops : callStopsGradient op ty = false := by
        by_contra hstops
        rw [Bool.not_eq_false] at hstops
        simp only [nodeContributions, reverseCall, hstops, if_true] at hok
        cases hok
        cases hc
      rcases op.eq_graph_or with ⟨callee, rfl⟩ | hop
      · rw [evalOutputs_graph] at houts
        obtain ⟨_, -, hcall⟩ := Option.bind_eq_some_iff.mp houts
        cases hcall
      rw [evalOutputs_call _ _ _ hop] at houts
      obtain ⟨vs, hvs, hresults⟩ := Option.bind_eq_some_iff.mp houts
      obtain ⟨tys, htys, rfl⟩ := Option.map_eq_some_iff.mp hresults
      obtain ⟨ty', -, heq⟩ := List.mem_map.mp hout
      obtain ⟨rfl, rfl⟩ := Prod.mk.inj heq
      rw [if_neg (by rw [hstops]; simp)]
      obtain ⟨k, hk, hkth⟩ := targets_reverseCall _ _ _ _ cs hok c hc
      -- the operand is an argument, and its value is passed on
      rw [evalArgs_eq_mapM] at hvs
      have hall := option_mapM_eq_some_iff.mp hvs
      have hlt := lt_length_of_targetPositions hstops (except_toOption_eq_some_iff.mp htys) k hk
      rw [List.length_map] at hlt
      have hlen := hall.length_eq
      have harg : evalTensor dependence.interp noCalls env args[k] = some vs[k] :=
        hall.get (i := k) (by omega) hlt
      have hcarg : args[k] = .var name := by
        rw [← hvar, hkth, argAt, List.getD_eq_getElem _ _ (by omega)]
      rw [hcarg, evalTensor_var] at harg
      exact ⟨vs[k], harg, subset_dependsOn
        (mem_differentiableArgs hk (List.getElem?_eq_getElem hlt))⟩

/-- What is pending is for names that depend on no more than the loss. -/
def PendingWithin (env : Env Dependence) (inputs : Finset String) (grads : Grads) : Prop :=
  ∀ name grad, grads name = some grad → ∃ v, env name = some v ∧ v.2 ⊆ inputs

variable {inputs : Finset String} {grads grads' : Grads}

theorem PendingWithin.addContributions {cs : List (Expr × Expr)} :
    ∀ {grads}, PendingWithin env inputs grads →
      (∀ c ∈ cs, ∀ name, c.1 = .var name → ∃ v, env name = some v ∧ v.2 ⊆ inputs) →
      addContributions tyEnv cs grads = .ok grads' → PendingWithin env inputs grads' := by
  induction cs with
  | nil =>
      intro grads hpending _ hok
      cases hok
      exact hpending
  | cons c cs ih =>
      intro grads hpending hcs hok
      obtain ⟨hfirst, hrest⟩ := List.forall_mem_cons.mp hcs
      obtain ⟨target, grad⟩ := c
      obtain ⟨mid, hadd, hmore⟩ := except_bind_eq_ok_iff.mp hok
      refine ih ?_ hrest hmore
      cases target with
      | var name =>
          have hupdate : ∀ e, PendingWithin env inputs (Function.update grads name (some e)) := by
            intro e other grad' h
            by_cases heq : other = name
            · exact heq ▸ hfirst name rfl
            · rw [Function.update_of_ne heq] at h
              exact hpending other grad' h
          change addGrad tyEnv name grad grads = .ok mid at hadd
          unfold addGrad at hadd
          split at hadd
          · cases hadd
          · split_ifs at hadd
            · cases hadd
              exact hupdate _
            · cases hadd
              exact hpending
      | const value elem =>
          cases hadd
          exact hpending
      | _ => cases hadd

/-- **The sweep stays within what the loss depends on.** -/
theorem PendingWithin.reverseNodes {nodes : List Node}
    (hnodes : ∀ node ∈ nodes, ∃ names deps,
      Solves dependence.interp noCalls env (names, node.expr) ∧ node.name ∈ names ∧
        env node.name = some (node.ty, deps)) :
    ∀ {grads}, PendingWithin env inputs grads →
      reverseNodes tyEnv nodes grads = .ok grads' → PendingWithin env inputs grads' := by
  induction nodes with
  | nil =>
      intro grads hpending hok
      cases hok
      exact hpending
  | cons node nodes ih =>
      intro grads hpending hok
      obtain ⟨⟨names, deps, hsolves, hname, hnode⟩, hrest⟩ := List.forall_mem_cons.mp hnodes
      unfold Autograd.reverseNodes at hok
      split at hok
      · exact ih hrest hpending hok
      · next grad hgrad =>
          obtain ⟨mid, hmid, hok⟩ := except_bind_eq_ok_iff.mp hok
          obtain ⟨cs, hcs, hadd⟩ := except_bind_eq_ok_iff.mp hmid
          obtain ⟨v, hv, hwithin⟩ := hpending _ _ hgrad
          obtain rfl := Option.some.inj (hnode.symm.trans hv)
          have hremoved : PendingWithin env inputs (Function.update grads node.name none) := by
            intro other grad' h
            by_cases heq : other = node.name
            · rw [heq, Function.update_self] at h
              cases h
            · rw [Function.update_of_ne heq] at h
              exact hpending other grad' h
          refine ih hrest (hremoved.addContributions (fun c hc name hvar => ?_) hadd) hok
          obtain ⟨w, hw, hsubset⟩ := subset_of_nodeContributions hsolves hname hnode hcs hc hvar
          exact ⟨w, hw, hsubset.trans hwithin⟩

end Sweep

/-- Every forward node has a let that holds, and the recorded type. -/
theorem solves_of_forwardNodes {graph : TypedGraph} {types : Env TensorType} {env : Env Dependence}
    {mid : Builder} (hrecords : Records (.initial graph) mid)
    (hnodup : (mid.lets.flatMap Let.names).Nodup) (henv : dependence.EnvTyped types env)
    (hext : Env.Extends mid.env types) (hhold : Hold dependence types env mid.lets) :
    ∀ node ∈ mid.forwardNodes, ∃ names deps,
      Solves dependence.interp noCalls env (names, node.expr) ∧ node.name ∈ names ∧
        env node.name = some (node.ty, deps) := by
  intro node hnode
  obtain ⟨hty, ⟨names, value⟩, hbinding, hname, rfl⟩ := hrecords.node hnodup hnode
  obtain ⟨⟨ty, deps⟩, hv, rfl⟩ := henv _ _ (hext _ _ hty)
  exact ⟨names, deps, (hhold _ hbinding).2, hname, hv⟩

/-- **No gradient leaks through a stop.**  An input that reaches the loss along no path
without a stop gets zeros of its own type as its gradient. -/
theorem gradient_of_not_reachesLoss {graph typed : TypedGraph} {graphs : Registry}
    (hgraph : Callable graph)
    (hgraphs : ∀ name callee, graphs.get name = some callee → Callable callee)
    (hinputs : (graph.inputs.map Input.name).Nodup)
    (h : valueAndGradGraphWithRegistry graph graphs = .ok typed) :
    List.Forall₂ (fun input output => ¬ ReachesLoss graph graphs input.name →
        ∃ name, output.kind = .var name ∧ ∃ binding ∈ typed.lets,
          binding.names = [name] ∧ binding.value.kind = zerosLike (.var input.name))
      (differentiableInputs graph) typed.body.tail := by
  obtain ⟨hvalid, built, s, hbuild, hcheck⟩ := valueAndGradGraph_eq_ok h
  have hargs : (dependentInputs graph).map Prod.fst = graph.inputs.map Input.ty := by
    rw [dependentInputs, List.map_map]
    rfl
  obtain ⟨types, env, -, -, henv, hhold, hexttypes, hext, -⟩ :=
    exists_finalEnv dependence hgraph.names hbuild hcheck hargs
  have hsame := sameGraph_of_typeCheck hcheck
  obtain ⟨ty, mid, pending, gradients, hflat, hsweep, hgradients, rfl⟩ := buildGraph_eq_ok hbuild
  have hrecords := records_flattenLoss graphs graphs.length graph _ _ _ hflat
  have hnodupFloat : ((differentiableInputs graph).map Input.name).Nodup :=
    hinputs.sublist ((List.filter_sublist ..).map Input.name)
  obtain ⟨hgrows, hbound⟩ := gradientOutputs_binds pending (differentiableInputs graph)
    hnodupFloat (fun _ _ => rfl) hgradients
  have hlen : graph.inputs.length = (dependentInputs graph).length := by
    rw [dependentInputs, List.length_map]
  obtain ⟨e, rest, values, loss, hbody, hvalues, hloss, hname, hextMid⟩ := flattenLoss_final
    graphs.length henv (fun name callee hget => (hgraphs name callee hget).letsScoped)
    hgraph.letsScoped hflat (hhold.of_prefix hgrows) hexttypes hlen hext
  obtain rfl := body_eq_singleton hgraph.accepted hvalid hbody
  have heval : evalGraph dependence.interp (callsAt dependence.interp graphs graphs.length) graph
      (dependentInputs graph) = some [loss] := by
    rw [evalGraph, if_pos hlen, hvalues]
    show graph.body.mapM _ = _
    rw [hbody, List.mapM_cons, hloss]
    rfl
  -- the sweep starts from the loss
  obtain ⟨hnodup, -⟩ := scoped_of_built hgraph.names hinputs hbuild hcheck hgrows
  have hseed : PendingWithin env loss.2
      (Function.update mid.grads (valueName graph) (some (.const "1.0" ty.elem))) := by
    intro name grad hgrad
    by_cases heq : name = valueName graph
    · exact ⟨loss, heq ▸ hname, subset_rfl⟩
    · rw [Function.update_of_ne heq, show mid.grads = fun _ => none from hrecords.1] at hgrad
      cases hgrad
  have hwithin : PendingWithin env loss.2 pending := by
    refine hseed.reverseNodes (fun node hnode => ?_) hsweep
    exact solves_of_forwardNodes hrecords (List.nodup_append.mp hnodup).2.1 henv hextMid
      (hhold.of_prefix hgrows) node (List.mem_reverse.mp hnode)
  -- an input that is pending is one that the loss depends on
  have hnone : ∀ input ∈ differentiableInputs graph, ¬ ReachesLoss graph graphs input.name →
      pending input.name = none := by
    intro input hinput hreaches
    by_contra hsome
    obtain ⟨grad, hgrad⟩ := Option.ne_none_iff_exists'.mp hsome
    obtain ⟨v, hv, hsubset⟩ := hwithin _ _ hgrad
    obtain ⟨hmem, hfloat⟩ := List.mem_filter.mp hinput
    obtain ⟨k, hk⟩ := List.mem_iff_getElem?.mp hmem
    have hvalue := input_of_extends hinputs hext hk
      (by rw [dependentInputs, List.getElem?_map, hk]; rfl)
    obtain rfl := Option.some.inj (hvalue.symm.trans hv)
    refine hreaches ⟨loss, heval, hsubset ?_⟩
    rw [inputDependence, if_pos hfloat]
    exact Finset.mem_singleton_self _
  have hkinds : typed.body.tail.map TypedExpr.kind = gradients := by
    rw [List.map_tail, hsame.body]
    rfl
  rw [← hkinds, List.forall₂_map_right_iff] at hbound
  refine ((List.forall₂_and_left _ _).mpr ⟨hnone, hbound⟩).imp ?_
  rintro input output ⟨hpending, name, hkind, hlet⟩ hreaches
  rw [hpending hreaches, Option.getD_none] at hlet
  have hbinding := List.mem_map_of_mem (f := Let.binding) hlet
  rw [← hsame.lets] at hbinding
  obtain ⟨binding, hmem, heq⟩ := List.mem_map.mp hbinding
  exact ⟨name, hkind, binding, hmem, (Prod.mk.inj heq).1, (Prod.mk.inj heq).2⟩

/-- The double of `x`, plus `y` behind a stop and through a condition. -/
def stoppedGraph : TypedGraph where
  name := "stopped"
  backend := "llvm-cpu"
  inputs := [⟨"x", ⟨.f32, []⟩⟩, ⟨"y", ⟨.f32, []⟩⟩]
  outputs := [⟨.f32, []⟩]
  lets := [⟨["z"], ⟨.call (.graph "double") [.var "x"], [⟨.f32, []⟩]⟩⟩]
  body := [⟨.call .where_ [.call .greater [.var "y", .var "x"], .var "z", .call .floor [.var "y"]],
    ⟨.f32, []⟩⟩]

theorem callable_stoppedGraph : Callable stoppedGraph :=
  ⟨⟨stoppedGraph.source, [("double", ⟨[⟨.f32, []⟩], [⟨.f32, []⟩]⟩)], rfl⟩,
    by decide, by decide⟩

theorem gradient_of_not_reachesLoss_stoppedGraph : ∃ typed,
    valueAndGradGraphWithRegistry stoppedGraph [("double", doubleGraph)] = .ok typed ∧
      ¬ ReachesLoss stoppedGraph [("double", doubleGraph)] "y" ∧
      List.Forall₂ (fun input output =>
          ¬ ReachesLoss stoppedGraph [("double", doubleGraph)] input.name →
            ∃ name, output.kind = .var name ∧ ∃ binding ∈ typed.lets,
              binding.names = [name] ∧ binding.value.kind = zerosLike (.var input.name))
        (differentiableInputs stoppedGraph) typed.body.tail := by
  have hsome : (valueAndGradGraphWithRegistry stoppedGraph
      [("double", doubleGraph)]).toOption.isSome = true := by decide +kernel
  obtain ⟨typed, htyped⟩ := Option.isSome_iff_exists.mp hsome
  have h := except_toOption_eq_some_iff.mp htyped
  refine ⟨typed, h, ?_, gradient_of_not_reachesLoss callable_stoppedGraph callable_registry
    (by decide) h⟩
  rintro ⟨loss, hloss, hmem⟩
  have heval : evalGraph dependence.interp (callsAt dependence.interp [("double", doubleGraph)] 1)
      stoppedGraph (dependentInputs stoppedGraph) = some [(⟨.f32, []⟩, {"x"})] := by
    decide +kernel
  obtain rfl := List.head_eq_of_cons_eq (Option.some.inj (heval.symm.trans hloss))
  exact absurd hmem (by decide)

end Knok.Autograd
