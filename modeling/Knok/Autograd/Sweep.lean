import Mathlib
import Knok.Autograd.ForwardNodes
import Knok.Autograd.Adjoint.Ring

/-!
# The reverse sweep

The sweep visits the forward nodes from the last to the first.  What is pending,
paired with the tangents of the names it is pending for, is one number
(`Moving.total`).  A node takes its gradient out and passes contributions with the
same pairing on to names that come before it, so the number is the same after
every node (`reverseNodes_total`): it is the tangent of the loss before the sweep,
and the gradients of the inputs are paired with the tangents of the inputs after
it.
-/

namespace Knok.Autograd

open Arrays Control

universe u

/-- A sum over distinct names, one of which receives more. -/
theorem sum_map_eq_add {α M : Type*} [AddCommMonoid M] {f f' : α → M} {a : α} {d : M}
    {names : List α} (hself : f' a = f a + d) (hother : ∀ b, b ≠ a → f' b = f b)
    (hnodup : names.Nodup) (ha : a ∈ names) :
    (names.map f').sum = (names.map f).sum + d := by
  have hsame : ∀ rest : List α, a ∉ rest → rest.map f' = rest.map f := fun rest hrest =>
    List.map_congr_left fun b hb => hother b fun heq => hrest (heq ▸ hb)
  induction names with
  | nil => cases ha
  | cons name names ih =>
      obtain ⟨hname, hnodup⟩ := List.nodup_cons.mp hnodup
      rw [List.map_cons, List.map_cons, List.sum_cons, List.sum_cons]
      rcases List.mem_cons.mp ha with rfl | ha
      · rw [hself, hsame names hname, add_right_comm]
      · rw [ih hnodup ha, hother name fun heq => hname (heq ▸ ha), add_assoc]

variable {R : Type u} [CommRing R] {A : Arithmetic R}

namespace Moving

variable (F : Moving A)

/-- What is pending for a name, paired with its tangent. -/
def pendingPairing (grads : Grads) (name : String) : R :=
  (grads name).elim 0 fun grad => F.pairing grad (.var name)

/-- All that is pending, paired with the tangents. -/
def total (grads : Grads) (names : List String) : R :=
  (names.map (F.pendingPairing grads)).sum

/-- Gradients are pending for some of the names, and have their types. -/
structure Pending (grads : Grads) (names : List String) : Prop where
  bound : ∀ name grad, grads name = some grad → name ∈ names
  receives : ∀ name grad, grads name = some grad → F.Receives grad (.var name)

variable {F} {env : Env TensorType} {grads grads' : Grads} {names : List String}

theorem Receives.add {grad grad' target : Expr} (h : F.Receives grad target)
    (h' : F.Receives grad' target) :
    F.Receives (.binary .add grad grad') target ∧
      F.pairing (.binary .add grad grad') target = F.pairing grad target + F.pairing grad' target := by
  obtain ⟨t, g, htarget, hfloat, hgrad⟩ := h
  obtain ⟨t', g', htarget', -, hgrad'⟩ := h'
  obtain rfl : t' = t := Option.some.inj (htarget'.dual.symm.trans htarget.dual)
  have hsum := hgrad.add (ElementType.isNumeric_of_isFloat hfloat) hgrad'
  refine ⟨⟨t', _, htarget, hfloat, hsum⟩, ?_⟩
  rw [pairing_eq hsum htarget.dual, pairing_eq hgrad htarget.dual, pairing_eq hgrad' htarget.dual,
    Arrays.inner_add_left]

/-- A gradient that is added to what is pending. -/
theorem addGrad_total {name : String} {grad : Expr} (henv : Env.Extends env F.types)
    (hgrad : F.Receives grad (.var name)) (hpending : F.Pending grads names)
    (hnodup : names.Nodup) (hname : name ∈ names)
    (hok : addGrad env name grad grads = .ok grads') :
    F.Pending grads' names ∧ F.total grads' names = F.total grads names + F.pairing grad (.var name) := by
  obtain ⟨t, g, htarget, hfloat, -⟩ := id hgrad
  unfold addGrad at hok
  cases hty : env name with
  | none => simp [hty] at hok
  | some ty =>
      have htyped := htarget.typed
      rw [evalTensor_var, henv name ty hty, Option.some.injEq] at htyped
      subst htyped
      simp only [hty, hfloat, if_true, Except.ok.injEq] at hok
      subst hok
      -- the new gradient of the name, and what it adds
      suffices hnew : ∀ e, F.Receives e (.var name) →
          F.pairing e (.var name) = F.pendingPairing grads name + F.pairing grad (.var name) →
          F.Pending (Function.update grads name (some e)) names ∧
            F.total (Function.update grads name (some e)) names =
              F.total grads names + F.pairing grad (.var name) by
        cases hexisting : grads name with
        | none =>
            refine hnew grad hgrad ?_
            rw [pendingPairing, hexisting]
            exact (zero_add _).symm
        | some existing =>
            obtain ⟨hreceives, hsum⟩ := (hpending.receives name existing hexisting).add hgrad
            refine hnew _ hreceives (hsum.trans ?_)
            rw [pendingPairing, hexisting]
            rfl
      intro e hreceives hsum
      refine ⟨⟨fun other other' h => ?_, fun other other' h => ?_⟩, ?_⟩
      · by_cases heq : other = name
        · exact heq ▸ hname
        · rw [Function.update_of_ne heq] at h
          exact hpending.bound other other' h
      · by_cases heq : other = name
        · subst heq
          rw [Function.update_self, Option.some.injEq] at h
          exact h ▸ hreceives
        · rw [Function.update_of_ne heq] at h
          exact hpending.receives other other' h
      · refine sum_map_eq_add ?_ (fun other hother => ?_) hnodup hname
        · rw [← hsum, pendingPairing, Function.update_self]
          rfl
        · rw [pendingPairing, pendingPairing, Function.update_of_ne hother]

/-- A literal does not move. -/
theorem pairing_const (grad : Expr) (value : String) (elem : ElementType) :
    F.pairing grad (.const value elem) = 0 := by
  unfold pairing
  rw [evalTensor_const]
  cases evalTensor A.semantics.interp noCalls F.values grad with
  | none => rfl
  | some g => exact Arrays.inner_zero_right g.entry

/-- Contributions that are added one by one. -/
theorem addContributions_total {cs : List (Expr × Expr)} (henv : Env.Extends env F.types)
    (hnodup : names.Nodup) :
    ∀ {grads}, F.Pending grads names → (∀ c ∈ cs, F.Receives c.2 c.1) →
      (∀ c ∈ cs, ∀ name, c.1 = .var name → name ∈ names) →
      addContributions env cs grads = .ok grads' →
      F.Pending grads' names ∧ F.total grads' names =
        F.total grads names + (cs.map fun c => F.pairing c.2 c.1).sum := by
  induction cs with
  | nil =>
      intro grads hpending _ _ hok
      cases hok
      exact ⟨hpending, (add_zero _).symm⟩
  | cons c cs ih =>
      intro grads hpending hreceives hnames hok
      obtain ⟨target, grad⟩ := c
      obtain ⟨hfirst, hrest⟩ := List.forall_mem_cons.mp hreceives
      obtain ⟨hfirstName, hrestNames⟩ := List.forall_mem_cons.mp hnames
      obtain ⟨mid, hadd, hmore⟩ := except_bind_eq_ok_iff.mp hok
      rw [List.map_cons, List.sum_cons, ← add_assoc]
      cases target with
      | var name =>
          obtain ⟨hmid, htotal⟩ :=
            addGrad_total henv hfirst hpending hnodup (hfirstName name rfl) hadd
          obtain ⟨hlast, hlastTotal⟩ := ih hmid hrest hrestNames hmore
          exact ⟨hlast, by rw [hlastTotal, htotal]⟩
      | const value elem =>
          cases hadd
          obtain ⟨hlast, hlastTotal⟩ := ih hpending hrest hrestNames hmore
          exact ⟨hlast, by rw [hlastTotal, pairing_const, add_zero]⟩
      | _ => cases hadd

/-- A name whose gradient is taken out. -/
theorem Pending.remove {name : String} (h : F.Pending grads (names ++ [name])) :
    F.Pending (Function.update grads name none) names where
  bound other grad hother := by
    by_cases heq : other = name
    · rw [heq, Function.update_self] at hother
      cases hother
    · rw [Function.update_of_ne heq] at hother
      exact (List.mem_append.mp (h.bound other grad hother)).resolve_right
        fun hmem => heq (List.mem_singleton.mp hmem)
  receives other grad hother := by
    by_cases heq : other = name
    · rw [heq, Function.update_self] at hother
      cases hother
    · rw [Function.update_of_ne heq] at hother
      exact h.receives other grad hother

theorem total_append_singleton {name : String} (hname : name ∉ names) :
    F.total grads (names ++ [name]) =
      F.total (Function.update grads name none) names + F.pendingPairing grads name := by
  rw [total, total, List.map_append, List.sum_append, List.map_singleton, List.sum_singleton]
  congr 2
  refine List.map_congr_left fun other hother => ?_
  have hne : other ≠ name := fun heq => hname (heq ▸ hother)
  rw [pendingPairing, pendingPairing, Function.update_of_ne hne]

/-- A forward node has the recorded type, and if it has a rule, it is followed as its
name is. -/
structure Solved (F : Moving A) (env : Env TensorType) (node : Node) : Prop where
  typed : env node.name = some node.ty
  follows : ∀ t grad cs, F.Follows (.var node.name) t → node.ty.elem.isFloat = true →
    nodeContributions env node grad = .ok cs → F.Follows node.expr t

/-- **One node of the sweep.** -/
theorem reverseNode_total {node : Node} {grad : Expr} (htwo : ∀ elem, A.literal "2.0" elem = 2)
    (henv : Env.Extends env F.types) (hsolved : Solved F env node)
    (hscoped : ∀ name ∈ node.expr.vars, name ∈ names) (hnodup : (names ++ [node.name]).Nodup)
    (hpending : F.Pending grads (names ++ [node.name])) (hgrad : grads node.name = some grad)
    (hok : reverseNode env node grad (Function.update grads node.name none) = .ok grads') :
    F.Pending grads' names ∧ F.total grads' names = F.total grads (names ++ [node.name]) := by
  obtain ⟨hnames, -, hdisjoint⟩ := List.nodup_append.mp hnodup
  have hnew : node.name ∉ names := fun hmem =>
    hdisjoint _ hmem _ (List.mem_singleton_self _) rfl
  obtain ⟨t, g, htarget, hfloat, hevaluates⟩ := hpending.receives _ _ hgrad
  have hty : t.ty = node.ty := by
    have htyped := htarget.typed
    rw [evalTensor_var, henv _ _ hsolved.typed] at htyped
    exact (Option.some.inj htyped).symm
  obtain ⟨cs, hcs, hok⟩ := except_bind_eq_ok_iff.mp hok
  have hnodeFloat : node.ty.elem.isFloat = true := hty ▸ hfloat
  have hfollows := hsolved.follows t grad cs htarget hnodeFloat hcs
  have hbalanced := nodeContributions_balanced htwo henv hfollows hty hnodeFloat
    (hty ▸ hevaluates) hcs
  have hvars : ∀ c ∈ cs, ∀ name, c.1 = .var name → name ∈ names := by
    intro c hc name hname
    have hmem := node.expr.operands_subset_subexprs (hbalanced.operands c hc)
    exact hscoped name (Expr.mem_vars.mpr (hname ▸ hmem))
  obtain ⟨hlast, htotal⟩ :=
    addContributions_total henv hnames hpending.remove hbalanced.receives hvars hok
  refine ⟨hlast, ?_⟩
  rw [htotal, total_append_singleton hnew, hbalanced.sum, pendingPairing, hgrad]
  exact congrArg _ ((hty ▸ pairing_eq hevaluates htarget.dual).symm)

/-- **The sweep keeps the pairing.** -/
theorem reverseNodes_total (htwo : ∀ elem, A.literal "2.0" elem = 2)
    (henv : Env.Extends env F.types) {inputs : List String} (nodes : List Node) :
    ∀ {grads}, (∀ node ∈ nodes, Solved F env node) → NodesScoped inputs nodes →
      (inputs ++ nodes.map Node.name).Nodup →
      F.Pending grads (inputs ++ nodes.map Node.name) →
      reverseNodes env nodes.reverse grads = .ok grads' →
      F.Pending grads' inputs ∧
        F.total grads' inputs = F.total grads (inputs ++ nodes.map Node.name) := by
  -- the sweep starts at the end of the list
  induction nodes using List.reverseRecOn with
  | nil =>
      intro grads _ _ _ hpending hok
      cases hok
      rw [List.map_nil, List.append_nil] at *
      exact ⟨hpending, rfl⟩
  | append_singleton nodes node ih =>
      intro grads hsolved hscoped hnodup hpending hok
      obtain ⟨hbefore, hnode⟩ := nodesScoped_append.mp hscoped
      have hmap : inputs ++ (nodes ++ [node]).map Node.name =
          inputs ++ nodes.map Node.name ++ [node.name] := by
        rw [List.map_append, List.append_assoc]
        rfl
      rw [hmap] at hnodup hpending ⊢
      rw [List.reverse_append, List.reverse_singleton, List.singleton_append] at hok
      have hnames := (List.nodup_append.mp hnodup).1
      have hnew : node.name ∉ inputs ++ nodes.map Node.name := fun hmem =>
        (List.nodup_append.mp hnodup).2.2 _ hmem _ (List.mem_singleton_self _) rfl
      have hfirst : ∀ n ∈ nodes, Solved F env n := fun n hn => hsolved n (List.mem_append_left _ hn)
      unfold reverseNodes at hok
      cases hgrad : grads node.name with
      | none =>
          simp only [hgrad] at hok
          have hsame : Function.update grads node.name none = grads := by
            rw [← hgrad, Function.update_eq_self]
          obtain ⟨hlast, htotal⟩ := ih hfirst hbefore hnames (hsame ▸ hpending.remove) hok
          refine ⟨hlast, ?_⟩
          rw [htotal, total_append_singleton hnew, hsame, pendingPairing, hgrad]
          exact (add_zero _).symm
      | some grad =>
          simp only [hgrad] at hok
          obtain ⟨mid, hmid, hok⟩ := except_bind_eq_ok_iff.mp hok
          obtain ⟨hpendingMid, htotalMid⟩ := reverseNode_total htwo henv
            (hsolved node (List.mem_append_right _ (List.mem_singleton_self _))) hnode.1 hnodup
            hpending hgrad hmid
          obtain ⟨hlast, htotal⟩ := ih hfirst hbefore hnames hpendingMid hok
          exact ⟨hlast, htotal.trans htotalMid⟩

end Moving

end Knok.Autograd
