import Mathlib
import Knok.TypedSemantics
import Knok.Sharing
import Knok.Autograd.Naming

/-!
# What the flattened graph denotes

Flattening emits lets; the value-and-gradient graph is these lets and more.  No
name of it is rebound, so the environment in which it ends solves every let at
once (`solves_of_evalLets`), and the flattened form of an expression can be read
in that one environment: it has the values that the expression has in its own.

### Design decisions

* **One final environment**, of types and of values, is fixed while the run of
  the builder is followed.  `Yields` says what a run returns, provided that the
  lets it has emitted hold there.
* **Names.**  A name of a callee stands for what its scope says, a name of the
  root graph for itself; `NameDenotes` covers both.
* **Calls** are resolved in the registry as deep as the inlining goes.
-/

namespace Knok.Autograd

open Control

universe u

section

variable {V : Type u} (S : TypedSemantics V) (types : Env TensorType) (env : Env V)

/-- A flattened value has the type recorded with it, and denotes `v`. -/
structure Denotes (flat : Flat) (v : V) : Prop where
  typed : evalTensor typeInterp noCalls types flat.1 = some flat.2
  value : evalTensor S.interp noCalls env flat.1 = some v

/-- Lets hold in the final environments. -/
def Hold (lets : List Let) : Prop :=
  ∀ binding ∈ lets, Solves typeInterp noCalls types binding.binding ∧
    Solves S.interp noCalls env binding.binding

/-- Every successful run only adds lets, and its result satisfies `Q` if `P` does
and the lets hold. -/
def Yields {α : Type} (P : Prop) (m : BuilderM α) (Q : α → Prop) : Prop :=
  ∀ s a s', m.run s = .ok (a, s') → s.lets <+: s'.lets ∧
    (P → Hold S types env s'.lets → Env.Extends s.env types → Q a ∧ Env.Extends s'.env types)

variable {S types env}

theorem Hold.of_prefix {lets lets' : List Let} (h : Hold S types env lets')
    (hgrows : lets <+: lets') : Hold S types env lets :=
  fun binding hbinding => h binding (hgrows.subset hbinding)

namespace Yields

variable {α β : Type} {P R : Prop} {Q Q' : α → Prop} {Q'' : β → Prop} {m : BuilderM α}

theorem of_pure {a : α} (h : P → Q a) : Yields S types env P (pure a) Q := by
  intro s b s' hrun
  cases stateT_pure_eq_ok_iff.mp hrun
  exact ⟨List.prefix_refl _, fun hP _ hext => ⟨h hP, hext⟩⟩

theorem of_throw (e : Error) : Yields S types env P (throw e) Q := by
  intro s a s' hrun
  exact absurd hrun (by simp)

theorem of_lift {x : Except Error α} (h : P → ∀ a, x = .ok a → Q a) :
    Yields S types env P (liftM x) Q := by
  intro s a s' hrun
  obtain ⟨hx, rfl⟩ := stateT_lift_eq_ok_iff.mp hrun
  exact ⟨List.prefix_refl _, fun hP _ hext => ⟨h hP a hx, hext⟩⟩

theorem bind {f : α → BuilderM β} (hm : Yields S types env P m Q)
    (hf : ∀ a, Yields S types env (P ∧ Q a) (f a) Q'') : Yields S types env P (m >>= f) Q'' := by
  intro s b s' hrun
  obtain ⟨a, mid, hfirst, hrest⟩ := stateT_bind_eq_ok_iff.mp hrun
  obtain ⟨hgrows, hfirst⟩ := hm s a mid hfirst
  obtain ⟨hgrows', hrest⟩ := hf a mid b s' hrest
  refine ⟨hgrows.trans hgrows', fun hP hhold hext => ?_⟩
  obtain ⟨hQ, hext⟩ := hfirst hP (hhold.of_prefix hgrows') hext
  exact hrest ⟨hP, hQ⟩ hhold hext

theorem mono (h : Yields S types env P m Q) (hP : R → P) (hQ : R → ∀ a, Q a → Q' a) :
    Yields S types env R m Q' := by
  intro s a s' hrun
  obtain ⟨hgrows, hrest⟩ := h s a s' hrun
  refine ⟨hgrows, fun hR hhold hext => ?_⟩
  obtain ⟨ha, hext⟩ := hrest (hP hR) hhold hext
  exact ⟨hQ hR a ha, hext⟩

/-- A precondition about some element. -/
theorem of_exists {ι : Type*} [Nonempty ι] {P : ι → Prop}
    (h : ∀ i, Yields S types env (P i) m Q) : Yields S types env (∃ i, P i) m Q := by
  intro s a s' hrun
  obtain ⟨i₀⟩ := ‹Nonempty ι›
  refine ⟨(h i₀ s a s' hrun).1, ?_⟩
  rintro ⟨i, hi⟩
  exact (h i s a s' hrun).2 hi

/-- A check before a computation. -/
theorem guarded {C : Prop} [Decidable C] (h : Yields S types env (P ∧ ¬ C) m Q) (e : Error) :
    Yields S types env P (do
      if C then throw e
      m) Q := by
  by_cases hC : C
  · rw [if_pos hC]
    intro s a s' hrun
    obtain ⟨_, _, hthrow, -⟩ := stateT_bind_eq_ok_iff.mp hrun
    exact absurd hthrow (by simp)
  · rw [if_neg hC]
    exact h.mono (fun hP => ⟨hP, hC⟩) fun _ _ ha => ha

end Yields

/-! ## Binding steps -/

theorem nonempty_of_typedSemantics (S : TypedSemantics V) : Nonempty V :=
  ⟨(S.const_typed "" .f32).choose⟩

theorem Denotes.of_var {name : String} {ty : TensorType} {v : V} (hty : types name = some ty)
    (hv : env name = some v) : Denotes S types env (.var name, ty) v :=
  ⟨by rw [evalTensor_var, hty], by rw [evalTensor_var, hv]⟩

theorem Denotes.typeOf (henv : S.EnvTyped types env) {flat : Flat} {v : V}
    (h : Denotes S types env flat v) : S.typeOf v = flat.2 := by
  obtain ⟨w, hw, hty⟩ := TypedSemantics.exists_evalTensor (S.callsTyped_noCalls noCalls) henv
    h.typed
  rwa [Option.some.inj (h.value.symm.trans hw)]

theorem extends_update_left {W : Type*} {e e' : Env W} (h : Env.Extends e e') {name : String}
    {v : W} (hv : e' name = some v) : Env.Extends (Function.update e name (some v)) e' := by
  intro other w hw
  by_cases hname : other = name
  · subst hname
    rw [Function.update_self] at hw
    rw [hv, hw]
  · rw [Function.update_of_ne hname] at hw
    exact h other w hw

theorem extends_bindNames_left {W : Type*} {e e' : Env W} (h : Env.Extends e e')
    {names : List String} {vs : List W} (hvs : names.map e' = vs.map some) :
    Env.Extends (Knok.bindNames e names vs) e' := by
  induction names generalizing e vs with
  | nil => exact h
  | cons name names ih =>
      cases vs with
      | nil => exact h
      | cons v vs =>
          rw [List.map_cons, List.map_cons, List.cons_eq_cons] at hvs
          exact ih (extends_update_left h hvs.1) hvs.2

/-- A let under a generated name has the value of its expression. -/
theorem yields_bindForwardAuto {P : Prop} {expr : Expr} {ty : TensorType}
    (hty : P → ∀ ty', evalTensor typeInterp noCalls types expr = some ty' → ty' = ty) :
    Yields S types env P (bindForwardAuto expr ty) fun e =>
      ∃ v, evalTensor S.interp noCalls env expr = some v ∧ Denotes S types env (e, ty) v := by
  intro s a s' hrun
  obtain ⟨rfl, rfl⟩ := Prod.mk.inj (Except.ok.inj hrun)
  refine ⟨List.prefix_append .., fun hP hhold hext => ?_⟩
  obtain ⟨htypes, hvalues⟩ := hhold ⟨[s.autoName], expr⟩
    (List.mem_append_right _ (List.mem_singleton_self _))
  obtain ⟨ty', hty', htypes⟩ := htypes.singleton
  obtain ⟨v, hv, hname⟩ := hvalues.singleton
  obtain rfl := hty hP ty' hty'
  exact ⟨⟨v, hv, .of_var htypes hname⟩, extends_update_left hext htypes⟩

theorem denotes_zip {names : List String} :
    ∀ {tys : List TensorType} {vs : List V}, names.map types = tys.map some →
      names.map env = vs.map some →
      List.Forall₂ (Denotes S types env)
        ((names.zip tys).map fun (name, ty) => ((.var name, ty) : Flat)) vs := by
  induction names with
  | nil =>
      intro tys vs htys hvs
      obtain rfl : vs = [] := by simpa using hvs.symm
      exact .nil
  | cons name names ih =>
      intro tys vs htys hvs
      cases tys with
      | nil => simp at htys
      | cons ty tys =>
          cases vs with
          | nil => simp at hvs
          | cons v vs =>
              rw [List.map_cons, List.map_cons, List.cons_eq_cons] at htys hvs
              exact .cons (.of_var htys.1 hvs.1) (ih htys.2 hvs.2)

/-- A let of several names has the outputs of its expression. -/
theorem yields_bindForwardOutputsAuto {P : Prop} {expr : Expr} {tys : List TensorType}
    (htys : P → ∀ tys', evalOutputs typeInterp noCalls types expr = some tys' → tys' = tys) :
    Yields S types env P (bindForwardOutputsAuto expr tys) fun flats =>
      ∃ vs, evalOutputs S.interp noCalls env expr = some vs ∧
        List.Forall₂ (Denotes S types env) flats vs := by
  intro s a s' hrun
  obtain ⟨names, mid, hnames, hrest⟩ := stateT_bind_eq_ok_iff.mp hrun
  obtain ⟨rfl, rfl⟩ := Prod.mk.inj (Except.ok.inj hrest)
  have htakes := takesNames_nextAutoNames _ hnames
  refine ⟨?_, fun hP hhold hext => ?_⟩
  · show s.lets <+: mid.lets ++ [⟨names, expr⟩]
    rw [htakes.lets]
    exact List.prefix_append ..
  obtain ⟨⟨tys', htys', htypes⟩, ⟨vs, hvs, hvalues⟩⟩ := hhold ⟨names, expr⟩
    (List.mem_append_right _ (List.mem_singleton_self _))
  obtain rfl := htys hP tys' htys'
  refine ⟨⟨vs, hvs, denotes_zip htypes hvalues⟩, ?_⟩
  show Env.Extends (bindNames mid.env ((names.zip tys').map Prod.fst)
    ((names.zip tys').map Prod.snd)) types
  rw [List.map_fst_zip htakes.length.le, List.map_snd_zip htakes.length.ge, htakes.env]
  exact extends_bindNames_left hext htypes


/-! ## Flattening -/

variable (S types env) in
/-- A name has a value, which is what it stands for in the final environment. -/
def NameDenotes (scope : Scope) (values : Env V) (name : String) : Prop :=
  ∃ v, values name = some v ∧
    match scope name with
    | some flat => Denotes S types env flat v
    | none => env name = some v

variable (S types env) in
/-- A flattened tensor expression denotes its value. -/
def DenotesTensor (calls : Calls V) (values : Env V) (e : Expr) (flat : Flat) : Prop :=
  ∃ v, evalTensor S.interp calls values e = some v ∧ Denotes S types env flat v

variable (S types env) in
/-- Flattened outputs denote the outputs of the expression. -/
def DenotesOutputs (calls : Calls V) (values : Env V) (e : Expr) (flats : List Flat) : Prop :=
  ∃ vs, evalOutputs S.interp calls values e = some vs ∧
    List.Forall₂ (Denotes S types env) flats vs

variable (S types env) in
/-- Flattened arguments denote the values of the arguments. -/
def DenotesArgs (calls : Calls V) (values : Env V) (args : List Expr) (flats : List Flat) : Prop :=
  ∃ vs, evalArgs S.interp calls values args = some vs ∧
    List.Forall₂ (Denotes S types env) flats vs

section Calls

variable {calls : Calls V} {values : Env V} {flats : List Flat} {vs : List V} {op : CallOp}

theorem evalArgs_flats (h : List.Forall₂ (Denotes S types env) flats vs) :
    evalArgs typeInterp noCalls types (flats.map Prod.fst) = some (flats.map Prod.snd) ∧
      evalArgs S.interp noCalls env (flats.map Prod.fst) = some vs := by
  rw [evalArgs_eq_mapM, evalArgs_eq_mapM]
  induction h with
  | nil => exact ⟨rfl, rfl⟩
  | cons hflat hflats ih =>
      simp only [List.map_cons, List.mapM_cons, hflat.typed, hflat.value, ih.1, ih.2]
      exact ⟨rfl, rfl⟩

/-- A flattened call has inferred types. -/
theorem infer_of_flats (hop : ∀ name, op ≠ .graph name)
    (h : List.Forall₂ (Denotes S types env) flats vs) {tys : List TensorType}
    (htys : evalOutputs typeInterp noCalls types (.call op (flats.map Prod.fst)) = some tys) :
    inferCallResults op (flats.map Prod.snd) = .ok tys := by
  rw [evalOutputs_call _ _ _ hop, (evalArgs_flats h).1] at htys
  simp only [typeInterp, Option.bind_eq_bind, Option.bind_eq_some_iff] at htys
  obtain ⟨-, -, argTys, hargs, hinfer⟩ := htys
  cases hargs
  exact except_toOption_eq_some_iff.mp hinfer

/-- A flattened call has the outputs of the call. -/
theorem evalOutputs_flats (hop : ∀ name, op ≠ .graph name)
    (h : List.Forall₂ (Denotes S types env) flats vs) {args : List Expr}
    (hargs : evalArgs S.interp calls values args = some vs) :
    evalOutputs S.interp calls values (.call op args) =
      evalOutputs S.interp noCalls env (.call op (flats.map Prod.fst)) := by
  rw [evalOutputs_call _ _ _ hop, evalOutputs_call _ _ _ hop, hargs, (evalArgs_flats h).2]
  rfl

variable {P : Prop} {args : List Expr} {flatArgs : BuilderM (List Flat)}

theorem yields_flattenSingleCall (hop : ∀ name, op ≠ .graph name)
    (hargs : Yields S types env P flatArgs (DenotesArgs S types env calls values args)) :
    Yields S types env P (flattenSingleCall op flatArgs)
      (DenotesTensor S types env calls values (.call op args)) := by
  refine hargs.bind fun flats => (Yields.of_lift (Q := fun results =>
    inferCallResults op (flats.map Prod.snd) = .ok results) fun _ _ h => h).bind fun results => ?_
  match results with
  | [] => exact .of_throw _
  | _ :: _ :: _ => exact .of_throw _
  | [ty] =>
      refine (yields_bindForwardAuto ?_).bind fun expr => .of_pure ?_
      · rintro ⟨⟨-, vs, -, hflats⟩, hinfer⟩ ty' hty'
        obtain ⟨tys, htys, hsingle⟩ := Option.bind_eq_some_iff.mp hty'
        have hsame := (infer_of_flats hop hflats htys).symm.trans hinfer
        rw [single_eq_some_iff.mp hsingle] at hsame
        exact List.head_eq_of_cons_eq (Except.ok.inj hsame)
      · rintro ⟨⟨⟨-, vs, hvs, hflats⟩, -⟩, v, hv, hexpr⟩
        refine ⟨v, ?_, hexpr⟩
        rw [evalTensor, evalOutputs_flats hop hflats hvs]
        exact hv

theorem yields_flattenMultiOutputCall (hop : ∀ name, op ≠ .graph name)
    (hargs : Yields S types env P flatArgs (DenotesArgs S types env calls values args)) :
    Yields S types env P (flattenMultiOutputCall op flatArgs)
      (DenotesOutputs S types env calls values (.call op args)) := by
  refine hargs.bind fun flats => (Yields.of_lift (Q := fun results =>
    inferCallResults op (flats.map Prod.snd) = .ok results) fun _ _ h => h).bind fun tys => ?_
  refine Yields.guarded ((yields_bindForwardOutputsAuto ?_).mono id ?_) _
  · rintro ⟨⟨⟨-, vs, -, hflats⟩, hinfer⟩, -⟩ tys' htys'
    exact Except.ok.inj ((infer_of_flats hop hflats htys').symm.trans hinfer)
  · rintro ⟨⟨⟨-, vs, hvs, hflats⟩, -⟩, -⟩ outputs ⟨ws, hws, houtputs⟩
    exact ⟨ws, (evalOutputs_flats hop hflats hvs).trans hws, houtputs⟩

/-- The slices of a split denote its outputs. -/
theorem yields_flattenSections (axis : ℕ) (input : Flat) (tys : List TensorType) :
    ∀ offset, Yields S types env (∃ v, Denotes S types env input v)
      (flattenSections axis input offset tys) fun flats =>
        ∀ v, Denotes S types env input v →
          ∃ ws, splitSlices S.call axis input.2.rank v offset tys = some ws ∧
            List.Forall₂ (Denotes S types env) flats ws := by
  induction tys with
  | nil => exact fun offset => .of_pure fun _ _ _ => ⟨[], rfl, .nil⟩
  | cons ty tys ih =>
      intro offset
      have hone : ∀ {v}, Denotes S types env input v →
          List.Forall₂ (Denotes S types env) [input] [v] := fun h => .cons h .nil
      have hop : ∀ starts name, CallOp.slice ty starts ≠ .graph name := by simp
      refine (yields_bindForwardAuto ?_).bind fun expr =>
        ((ih _).mono And.left fun _ _ h => h).bind fun rest => .of_pure ?_
      · rintro ⟨v, hinput⟩ ty' hty'
        obtain ⟨tys', htys', hsingle⟩ := Option.bind_eq_some_iff.mp hty'
        have hinfer := inferCallResults_slice (infer_of_flats (hop _) (hone hinput) htys')
        rw [single_eq_some_iff.mp hsingle] at hinfer
        exact List.head_eq_of_cons_eq hinfer
      · rintro ⟨⟨-, w, hw, hexpr⟩, hrest⟩ v hinput
        obtain ⟨ws, hws, hrest⟩ := hrest v hinput
        refine ⟨w :: ws, ?_, .cons hexpr hrest⟩
        have hcall : (S.call (.slice ty ((List.replicate input.2.rank 0).set axis offset))
            [v]).bind single = some w := by
          rw [← hw, evalTensor, evalOutputs_call _ _ _ (hop _),
            show [input.1] = [input].map Prod.fst from rfl, (evalArgs_flats (hone hinput)).2]
          rfl
        rw [splitSlices, hcall, hws]
        rfl

theorem yields_flattenSplitOutputs (henv : S.EnvTyped types env) (axis : ℕ) (sections : List ℕ)
    (hargs : Yields S types env P flatArgs (DenotesArgs S types env calls values args)) :
    Yields S types env P (flattenSplitOutputs axis sections args flatArgs)
      (DenotesOutputs S types env calls values (.call (.split axis sections) args)) := by
  have hop : ∀ name, CallOp.split axis sections ≠ .graph name := by simp
  refine Yields.guarded ((hargs.mono And.left fun _ _ h => h).bind fun flats => ?_) _
  match flats with
  | [] => exact .of_throw _
  | _ :: _ :: _ => exact .of_throw _
  | [input] =>
      refine (Yields.of_lift (Q := fun tys =>
        inferCallResults (.split axis sections) [input.2] = .ok tys) fun _ _ h => h).bind
          fun tys => (yields_flattenSections axis input tys 0).mono ?_ ?_
      · rintro ⟨⟨-, vs, -, hflats⟩, -⟩
        cases hflats with
        | cons hflat hnil => exact ⟨_, hflat⟩
      · rintro ⟨⟨-, vs, hvs, hflats⟩, hinfer⟩ outputs houtputs
        cases hflats with
        | @cons _ v _ _ hflat hnil =>
            cases hnil
            obtain ⟨ws, hws, houtputs⟩ := houtputs v hflat
            refine ⟨ws, ?_, houtputs⟩
            have hty := hflat.typeOf henv
            rw [evalOutputs_call _ _ _ hop, hvs]
            refine S.split_slices axis sections v tys ws (by rw [hty]; exact hinfer) ?_
            rw [hty]
            exact hws

end Calls


theorem yields_flattenVar (scope : Scope) (values : Env V) (name : String) :
    Yields S types env (NameDenotes S types env scope values name) (flattenVar scope name)
      fun flat => ∃ v, values name = some v ∧ Denotes S types env flat v := by
  unfold flattenVar NameDenotes
  cases scope name with
  | some flat => exact .of_pure fun h => h
  | none =>
      intro s a s' hrun
      obtain ⟨s₀, mid, hget, hrest⟩ := stateT_bind_eq_ok_iff.mp hrun
      cases stateT_get_eq_ok_iff.mp hget
      cases hty : s.env name with
      | none => rw [hty] at hrest; exact absurd hrest (by simp)
      | some ty =>
          rw [hty] at hrest
          cases stateT_pure_eq_ok_iff.mp hrest
          refine ⟨List.prefix_refl _, ?_⟩
          rintro ⟨v, hv, hname⟩ - hext
          exact ⟨⟨v, hv, .of_var (hext name ty hty) hname⟩, hext⟩

/-! ### Scopes of callees -/

theorem NameDenotes.update {scope : Scope} {values : Env V} {name bound : String}
    (h : NameDenotes S types env scope values name) {flat : Flat} {v : V}
    (hflat : Denotes S types env flat v) :
    NameDenotes S types env (Function.update scope bound (some flat))
      (Function.update values bound (some v)) name := by
  by_cases hname : name = bound
  · subst hname
    exact ⟨v, by rw [Function.update_self], by rw [Function.update_self]; exact hflat⟩
  · obtain ⟨w, hw, hscope⟩ := h
    exact ⟨w, by rwa [Function.update_of_ne hname], by rwa [Function.update_of_ne hname]⟩

theorem nameDenotes_update_self (scope : Scope) (values : Env V) (bound : String) {flat : Flat}
    {v : V} (hflat : Denotes S types env flat v) :
    NameDenotes S types env (Function.update scope bound (some flat))
      (Function.update values bound (some v)) bound :=
  ⟨v, by rw [Function.update_self], by rw [Function.update_self]; exact hflat⟩

/-- Binding a name keeps what the names so far stand for. -/
theorem nameDenotes_update {scope : Scope} {values : Env V} {names : List String}
    (h : ∀ name ∈ names, NameDenotes S types env scope values name) (bound : String) {flat : Flat}
    {v : V} (hflat : Denotes S types env flat v) :
    ∀ name ∈ names ++ [bound], NameDenotes S types env (Function.update scope bound (some flat))
      (Function.update values bound (some v)) name := by
  intro name hname
  rcases List.mem_append.mp hname with hname | hname
  · exact (h name hname).update hflat
  · rw [List.mem_singleton.mp hname]
    exact nameDenotes_update_self scope values bound hflat

theorem nameDenotes_bindLocal {callee : String} {bound : List String} :
    ∀ {tys : List TensorType} {outputs : List Flat} {vs : List V} {scope scope' : Scope}
      {values : Env V} {names : List String},
      (∀ name ∈ names, NameDenotes S types env scope values name) →
      List.Forall₂ (Denotes S types env) outputs vs → bound.length = outputs.length →
      outputs.length = tys.length → bindLocal callee bound tys outputs scope = .ok scope' →
      ∀ name ∈ names ++ bound, NameDenotes S types env scope' (bindNames values bound vs) name := by
  induction bound with
  | nil =>
      intro tys outputs vs scope scope' values names h hflats hlen htys hbind
      cases hbind
      simpa using h
  | cons name bound ih =>
      intro tys outputs vs scope scope' values names h hflats hlen htys hbind
      cases hflats with
      | nil => cases hlen
      | @cons flat v outputs vs hflat hflats =>
          cases tys with
          | nil => cases htys
          | cons expected tys =>
              rw [bindLocal] at hbind
              split_ifs at hbind
              have hrest := ih (nameDenotes_update h name hflat) hflats (Nat.succ.inj hlen)
                (Nat.succ.inj htys) hbind
              simpa using hrest

/-! ### Expressions -/

section Expressions

variable {graphs : Registry}
  {inline : List String → String → TypedGraph → Scope → BuilderM (List Flat)} {calls : Calls V}
  {scope : Scope} {values : Env V}

theorem yields_flattenArgs {args : List Expr} (stack : List String)
    (h : ∀ arg ∈ args, Yields S types env
      (∀ name ∈ arg.vars, NameDenotes S types env scope values name)
      (flattenBoth graphs inline scope arg stack).1 (DenotesTensor S types env calls values arg)) :
    Yields S types env
      (∀ arg ∈ args, ∀ name ∈ arg.vars, NameDenotes S types env scope values name)
      (flattenArgs graphs inline scope args stack) (DenotesArgs S types env calls values args) := by
  induction args with
  | nil => exact .of_pure fun _ => ⟨[], rfl, .nil⟩
  | cons arg args ih =>
      have hfirst := (h arg (List.mem_cons_self ..)).mono
        (R := ∀ a ∈ arg :: args, ∀ name ∈ a.vars, NameDenotes S types env scope values name)
        (fun hvars => hvars arg (List.mem_cons_self ..)) fun _ _ hflat => hflat
      have hrest := ih fun a ha => h a (List.mem_cons_of_mem _ ha)
      refine hfirst.bind fun flat => (hrest.mono (fun hvars a ha =>
        hvars.1 a (List.mem_cons_of_mem _ ha)) fun _ _ hflats => hflats).bind fun flats =>
          .of_pure ?_
      rintro ⟨⟨-, v, hv, hflat⟩, vs, hvs, hflats⟩
      refine ⟨v :: vs, ?_, .cons hflat hflats⟩
      rw [evalArgs, show (evalOutputs S.interp calls values arg).bind single = some v from hv, hvs]
      rfl

/-- The arguments of a graph call, bound to the callee's inputs. -/
theorem yields_flattenGraphArgs (callee : String) {args : List Expr} (stack : List String)
    (h : ∀ arg ∈ args, Yields S types env
      (∀ name ∈ arg.vars, NameDenotes S types env scope values name)
      (flattenBoth graphs inline scope arg stack).1 (DenotesTensor S types env calls values arg)) :
    ∀ (inputs : List Input) (local_ : Scope) (bound : Env V) (names : List String),
      Yields S types env
        (inputs.length = args.length ∧
          (∀ arg ∈ args, ∀ name ∈ arg.vars, NameDenotes S types env scope values name) ∧
          ∀ name ∈ names, NameDenotes S types env local_ bound name)
        (flattenGraphArgs graphs inline scope callee args stack inputs local_) fun local' =>
          ∃ vs, evalArgs S.interp calls values args = some vs ∧
            ∀ name ∈ names ++ inputs.map Input.name,
              NameDenotes S types env local' (bindNames bound (inputs.map Input.name) vs) name := by
  induction args with
  | nil =>
      intro inputs local_ bound names
      refine .of_pure ?_
      rintro ⟨hlen, -, hnames⟩
      obtain rfl : inputs = [] := by simpa using hlen
      exact ⟨[], rfl, by simpa using hnames⟩
  | cons arg args ih =>
      intro inputs local_ bound names
      cases inputs with
      | nil =>
          refine .of_pure ?_
          rintro ⟨hlen, -⟩
          cases hlen
      | cons input inputs =>
          have hfirst := (h arg (List.mem_cons_self ..)).mono
            (R := (input :: inputs).length = (arg :: args).length ∧
              (∀ a ∈ arg :: args, ∀ name ∈ a.vars,
                NameDenotes S types env scope values name) ∧
              ∀ name ∈ names, NameDenotes S types env local_ bound name)
            (fun hvars => hvars.2.1 arg (List.mem_cons_self ..)) fun _ _ hflat => hflat
          refine hfirst.bind fun flat => Yields.guarded ?_ _
          -- the value of the argument is what the input is bound to
          have hrest : ∀ v, Yields S types env
              (((input :: inputs).length = (arg :: args).length ∧
                (∀ a ∈ arg :: args, ∀ name ∈ a.vars,
                  NameDenotes S types env scope values name) ∧
                ∀ name ∈ names, NameDenotes S types env local_ bound name) ∧
                  evalTensor S.interp calls values arg = some v ∧ Denotes S types env flat v)
              (flattenGraphArgs graphs inline scope callee args stack inputs
                (Function.update local_ input.name (some flat))) fun local' =>
                ∃ vs, evalArgs S.interp calls values (arg :: args) = some vs ∧
                  ∀ name ∈ names ++ (input :: inputs).map Input.name, NameDenotes S types env local'
                    (bindNames bound ((input :: inputs).map Input.name) vs) name := by
            intro v
            refine (ih (fun a ha => h a (List.mem_cons_of_mem _ ha)) inputs
              (Function.update local_ input.name (some flat))
              (Function.update bound input.name (some v)) (names ++ [input.name])).mono ?_ ?_
            · rintro ⟨⟨hlen, hvars, hnames⟩, -, hflat⟩
              exact ⟨Nat.succ.inj hlen, fun a ha => hvars a (List.mem_cons_of_mem _ ha),
                nameDenotes_update hnames input.name hflat⟩
            · rintro ⟨-, hv, -⟩ local' ⟨vs, hvs, hnames⟩
              refine ⟨v :: vs, ?_, by simpa using hnames⟩
              rw [evalArgs,
                show (evalOutputs S.interp calls values arg).bind single = some v from hv, hvs]
              rfl
          have hvalue : Nonempty V := nonempty_of_typedSemantics S
          refine (Yields.of_exists hrest).mono ?_ fun _ _ hlocal => hlocal
          rintro ⟨⟨hvars, v, hv, hflat⟩, -⟩
          exact ⟨v, hvars, hv, hflat⟩

/-- Elements at one index of related lists. -/
theorem getElem?_of_forall₂ {α β : Type*} {R : α → β → Prop} {xs : List α} {ys : List β}
    (h : List.Forall₂ R xs ys) : ∀ {k : ℕ} {x : α}, xs[k]? = some x → ∃ y, ys[k]? = some y ∧ R x y := by
  induction h with
  | nil => intro k x hx; simp at hx
  | cons hxy hrest ih =>
      intro k x hx
      cases k with
      | zero =>
          rw [List.getElem?_cons_zero, Option.some.injEq] at hx
          exact ⟨_, List.getElem?_cons_zero .., hx ▸ hxy⟩
      | succ k =>
          rw [List.getElem?_cons_succ] at hx ⊢
          exact ih hx

/-- A call of a callee whose scope holds the values of the arguments. -/
theorem yields_graphCall {name : String} {graph : TypedGraph} {local_ : Scope} {args : List Expr}
    {P : Prop} {m : BuilderM (List Flat)}
    (hinline : ∀ vs : List V,
      Yields S types env ((graphs.get name = some graph ∧ graph.inputs.length = vs.length) ∧
          ∀ input ∈ graph.inputs.map Input.name,
            NameDenotes S types env local_ (inputEnv graph vs) input)
        m fun flats => ∃ ws, calls name vs = some ws ∧
          List.Forall₂ (Denotes S types env) flats ws) :
    Yields S types env
      ((P ∧ graphs.get name = some graph ∧ graph.inputs.length = args.length) ∧
        ∃ vs, evalArgs S.interp calls values args = some vs ∧
          ∀ input ∈ [] ++ graph.inputs.map Input.name,
            NameDenotes S types env local_
              (bindNames (fun _ => none) (graph.inputs.map Input.name) vs) input)
      m (DenotesOutputs S types env calls values (.call (.graph name) args)) := by
  have hcall : ∀ vs, Yields S types env
      ((graphs.get name = some graph ∧ graph.inputs.length = args.length) ∧
        evalArgs S.interp calls values args = some vs ∧
          ∀ input ∈ graph.inputs.map Input.name,
            NameDenotes S types env local_ (inputEnv graph vs) input)
      m (DenotesOutputs S types env calls values (.call (.graph name) args)) := by
    refine fun vs => (hinline vs).mono ?_ ?_
    · rintro ⟨⟨hget, hlen⟩, hvs, hnames⟩
      rw [evalArgs_eq_mapM] at hvs
      exact ⟨⟨hget, hlen.trans (option_mapM_eq_some_iff.mp hvs).length_eq⟩, hnames⟩
    · rintro ⟨-, hvs, -⟩ flats ⟨ws, hws, hflats⟩
      exact ⟨ws, by rw [evalOutputs_graph, hvs]; exact hws, hflats⟩
  refine (Yields.of_exists hcall).mono ?_ fun _ _ h => h
  rintro ⟨⟨-, hgraph⟩, vs, hvs, hnames⟩
  exact ⟨vs, hgraph, hvs, hnames⟩

variable (scope values) in
/-- **Flattening denotes what it flattens**: every expression whose names stand for
their values is flattened to what denotes its value. -/
theorem yields_flattenBoth (henv : S.EnvTyped types env)
    (hinline : ∀ stack name graph local_ args,
      Yields S types env ((graphs.get name = some graph ∧ graph.inputs.length = args.length) ∧
          ∀ input ∈ graph.inputs.map Input.name,
            NameDenotes S types env local_ (inputEnv graph args) input)
        (inline stack name graph local_) fun flats => ∃ ws, calls name args = some ws ∧
          List.Forall₂ (Denotes S types env) flats ws) (e : Expr) :
    ∀ stack,
      Yields S types env (∀ name ∈ e.vars, NameDenotes S types env scope values name)
          (flattenBoth graphs inline scope e stack).1 (DenotesTensor S types env calls values e) ∧
        Yields S types env (∀ name ∈ e.vars, NameDenotes S types env scope values name)
          (flattenBoth graphs inline scope e stack).2
          (DenotesOutputs S types env calls values e) := by
  -- an expression with one output: its outputs are that one
  have hone : ∀ {e : Expr} {flat : BuilderM Flat} {P : Prop},
      Yields S types env P flat (DenotesTensor S types env calls values e) →
        Yields S types env P flat (DenotesTensor S types env calls values e) ∧
          Yields S types env P (do return [← flat])
            (DenotesOutputs S types env calls values e) := by
    intro e flat P hflat
    refine ⟨hflat, hflat.bind fun flat => .of_pure ?_⟩
    rintro ⟨-, v, hv, hdenotes⟩
    exact ⟨[v], evalOutputs_eq_some_singleton _ _ _ hv, .cons hdenotes .nil⟩
  -- a call with several outputs, used as a tensor
  have hsingle : ∀ op {e : Expr} {outputs : BuilderM (List Flat)} {P : Prop},
      Yields S types env P outputs (DenotesOutputs S types env calls values e) →
        Yields S types env P (do singleOutput op (← outputs))
            (DenotesTensor S types env calls values e) ∧
          Yields S types env P outputs (DenotesOutputs S types env calls values e) := by
    intro op e outputs P houtputs
    refine ⟨houtputs.bind fun flats => .of_lift ?_, houtputs⟩
    rintro ⟨-, vs, hvs, hflats⟩ flat hflat
    match flats with
    | [] | _ :: _ :: _ => cases hflat
    | [output] =>
        cases hflat
        cases hflats with
        | cons hdenotes hnil =>
            cases hnil
            exact ⟨_, by rw [evalTensor, hvs]; rfl, hdenotes⟩
  induction e with
  | var name =>
      refine fun stack => hone ((yields_flattenVar scope values name).mono ?_ ?_)
      · exact fun hvars => hvars name (by simp [Expr.subexprs])
      · rintro - flat ⟨v, hv, hflat⟩
        exact ⟨v, by rw [evalTensor_var, hv], hflat⟩
  | const value elem =>
      obtain ⟨v, hv, -⟩ := S.const_typed value elem
      have hconst : DenotesTensor S types env calls values (.const value elem)
          (.const value elem, ⟨elem, []⟩) :=
        ⟨v, (evalTensor_const ..).trans hv, (evalTensor_const ..), (evalTensor_const ..).trans hv⟩
      exact fun stack => hone (.of_pure fun _ => hconst)
  | unary op value ih =>
      intro stack
      apply hone
      have hvalue := (ih stack).1.mono
        (R := ∀ name ∈ (Expr.unary op value).vars, NameDenotes S types env scope values name)
        (fun hvars name hname => hvars name (by simpa [Expr.subexprs] using hname))
        fun _ _ hflat => hflat
      refine hvalue.bind fun flat => (yields_bindForwardAuto ?_).bind fun expr => .of_pure ?_
      · rintro ⟨-, v, -, hflat⟩ ty' hty'
        rw [evalTensor_unary, hflat.typed] at hty'
        have hnumeric : flat.2.elem.isNumeric = true ∧ flat.2 = ty' := by
          simpa [typeInterp, expectNumericElement, Option.bind_eq_some_iff] using hty'
        exact hnumeric.2.symm
      · rintro ⟨⟨-, v, hv, hflat⟩, w, hw, hexpr⟩
        rw [evalTensor_unary, hflat.value] at hw
        exact ⟨w, by rw [evalTensor_unary, hv]; exact hw, hexpr⟩
  | binary op lhs rhs ihl ihr =>
      intro stack
      apply hone
      have hlhs := (ihl stack).1.mono
        (R := ∀ name ∈ (Expr.binary op lhs rhs).vars, NameDenotes S types env scope values name)
        (fun hvars name hname => hvars name (by simp_all [Expr.subexprs]))
        fun _ _ hflat => hflat
      refine hlhs.bind fun l => ((ihr stack).1.mono (fun hvars name hname => hvars.1 name
        (by simp_all [Expr.subexprs])) fun _ _ hflat => hflat).bind fun r =>
          (Yields.of_lift (Q := fun ty => elementwiseType l.2 r.2 = .ok ty) fun _ _ h => h).bind
            fun ty => (yields_bindForwardAuto ?_).bind fun expr => .of_pure ?_
      · rintro ⟨⟨⟨-, vl, -, hl⟩, vr, -, hr⟩, hty⟩ ty' hty'
        rw [evalTensor_binary, hl.typed, hr.typed] at hty'
        have hresult := elementwiseType_of_binaryResultType (except_toOption_eq_some_iff.mp hty')
        exact Except.ok.inj (hresult.symm.trans hty)
      · rintro ⟨⟨⟨⟨-, vl, hvl, hl⟩, vr, hvr, hr⟩, -⟩, w, hw, hexpr⟩
        rw [evalTensor_binary, hl.value, hr.value] at hw
        exact ⟨w, by rw [evalTensor_binary, hvl, hvr]; exact hw, hexpr⟩
  | node nodeId value ih =>
      intro stack
      have hvars : (∀ name ∈ (Expr.node nodeId value).vars,
          NameDenotes S types env scope values name) →
          ∀ name ∈ value.vars, NameDenotes S types env scope values name :=
        fun h name hname => h name (by simpa [Expr.subexprs] using hname)
      refine ⟨(ih stack).1.mono hvars ?_, (ih stack).2.mono hvars fun _ _ h => h⟩
      rintro - flat ⟨v, hv, hflat⟩
      exact ⟨v, by rw [evalTensor_node, hv], hflat⟩
  | tupleGet tupleId value index ih =>
      intro stack
      apply hone
      have hvalue := (ih stack).2.mono
        (R := ∀ name ∈ (Expr.tupleGet tupleId value index).vars,
          NameDenotes S types env scope values name)
        (fun hvars name hname => hvars name (by simpa [Expr.subexprs] using hname))
        fun _ _ hflats => hflats
      refine hvalue.bind fun outputs => .of_lift ?_
      rintro ⟨-, vs, hvs, hflats⟩ flat hflat
      obtain ⟨v, hv, hdenotes⟩ := getElem?_of_forall₂ hflats (getElem?_of_projectOutput hflat)
      exact ⟨v, by rw [evalTensor_tupleGet, hvs]; exact hv, hdenotes⟩
  | call op args ih =>
      intro stack
      have hvars' : (∀ name ∈ (Expr.call op args).vars,
          NameDenotes S types env scope values name) → ∀ {arg}, arg ∈ args →
            ∀ name ∈ arg.vars, NameDenotes S types env scope values name := by
        intro hvars arg harg name hname
        refine hvars name ?_
        simp only [Expr.mem_vars, Expr.subexprs, List.mem_cons, reduceCtorEq,
          Expr.mem_subexprsList, false_or] at hname ⊢
        exact ⟨arg, harg, hname⟩
      have hargs : Yields S types env
          (∀ name ∈ (Expr.call op args).vars, NameDenotes S types env scope values name)
          (flattenArgs graphs inline scope args stack)
          (DenotesArgs S types env calls values args) := by
        exact (yields_flattenArgs stack fun arg harg => (ih arg harg stack).1).mono
          (fun hvars arg harg => hvars' hvars harg) fun _ _ hflats => hflats
      by_cases hop : isMultiOutput op = false
      · rw [flattenBoth_call hop]
        refine hone (yields_flattenSingleCall ?_ hargs)
        rintro name rfl
        cases hop
      · cases op with
        | graph name =>
            apply hsingle
            refine (Yields.of_lift (Q := fun graph => graphs.get name = some graph ∧
              graph.inputs.length = args.length) fun _ graph h => resolveGraph_eq_ok h).bind
                fun graph => ?_
            have hlocal := yields_flattenGraphArgs name (name :: stack)
              (fun arg harg => (ih arg harg (name :: stack)).1) graph.inputs (fun _ => none)
              (fun _ => none) []
            refine (hlocal.mono ?_ fun _ _ h => h).bind fun local_ => ?_
            · rintro ⟨hvars, -, hlen⟩
              exact ⟨hlen, fun arg harg => hvars' hvars harg, by simp⟩
            · exact yields_graphCall (hinline (name :: stack) name graph local_)
        | split axis sections =>
            exact hsingle _ (yields_flattenSplitOutputs henv axis sections hargs)
        | randomUniform target =>
            exact hsingle _ (yields_flattenMultiOutputCall (by simp) hargs)
        | randomInt target =>
            exact hsingle _ (yields_flattenMultiOutputCall (by simp) hargs)
        | _ => exact absurd rfl hop

/-! ### Callees -/

section Callee

variable (henv : S.EnvTyped types env)
  (hinline : ∀ stack name graph local_ args,
    Yields S types env ((graphs.get name = some graph ∧ graph.inputs.length = args.length) ∧
        ∀ input ∈ graph.inputs.map Input.name,
          NameDenotes S types env local_ (inputEnv graph args) input)
      (inline stack name graph local_) fun flats => ∃ ws, calls name args = some ws ∧
        List.Forall₂ (Denotes S types env) flats ws)

include henv hinline

/-- The lets of a callee leave a scope that stands for the values after them. -/
theorem yields_flattenGraphLets (stack : List String) (callee : String) (body : List Expr)
    (lets : List TypedLet) :
    ∀ (scope : Scope) (values : Env V) (names : List String),
      Yields S types env
        (LetsScoped names (lets.map TypedLet.binding) body ∧
          ∀ name ∈ names, NameDenotes S types env scope values name)
        (flattenGraphLets graphs inline stack callee lets scope) fun scope' =>
          ∃ values', evalLets S.interp calls values (lets.map TypedLet.binding) = some values' ∧
            ∀ e ∈ body, ∀ name ∈ e.vars, NameDenotes S types env scope' values' name := by
  induction lets with
  | nil =>
      intro scope values names
      refine .of_pure ?_
      rintro ⟨hscoped, hnames⟩
      exact ⟨values, rfl, fun e he name hname =>
        hnames name (hscoped e he name (Expr.mem_vars.mp hname))⟩
  | cons binding lets ih =>
      intro scope values names
      have hvalue := (yields_flattenBoth scope values henv hinline
        binding.value.kind stack).2.mono
        (R := LetsScoped names ((binding :: lets).map TypedLet.binding) body ∧
          ∀ name ∈ names, NameDenotes S types env scope values name)
        (fun h name hname => h.2 name (h.1.1 name (Expr.mem_vars.mp hname)))
        fun _ _ houtputs => houtputs
      refine hvalue.bind fun outputs => Yields.guarded ((Yields.of_lift (Q := fun scope' =>
        bindLocal callee binding.names binding.value.tys outputs scope = .ok scope')
          fun _ _ h => h).bind fun scope' => ?_) _
      -- the outputs are what the names are bound to
      have hrest : ∀ vs, Yields S types env
          ((LetsScoped (names ++ binding.names) (lets.map TypedLet.binding) body ∧
            ∀ name ∈ names ++ binding.names,
              NameDenotes S types env scope' (bindNames values binding.names vs) name) ∧
            evalLet S.interp calls values binding.binding =
              some (bindNames values binding.names vs))
          (flattenGraphLets graphs inline stack callee lets scope') fun scope'' =>
            ∃ values', evalLets S.interp calls values
                ((binding :: lets).map TypedLet.binding) = some values' ∧
              ∀ e ∈ body, ∀ name ∈ e.vars, NameDenotes S types env scope'' values' name := by
        refine fun vs => (ih scope' (bindNames values binding.names vs)
          (names ++ binding.names)).mono And.left ?_
        rintro ⟨-, hlet⟩ scope'' ⟨values', hvalues', hbody⟩
        refine ⟨values', ?_, hbody⟩
        rw [List.map_cons, evalLets, hlet]
        exact hvalues'
      refine (Yields.of_exists hrest).mono ?_ fun _ _ h => h
      rintro ⟨⟨⟨⟨hscoped, hnames⟩, vs, hvs, hflats⟩, hlen⟩, hbind⟩
      obtain ⟨hnameLen, htyLen⟩ := not_or.mp hlen
      have hsame : binding.names.length = outputs.length := (not_not.mp hnameLen).symm
      refine ⟨vs, ⟨hscoped.2.2, ?_⟩, ?_⟩
      · exact nameDenotes_bindLocal hnames hflats hsame (not_not.mp htyLen) hbind
      · exact evalLet_eq_some_iff.mpr ⟨vs, hvs, hsame.trans hflats.length_eq, rfl⟩

/-- The outputs of a callee. -/
theorem yields_flattenExprs (stack : List String) {scope : Scope} {values : Env V}
    (body : List TypedExpr) :
    Yields S types env
      (∀ e ∈ body.map TypedExpr.kind, ∀ name ∈ e.vars, NameDenotes S types env scope values name)
      (body.mapM fun e => flattenExprScoped graphs inline e.kind stack scope) fun flats =>
        ∃ vs, body.mapM (fun e => evalTensor S.interp calls values e.kind) = some vs ∧
          List.Forall₂ (Denotes S types env) flats vs := by
  induction body with
  | nil => exact .of_pure fun _ => ⟨[], rfl, .nil⟩
  | cons e body ih =>
      rw [List.mapM_cons]
      have hfirst := (yields_flattenBoth scope values henv hinline
        e.kind stack).1.mono
        (R := ∀ f ∈ (e :: body).map TypedExpr.kind, ∀ name ∈ f.vars,
          NameDenotes S types env scope values name)
        (fun hvars => hvars e.kind (List.mem_cons_self ..)) fun _ _ hflat => hflat
      refine hfirst.bind fun flat => (ih.mono (fun hvars f hf => hvars.1 f
        (List.mem_cons_of_mem _ hf)) fun _ _ hflats => hflats).bind fun flats => .of_pure ?_
      rintro ⟨⟨-, v, hv, hflat⟩, vs, hvs, hflats⟩
      exact ⟨v :: vs, by rw [List.mapM_cons, hv, hvs]; rfl, .cons hflat hflats⟩

theorem yields_flattenGraphBody (stack : List String) (callee : String) (graph : TypedGraph)
    {scope : Scope} {values : Env V} :
    Yields S types env
      (∀ e ∈ graph.body.map TypedExpr.kind, ∀ name ∈ e.vars,
        NameDenotes S types env scope values name)
      (flattenGraphBody graphs inline stack callee graph scope) fun flats =>
        ∃ vs, graph.body.mapM (fun e => evalTensor S.interp calls values e.kind) = some vs ∧
          List.Forall₂ (Denotes S types env) flats vs := by
  refine (yields_flattenExprs henv hinline stack graph.body).bind fun outputs => ?_
  exact Yields.guarded (Yields.guarded (.of_pure fun h => h.1.1.2) _) _

end Callee

end Expressions

/-- **Inlining denotes the call.** -/
theorem yields_inlineGraph {graphs : Registry} (henv : S.EnvTyped types env)
    (hgraphs : ∀ name callee, graphs.get name = some callee →
      LetsScoped (callee.inputs.map Input.name) (callee.lets.map TypedLet.binding)
        (callee.body.map TypedExpr.kind)) (depth : ℕ) :
    ∀ stack name graph local_ args,
      Yields S types env ((graphs.get name = some graph ∧ graph.inputs.length = args.length) ∧
          ∀ input ∈ graph.inputs.map Input.name,
            NameDenotes S types env local_ (inputEnv graph args) input)
        (inlineGraph graphs depth stack name graph local_) fun flats =>
          ∃ ws, callsAt S.interp graphs depth name args = some ws ∧
            List.Forall₂ (Denotes S types env) flats ws := by
  induction depth with
  | zero => exact fun _ _ _ _ _ => .of_throw _
  | succ depth ih =>
      intro stack name graph local_ args
      have hlets := (yields_flattenGraphLets henv ih stack name
        (graph.body.map TypedExpr.kind) graph.lets local_ (inputEnv graph args)
        (graph.inputs.map Input.name)).mono
        (R := (graphs.get name = some graph ∧ graph.inputs.length = args.length) ∧
          ∀ input ∈ graph.inputs.map Input.name,
            NameDenotes S types env local_ (inputEnv graph args) input)
        (fun h => ⟨hgraphs name graph h.1.1, h.2⟩) fun _ _ h => h
      refine hlets.bind fun scope => ?_
      -- the environment after the lets is the one in which the body is evaluated
      have hbody : ∀ values, Yields S types env
          ((graphs.get name = some graph ∧ graph.inputs.length = args.length) ∧
            evalLets S.interp (callsAt S.interp graphs depth) (inputEnv graph args)
              (graph.lets.map TypedLet.binding) = some values ∧
            ∀ e ∈ graph.body.map TypedExpr.kind, ∀ x ∈ e.vars,
              NameDenotes S types env scope values x)
          (flattenGraphBody graphs (inlineGraph graphs depth) stack name graph scope) fun flats =>
            ∃ ws, callsAt S.interp graphs (depth + 1) name args = some ws ∧
              List.Forall₂ (Denotes S types env) flats ws := by
        refine fun values => (yields_flattenGraphBody henv ih stack name graph).mono
          (fun h => h.2.2) ?_
        rintro ⟨⟨hget, hlen⟩, hvalues, -⟩ flats ⟨ws, hws, hflats⟩
        refine ⟨ws, ?_, hflats⟩
        rw [callsAt, hget, Option.bind_some, evalGraph, if_pos hlen, hvalues]
        exact hws
      have hempty : Nonempty (Env V) := ⟨fun _ => none⟩
      refine (Yields.of_exists hbody).mono ?_ fun _ _ h => h
      rintro ⟨⟨hgraph, -⟩, values, hvalues, hvars⟩
      exact ⟨values, hgraph, hvalues, hvars⟩

/-! ## The root graph -/

section Root

variable {graphs : Registry} {depth : ℕ} {values : Env V}

variable (S types) in
/-- A let of the root graph: its name denotes what its expression does. -/
theorem yields_bindForwardNode (name : String) (flat : Flat) :
    Yields S types env (∃ v, Denotes S types env flat v) (bindForwardNode name flat.1 flat.2)
      fun _ => ∀ v, Denotes S types env flat v → env name = some v := by
  intro s a s' hrun
  cases stateT_modify_eq_ok_iff.mp hrun
  refine ⟨List.prefix_append .., ?_⟩
  rintro ⟨v, hflat⟩ hhold hext
  obtain ⟨htypes, hvalues⟩ := hhold ⟨[name], flat.1⟩
    (List.mem_append_right _ (List.mem_singleton_self _))
  obtain ⟨ty, hty, hname⟩ := htypes.singleton
  obtain ⟨w, hw, hvalue⟩ := hvalues.singleton
  obtain rfl := Option.some.inj (hflat.typed.symm.trans hty)
  refine ⟨fun u hu => ?_, extends_update_left hext hname⟩
  rw [hvalue, ← hw, hu.value]

theorem nameDenotes_root {names : List String}
    (h : ∀ name ∈ names, NameDenotes S types env (fun _ => none) values name) {bound : String}
    {v : V} (hbound : env bound = some v) :
    ∀ name ∈ names ++ [bound], NameDenotes S types env (fun _ => none)
      (Function.update values bound (some v)) name := by
  intro name hname
  by_cases heq : name = bound
  · subst heq
    exact ⟨v, Function.update_self .., hbound⟩
  · obtain ⟨w, hw, hvalue⟩ := h name ((List.mem_append.mp hname).resolve_right
      fun hmem => heq (List.mem_singleton.mp hmem))
    exact ⟨w, by rwa [Function.update_of_ne heq], hvalue⟩

/-- Names of lets of the root graph stand for themselves. -/
theorem nameDenotes_bindNames {bound : List String} :
    ∀ {vs : List V} {values : Env V} {names : List String},
      (∀ name ∈ names, NameDenotes S types env (fun _ => none) values name) →
      bound.map env = vs.map some →
      ∀ name ∈ names ++ bound,
        NameDenotes S types env (fun _ => none) (bindNames values bound vs) name := by
  induction bound with
  | nil =>
      intro vs values names h _
      simpa using h
  | cons name bound ih =>
      intro vs values names h hvs
      cases vs with
      | nil => cases hvs
      | cons v vs =>
          rw [List.map_cons, List.map_cons, List.cons_eq_cons] at hvs
          have hrest := ih (nameDenotes_root h hvs.1) hvs.2
          simpa using hrest

/-- A let of the root graph: its names have the values of the outputs. -/
theorem yields_bindTypedLet {bound : List String} :
    ∀ {tys : List TensorType} {outputs : List Flat},
      Yields S types env
        ((bound.length = outputs.length ∧ outputs.length = tys.length) ∧
          ∃ vs, List.Forall₂ (Denotes S types env) outputs vs)
        (bindTypedLet bound tys outputs) fun _ =>
          ∀ vs, List.Forall₂ (Denotes S types env) outputs vs → bound.map env = vs.map some := by
  induction bound with
  | nil =>
      intro tys outputs
      refine .of_pure ?_
      rintro ⟨⟨hlen, -⟩, -⟩ vs hvs
      obtain rfl : outputs = [] := by simpa using hlen.symm
      cases hvs
      rfl
  | cons name bound ih =>
      intro tys outputs
      match outputs, tys with
      | [], [] | [], _ :: _ =>
          refine .of_pure ?_
          rintro ⟨⟨hlen, -⟩, -⟩
          cases hlen
      | _ :: _, [] =>
          refine .of_pure ?_
          rintro ⟨⟨-, hlen⟩, -⟩
          cases hlen
      | flat :: outputs, expected :: tys =>
          have hfirst := (yields_bindForwardNode S types name flat).mono
            (R := (((name :: bound).length = (flat :: outputs).length ∧
              (flat :: outputs).length = (expected :: tys).length) ∧
                ∃ vs, List.Forall₂ (Denotes S types env) (flat :: outputs) vs) ∧
              ¬ flat.2 ≠ expected)
            (by
              rintro ⟨⟨-, vs, hvs⟩, -⟩
              cases hvs with
              | cons hflat _ => exact ⟨_, hflat⟩)
            fun _ _ h => h
          refine Yields.guarded (hfirst.bind fun _ => ih.mono ?_ ?_) _
          · rintro ⟨⟨⟨⟨hlen, htys⟩, vs, hvs⟩, -⟩, -⟩
            cases hvs with
            | cons _ hrest => exact ⟨⟨Nat.succ.inj hlen, Nat.succ.inj htys⟩, _, hrest⟩
          · rintro ⟨-, hname⟩ _ hbound vs hvs
            cases hvs with
            | cons hflat hrest =>
                rw [List.map_cons, List.map_cons, hname _ hflat, hbound _ hrest]

variable (depth values) (henv : S.EnvTyped types env)
  (hgraphs : ∀ name callee, graphs.get name = some callee →
    LetsScoped (callee.inputs.map Input.name) (callee.lets.map TypedLet.binding)
      (callee.body.map TypedExpr.kind))

include henv hgraphs

/-- The value of a let of the root graph, flattened. -/
theorem yields_flattenExprOutputs (e : Expr) :
    Yields S types env (∀ name ∈ e.vars, NameDenotes S types env (fun _ => none) values name)
      (flattenExprOutputs graphs depth e)
      (DenotesOutputs S types env (callsAt S.interp graphs depth) values e) :=
  (yields_flattenBoth _ values henv (yields_inlineGraph henv hgraphs depth) e []).2

theorem yields_flattenExpr (e : Expr) :
    Yields S types env (∀ name ∈ e.vars, NameDenotes S types env (fun _ => none) values name)
      (flattenExpr graphs depth e)
      (DenotesTensor S types env (callsAt S.interp graphs depth) values e) :=
  (yields_flattenBoth _ values henv (yields_inlineGraph henv hgraphs depth) e []).1

theorem yields_flattenTypedLet (binding : TypedLet) (names : List String) :
    Yields S types env
      ((∀ name ∈ binding.value.kind.vars, name ∈ names) ∧
        ∀ name ∈ names, NameDenotes S types env (fun _ => none) values name)
      (flattenTypedLet graphs depth binding) fun _ => ∃ vs,
        evalLet S.interp (callsAt S.interp graphs depth) values binding.binding =
            some (bindNames values binding.names vs) ∧
          ∀ name ∈ names ++ binding.names, NameDenotes S types env (fun _ => none)
            (bindNames values binding.names vs) name := by
  have hvalue := (yields_flattenExprOutputs depth values henv hgraphs
    binding.value.kind).mono
    (R := ((∀ name ∈ binding.value.kind.vars, name ∈ names) ∧
      ∀ name ∈ names, NameDenotes S types env (fun _ => none) values name) ∧
        ¬ binding.names.length ≠ binding.value.tys.length)
    (fun h name hname => h.1.2 name (h.1.1 name hname)) fun _ _ h => h
  unfold flattenTypedLet flattenValueOutputs
  refine Yields.guarded (Yields.bind (hvalue.bind fun outputs =>
    Yields.guarded (Yields.guarded (.of_pure fun h => h.1.1.2) _) _) fun outputs => ?_) _
  refine Yields.guarded (yields_bindTypedLet.mono ?_ ?_) _
  · rintro ⟨⟨⟨-, hnameLen⟩, vs, -, hflats⟩, hlen⟩
    have hlen := not_not.mp hlen
    exact ⟨⟨hlen.symm, hlen.trans (not_not.mp hnameLen)⟩, vs, hflats⟩
  · rintro ⟨⟨⟨⟨-, hnames⟩, -⟩, vs, hvs, hflats⟩, hlen⟩ _ hbound
    refine ⟨vs, evalLet_eq_some_iff.mpr
      ⟨vs, hvs, (not_not.mp hlen).symm.trans hflats.length_eq, rfl⟩, ?_⟩
    exact nameDenotes_bindNames hnames (hbound vs hflats)

/-- The lets of the root graph. -/
theorem yields_flattenTypedLets {body : List Expr} (lets : List TypedLet) :
    ∀ (values : Env V) (names : List String),
      Yields S types env
        (LetsScoped names (lets.map TypedLet.binding) body ∧
          ∀ name ∈ names, NameDenotes S types env (fun _ => none) values name)
        (flattenTypedLets graphs depth lets) fun _ => ∃ values',
          evalLets S.interp (callsAt S.interp graphs depth) values
              (lets.map TypedLet.binding) = some values' ∧
            ∀ e ∈ body, ∀ name ∈ e.vars,
              NameDenotes S types env (fun _ => none) values' name := by
  induction lets with
  | nil =>
      intro values names
      refine .of_pure ?_
      rintro ⟨hscoped, hnames⟩
      exact ⟨values, rfl, fun e he name hname =>
        hnames name (hscoped e he name (Expr.mem_vars.mp hname))⟩
  | cons binding lets ih =>
      intro values names
      have hfirst := (yields_flattenTypedLet depth values henv hgraphs
        binding names).mono
        (R := LetsScoped names ((binding :: lets).map TypedLet.binding) body ∧
          ∀ name ∈ names, NameDenotes S types env (fun _ => none) values name)
        (fun h => ⟨fun name hname => h.1.1 name (Expr.mem_vars.mp hname), h.2⟩) fun _ _ h => h
      refine hfirst.bind fun _ => ?_
      have hrest : ∀ vs, Yields S types env
          ((LetsScoped (names ++ binding.names) (lets.map TypedLet.binding) body ∧
            ∀ name ∈ names ++ binding.names, NameDenotes S types env (fun _ => none)
              (bindNames values binding.names vs) name) ∧
            evalLet S.interp (callsAt S.interp graphs depth) values binding.binding =
              some (bindNames values binding.names vs))
          (flattenTypedLets graphs depth lets) fun _ => ∃ values',
            evalLets S.interp (callsAt S.interp graphs depth) values
                ((binding :: lets).map TypedLet.binding) = some values' ∧
              ∀ e ∈ body, ∀ name ∈ e.vars,
                NameDenotes S types env (fun _ => none) values' name := by
        refine fun vs => (ih (bindNames values binding.names vs)
          (names ++ binding.names)).mono And.left ?_
        rintro ⟨-, hlet⟩ _ ⟨values', hvalues', hbody⟩
        refine ⟨values', ?_, hbody⟩
        rw [List.map_cons, evalLets, hlet]
        exact hvalues'
      refine (Yields.of_exists hrest).mono ?_ fun _ _ h => h
      rintro ⟨⟨hscoped, -⟩, vs, hlet, hnames⟩
      exact ⟨vs, ⟨hscoped.2.2, hnames⟩, hlet⟩

/-- The environments in which the lets of the forward pass hold: one knows the types
recorded by the builder, the other has the value of the loss. -/
theorem flattenLoss_final {graph : TypedGraph}
    (hgraph : LetsScoped (graph.inputs.map Input.name) (graph.lets.map TypedLet.binding)
      (graph.body.map TypedExpr.kind)) {ty : TensorType} {s : Builder}
    (hrun : (flattenLoss graphs depth graph).run (.initial graph) = .ok (ty, s))
    (hhold : Hold S types env s.lets)
    (htypes : Env.Extends (inputEnv graph (graph.inputs.map Input.ty)) types) {args : List V}
    (hlen : graph.inputs.length = args.length) (hargs : Env.Extends (inputEnv graph args) env) :
    ∃ e rest values v, graph.body = e :: rest ∧
      evalLets S.interp (callsAt S.interp graphs depth) (inputEnv graph args)
        (graph.lets.map TypedLet.binding) = some values ∧
      evalTensor S.interp (callsAt S.interp graphs depth) values e.kind = some v ∧
      env (valueName graph) = some v ∧ Env.Extends s.env types := by
  obtain ⟨e, rest, expr, mid, last, hbody, -, hlets, hexpr, rfl⟩ := flattenLoss_eq_ok hrun
  obtain ⟨hgrows, hlets⟩ := yields_flattenTypedLets depth henv hgraphs graph.lets (inputEnv graph args)
    (graph.inputs.map Input.name) _ _ _ hlets
  have hroot : ∀ name ∈ graph.inputs.map Input.name,
      NameDenotes S types env (fun _ => none) (inputEnv graph args) name := by
    intro name hname
    obtain ⟨v, hv⟩ := (binds_inputEnv hlen name).mpr hname
    exact ⟨v, hv, hargs name v hv⟩
  have hvalue := fun values => yields_flattenExpr depth values henv hgraphs e.kind _ _ _ hexpr
  have hholdLast : Hold S types env last.lets := hhold.of_prefix (List.prefix_append ..)
  obtain ⟨⟨values, hvalues, hvars⟩, hext⟩ := hlets ⟨hgraph, hroot⟩
    (hholdLast.of_prefix (hvalue (inputEnv graph args)).1) htypes
  obtain ⟨⟨v, hv, hflat⟩, hextLast⟩ := (hvalue values).2
    (hvars e.kind (by rw [hbody]; exact List.mem_cons_self ..)) hholdLast hext
  have hloss := hhold ⟨[valueName graph], expr⟩
    (List.mem_append_right _ (List.mem_singleton_self _))
  obtain ⟨ty', hty', hnameTy⟩ := hloss.1.singleton
  obtain ⟨w, hw, hname⟩ := hloss.2.singleton
  obtain rfl := Option.some.inj (hflat.typed.symm.trans hty')
  refine ⟨e, rest, values, v, hbody, hvalues, hv, ?_, extends_update_left hextLast hnameTy⟩
  rw [hname, ← hw, hflat.value]

/-- **The forward pass denotes the loss.** -/
theorem flattenLoss_denotes {graph : TypedGraph}
    (hgraph : LetsScoped (graph.inputs.map Input.name) (graph.lets.map TypedLet.binding)
      (graph.body.map TypedExpr.kind)) {ty : TensorType} {s : Builder}
    (hrun : (flattenLoss graphs depth graph).run (.initial graph) = .ok (ty, s))
    (hhold : Hold S types env s.lets)
    (htypes : Env.Extends (inputEnv graph (graph.inputs.map Input.ty)) types) {args : List V}
    (hlen : graph.inputs.length = args.length) (hargs : Env.Extends (inputEnv graph args) env) :
    ∃ e rest values v, graph.body = e :: rest ∧
      evalLets S.interp (callsAt S.interp graphs depth) (inputEnv graph args)
        (graph.lets.map TypedLet.binding) = some values ∧
      evalTensor S.interp (callsAt S.interp graphs depth) values e.kind = some v ∧
      env (valueName graph) = some v := by
  obtain ⟨e, rest, values, v, hbody, hvalues, hv, hname, -⟩ :=
    flattenLoss_final depth henv hgraphs hgraph hrun hhold htypes hlen hargs
  exact ⟨e, rest, values, v, hbody, hvalues, hv, hname⟩

end Root

/-! ## The value-and-gradient graph -/

theorem calls_of_no_signatures (name : String) :
    TypeChecker.calls ⟨[], name⟩ = noCalls := by
  funext callee tys
  have herror : ∃ err, TypeChecker.resolve ⟨[], name⟩ callee tys.length = .error err := by
    unfold TypeChecker.resolve
    split_ifs
    · exact ⟨_, rfl⟩
    · exact ⟨_, rfl⟩
  obtain ⟨err, herr⟩ := herror
  rw [TypeChecker.calls, herr]
  rfl

variable (S) in
/-- **The environments in which a generated graph ends**: one of types, the same for
all arguments, and one of values, in which the lets hold. -/
theorem exists_finalEnv {graph typed : TypedGraph} {built : Graph} {graphs : Registry}
    {s : Builder} (hnames : graph.NoRebinding)
    (hbuild : (buildGraph graphs graph).run (.initial graph) = .ok (built, s))
    (hcheck : typeCheck built [] = .ok typed) {args : List V}
    (hargs : args.map S.typeOf = graph.inputs.map Input.ty) :
    ∃ types env,
      evalLets typeInterp noCalls (inputEnv graph (graph.inputs.map Input.ty))
        (typed.lets.map TypedLet.binding) = some types ∧
      evalLets S.interp noCalls (inputEnv graph args) (typed.lets.map TypedLet.binding) =
        some env ∧
      S.EnvTyped types env ∧ Hold S types env built.lets ∧
      Env.Extends (inputEnv graph (graph.inputs.map Input.ty)) types ∧
      Env.Extends (inputEnv graph args) env ∧
      ∀ e ∈ typed.body, evalTensor typeInterp noCalls types e.kind = some e.ty := by
  have hnames' := noRebinding_of_built hnames hbuild hcheck
  have hwell := wellTyped_of_typeCheck hcheck hnames'
  rw [calls_of_no_signatures] at hwell
  have hsame := sameGraph_of_typeCheck hcheck
  have hinputs : typed.inputs = graph.inputs := by
    obtain ⟨ty, mid, grads, gradients, -, -, -, rfl⟩ := buildGraph_eq_ok hbuild
    exact hsame.inputs
  obtain ⟨types, env, htypes, henvs, henv, hbody⟩ := TypedSemantics.exists_evalLets
    (S.callsTyped_noCalls noCalls) (TypedSemantics.envTyped_inputEnv typed (hinputs ▸ hargs))
    hwell.typed
  rw [hinputs, inputEnv_congr hinputs] at htypes
  rw [inputEnv_congr hinputs] at henvs
  have hlen : graph.inputs.length = args.length := by
    simpa using (congrArg List.length hargs).symm
  have hnodup : ((typed.lets.map TypedLet.binding).flatMap Prod.fst).Nodup := by
    simpa [List.flatMap_map, TypedLet.binding] using hnames'.lets
  have hnew : ∀ name ∈ (typed.lets.map TypedLet.binding).flatMap Prod.fst,
      name ∉ graph.inputs.map Input.name := by
    intro name hname
    rw [← hinputs]
    exact hnames'.inputs name (by simpa [List.flatMap_map, TypedLet.binding] using hname)
  obtain ⟨hexttypes, hsolveTypes⟩ := solves_of_evalLets typeInterp_strict
    (binds_inputEnv (by simp)) hnodup hnew htypes
  obtain ⟨hext, hsolve⟩ := solves_of_evalLets S.strict (binds_inputEnv hlen) hnodup hnew henvs
  refine ⟨types, env, htypes, henvs, henv, fun binding hbinding => ?_, hexttypes, hext, hbody⟩
  have hmem : binding.binding ∈ typed.lets.map TypedLet.binding := by
    rw [hsame.lets]
    exact List.mem_map_of_mem hbinding
  exact ⟨hsolveTypes _ hmem, hsolve _ hmem⟩

/-- The graphs are accepted, and none rebinds a name. -/
structure Callable (graph : TypedGraph) : Prop where
  accepted : graph.Accepted
  names : graph.NoRebinding

theorem Callable.letsScoped {graph : TypedGraph} (h : Callable graph) :
    LetsScoped (graph.inputs.map Input.name) (graph.lets.map TypedLet.binding)
      (graph.body.map TypedExpr.kind) := by
  obtain ⟨source, graphSignatures, hcheck⟩ := h.accepted
  exact (wellTyped_of_typeCheck hcheck h.names).letsScoped h.names

/-- An accepted graph of one output has one body. -/
theorem body_eq_singleton {graph : TypedGraph} (h : graph.Accepted)
    (hvalid : validateGraph graph = .ok ()) {e : TypedExpr} {rest : List TypedExpr}
    (hbody : graph.body = e :: rest) : rest = [] := by
  obtain ⟨source, graphSignatures, hcheck⟩ := h
  have hsame := sameGraph_of_typeCheck hcheck
  have hlength : graph.body.length = graph.outputs.length := by
    rw [hsame.outputs, ← hsame.tys, List.length_map]
  have hone : graph.outputs.length = 1 := by
    unfold validateGraph at hvalid
    split at hvalid
    · next houtputs => rw [houtputs]; rfl
    · cases hvalid
  rw [hone, hbody, List.length_cons] at hlength
  exact List.length_eq_zero_iff.mp (Nat.succ.inj hlength)

variable (S) in
/-- **Flattening for autograd preserves meaning.**  Under every interpretation of the
operations, the first output of a value-and-gradient graph is the loss of the
original graph on the same arguments, its calls resolved in the registry. -/
theorem valueAndGradGraph_denotes {graph typed : TypedGraph} {graphs : Registry}
    (hgraph : Callable graph)
    (hgraphs : ∀ name callee, graphs.get name = some callee → Callable callee)
    (h : valueAndGradGraphWithRegistry graph graphs = .ok typed) {args : List V}
    (hargs : args.map S.typeOf = graph.inputs.map Input.ty) {depth : ℕ}
    (hdepth : graphs.length ≤ depth) :
    ∃ v grads, evalGraph S.interp (callsAt S.interp graphs depth) graph args = some [v] ∧
      evalGraph S.interp noCalls typed args = some (v :: grads) := by
  obtain ⟨hvalid, built, s, hbuild, hcheck⟩ := valueAndGradGraph_eq_ok h
  obtain ⟨types, env, -, henvs, henv, hhold, hexttypes, hext, hbody⟩ :=
    exists_finalEnv S hgraph.names hbuild hcheck hargs
  obtain ⟨ty, mid, hflat, hgrows⟩ := lets_prefix_buildGraph hbuild
  have hlen : graph.inputs.length = args.length := by
    simpa using (congrArg List.length hargs).symm
  obtain ⟨e, rest, values, v, hgraphBody, hvalues, hv, hname⟩ := flattenLoss_denotes _ henv
    (fun name callee hget => (hgraphs name callee hget).letsScoped) hgraph.letsScoped hflat
    (hhold.of_prefix hgrows) hexttypes hlen hext
  obtain rfl := body_eq_singleton hgraph.accepted hvalid hgraphBody
  obtain ⟨vs, hvs, -⟩ := exists_evalBody (S.callsTyped_noCalls noCalls) henv hbody
  have hsame := sameGraph_of_typeCheck hcheck
  obtain ⟨ty', mid', grads, gradients, -, -, -, rfl⟩ := buildGraph_eq_ok hbuild
  obtain ⟨first, rest, htypedBody, hfirst, -⟩ := List.map_eq_cons_iff.mp hsame.body
  have hfirstValue : evalTensor S.interp noCalls env first.kind = some v := by
    rw [hfirst, evalTensor_var, hname]
  have htypedLen : typed.inputs.length = args.length := by
    rw [hsame.inputs]
    exact hlen
  -- the first output is the value of the loss
  obtain ⟨w, grads, hw, -, rfl⟩ := List.forall₂_cons_left_iff.mp
    (option_mapM_eq_some_iff.mp (htypedBody ▸ hvs))
  obtain rfl : w = v := Option.some.inj (hw.symm.trans hfirstValue)
  refine ⟨w, grads, evalGraph_mono_calls S.strict (callsAt_mono S.strict graphs hdepth) ?_, ?_⟩
  · rw [evalGraph, if_pos hlen, hvalues]
    show graph.body.mapM _ = _
    rw [hgraphBody, List.mapM_cons, hv]
    rfl
  · rw [evalGraph, if_pos htypedLen, inputEnv_congr hsame.inputs, henvs]
    exact hvs

end

theorem callable_doubleGraph : Callable doubleGraph :=
  ⟨doubleGraph_unambiguous.accepted, doubleGraph_unambiguous.names⟩

theorem callable_callerGraph : Callable callerGraph :=
  ⟨callerGraph_unambiguous.accepted, callerGraph_unambiguous.names⟩

theorem callable_registry :
    ∀ name callee, Registry.get [("double", doubleGraph)] name = some callee →
      Callable callee := by
  intro name callee hget
  rw [Registry.get, List.lookup_cons] at hget
  split at hget
  · cases hget
    exact callable_doubleGraph
  · cases hget

/-- A graph that calls another one twice. -/
theorem valueAndGradGraph_denotes_callerGraph : ∃ typed,
    valueAndGradGraphWithRegistry callerGraph [("double", doubleGraph)] = .ok typed ∧
      ∃ v grads, evalGraph typeSemantics.interp
          (callsAt typeSemantics.interp [("double", doubleGraph)] 1) callerGraph [⟨.f32, []⟩] =
            some [v] ∧
        evalGraph typeSemantics.interp noCalls typed [⟨.f32, []⟩] = some (v :: grads) := by
  have hsome : (valueAndGradGraphWithRegistry callerGraph
      [("double", doubleGraph)]).toOption.isSome = true := by decide +kernel
  obtain ⟨typed, htyped⟩ := Option.isSome_iff_exists.mp hsome
  have h := except_toOption_eq_some_iff.mp htyped
  exact ⟨typed, h, valueAndGradGraph_denotes typeSemantics callable_callerGraph
    callable_registry h rfl le_rfl⟩

end Knok.Autograd
