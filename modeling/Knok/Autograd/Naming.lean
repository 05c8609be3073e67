import Mathlib
import Knok.Typing
import Knok.Autograd.ValueAndGrad

/-!
# Names of the generated lets

Whatever the flattening does to the builder, it does it through the two steps
that take generated names, `bindForwardAuto` and `bindForwardOutputsAuto`;
`moves_flattenBoth` turns a property of these steps into a property of every
flattening.  The first use is naming: generated names are distinct from every
name in use, so the lets of the value-and-gradient graph do not rebind a name if
the original graph does not.
-/

namespace Knok.Autograd

open Control

/-! ## What flattening does to the builder -/

section Flattening

variable {graphs : Registry} {R : Builder → Builder → Prop} [IsPreorder Builder R]

theorem moves_flattenVar (scope : Scope) (name : String) :
    Moves R (flattenVar scope name) := by
  unfold flattenVar
  cases scope name with
  | some flat => exact .of_pure _
  | none =>
      refine Moves.of_get.bind fun s => ?_
      cases s.env name with
      | some ty => exact .of_pure _
      | none => exact .of_throw _

theorem moves_flattenSections (hauto : ∀ expr ty, Moves R (bindForwardAuto expr ty))
    (axis : ℕ) (input : Flat) (tys : List TensorType) :
    ∀ offset, Moves R (flattenSections axis input offset tys) := by
  induction tys with
  | nil => exact fun _ => .of_pure _
  | cons ty tys ih =>
      intro offset
      exact (hauto _ _).bind fun expr => (ih _).bind fun rest => .of_pure _

theorem moves_flattenSplitOutputs (hauto : ∀ expr ty, Moves R (bindForwardAuto expr ty))
    (axis : ℕ) (sections : List ℕ) (args : List Expr) {flatArgs : BuilderM (List Flat)}
    (hargs : Moves R flatArgs) :
    Moves R (flattenSplitOutputs axis sections args flatArgs) := by
  unfold flattenSplitOutputs
  split
  · exact Moves.of_throw _
  refine hargs.bind fun flats => ?_
  rcases flats with _ | ⟨input, _ | ⟨_, _⟩⟩
  · exact .of_throw _
  · exact (Moves.of_lift _).bind fun tys => moves_flattenSections hauto axis input tys 0
  · exact .of_throw _

theorem moves_flattenMultiOutputCall
    (hmulti : ∀ expr tys, Moves R (bindForwardOutputsAuto expr tys)) (op : CallOp)
    {flatArgs : BuilderM (List Flat)} (hargs : Moves R flatArgs) :
    Moves R (flattenMultiOutputCall op flatArgs) := by
  unfold flattenMultiOutputCall
  refine hargs.bind fun args => (Moves.of_lift _).bind fun tys => ?_
  dsimp only
  split
  · exact (Moves.of_throw _).bind fun _ => hmulti _ _
  · exact hmulti _ _

theorem moves_flattenSingleCall (hauto : ∀ expr ty, Moves R (bindForwardAuto expr ty))
    (op : CallOp) {flatArgs : BuilderM (List Flat)} (hargs : Moves R flatArgs) :
    Moves R (flattenSingleCall op flatArgs) := by
  unfold flattenSingleCall
  refine hargs.bind fun args => (Moves.of_lift _).bind fun results => ?_
  match results with
  | [] => exact .of_throw _
  | [ty] => exact (hauto _ _).bind fun expr => .of_pure _
  | _ :: _ :: _ => exact .of_throw _

variable {inline : List String → String → TypedGraph → Scope → BuilderM (List Flat)}

theorem moves_flattenArgs {scope : Scope} {args : List Expr} (stack : List String)
    (h : ∀ arg ∈ args, Moves R (flattenBoth graphs inline scope arg stack).1) :
    Moves R (flattenArgs graphs inline scope args stack) := by
  induction args with
  | nil => exact .of_pure _
  | cons arg args ih =>
      exact (h arg (List.mem_cons_self ..)).bind fun flat =>
        (ih fun a ha => h a (List.mem_cons_of_mem _ ha)).bind fun flats => .of_pure _

theorem moves_flattenGraphArgs {scope : Scope} (name : String) {args : List Expr}
    (stack : List String)
    (h : ∀ arg ∈ args, Moves R (flattenBoth graphs inline scope arg stack).1) :
    ∀ (inputs : List Input) (local_ : Scope),
      Moves R (flattenGraphArgs graphs inline scope name args stack inputs local_) := by
  induction args with
  | nil => exact fun _ _ => .of_pure _
  | cons arg args ih =>
      intro inputs local_
      cases inputs with
      | nil => exact .of_pure _
      | cons input inputs =>
          refine (h arg (List.mem_cons_self ..)).bind fun flat => ?_
          have hrest := fun local_ =>
            ih (fun a ha => h a (List.mem_cons_of_mem _ ha)) inputs local_
          dsimp only
          split
          · exact (Moves.of_throw _).bind fun _ => hrest _
          · exact hrest _

/-- The operations that may have several outputs. -/
def isMultiOutput : CallOp → Bool
  | .graph _ | .split _ _ | .randomUniform _ | .randomInt _ => true
  | _ => false

/-- Flattening any other operation. -/
theorem flattenBoth_call {op : CallOp} (h : isMultiOutput op = false) (scope : Scope)
    (args : List Expr) (stack : List String) :
    flattenBoth graphs inline scope (.call op args) stack =
      (flattenSingleCall op (flattenArgs graphs inline scope args stack), do
        return [← flattenSingleCall op (flattenArgs graphs inline scope args stack)]) := by
  cases op <;> first | rfl | cases h

/-- **Flattening moves the builder along every preorder that its two binding
steps follow.** -/
theorem moves_flattenBoth (hauto : ∀ expr ty, Moves R (bindForwardAuto expr ty))
    (hmulti : ∀ expr tys, Moves R (bindForwardOutputsAuto expr tys))
    (hinline : ∀ stack name graph local_, Moves R (inline stack name graph local_))
    (scope : Scope) (e : Expr) :
    ∀ stack, Moves R (flattenBoth graphs inline scope e stack).1 ∧
      Moves R (flattenBoth graphs inline scope e stack).2 := by
  -- an expression with one output: its outputs are that one
  have hone : ∀ {flat : BuilderM Flat}, Moves R flat →
      Moves R flat ∧ Moves R (do return [← flat]) :=
    fun hflat => ⟨hflat, hflat.bind fun _ => .of_pure _⟩
  have hsingle : ∀ op {outputs : BuilderM (List Flat)}, Moves R outputs →
      Moves R (do singleOutput op (← outputs)) ∧ Moves R outputs :=
    fun op _ houtputs => ⟨houtputs.bind fun _ => .of_lift _, houtputs⟩
  induction e with
  | var name => exact fun stack => hone (moves_flattenVar scope name)
  | const value elem => exact fun stack => ⟨.of_pure _, .of_pure _⟩
  | unary op value ih =>
      exact fun stack => hone ((ih stack).1.bind fun flat => (hauto _ _).bind fun _ => .of_pure _)
  | binary op lhs rhs ihl ihr =>
      exact fun stack => hone ((ihl stack).1.bind fun l => (ihr stack).1.bind fun r =>
        (Moves.of_lift _).bind fun ty => (hauto _ _).bind fun _ => .of_pure _)
  | node nodeId value ih => exact ih
  | tupleGet tupleId value index ih =>
      exact fun stack => hone ((ih stack).2.bind fun outputs => .of_lift _)
  | call op args ih =>
      intro stack
      have hargs : Moves R (flattenArgs graphs inline scope args stack) :=
        moves_flattenArgs stack fun arg harg => (ih arg harg stack).1
      by_cases hop : isMultiOutput op = false
      · rw [flattenBoth_call hop]
        exact hone (moves_flattenSingleCall hauto op hargs)
      · cases op with
        | graph name =>
            refine hsingle _ ((Moves.of_lift _).bind fun graph => ?_)
            exact (moves_flattenGraphArgs name _ (fun arg harg => (ih arg harg _).1) _ _).bind
              fun local_ => hinline _ _ _ _
        | split axis sections =>
            exact hsingle _ (moves_flattenSplitOutputs hauto _ _ _ hargs)
        | randomUniform target =>
            exact hsingle _ (moves_flattenMultiOutputCall hmulti _ hargs)
        | randomInt target =>
            exact hsingle _ (moves_flattenMultiOutputCall hmulti _ hargs)
        | _ => exact absurd rfl hop

/-- The loop over the lets of a callee. -/
theorem moves_flattenGraphLets (hauto : ∀ expr ty, Moves R (bindForwardAuto expr ty))
    (hmulti : ∀ expr tys, Moves R (bindForwardOutputsAuto expr tys))
    (hinline : ∀ stack name graph local_, Moves R (inline stack name graph local_))
    (stack : List String) (name : String) (lets : List TypedLet) :
    ∀ local_, Moves R (flattenGraphLets graphs inline stack name lets local_) := by
  induction lets with
  | nil => exact fun local_ => .of_pure _
  | cons binding lets ih =>
      intro local_
      refine (moves_flattenBoth hauto hmulti hinline _ _ _).2.bind fun outputs => ?_
      have hrest : Moves R (do
          let local_ ← bindLocal name binding.names binding.value.tys outputs local_
          flattenGraphLets graphs inline stack name lets local_ : BuilderM Scope) :=
        (Moves.of_lift _).bind fun local_ => ih local_
      dsimp only
      split
      · exact (Moves.of_throw _).bind fun _ => hrest
      · exact hrest

theorem moves_flattenGraphBody (hauto : ∀ expr ty, Moves R (bindForwardAuto expr ty))
    (hmulti : ∀ expr tys, Moves R (bindForwardOutputsAuto expr tys))
    (hinline : ∀ stack name graph local_, Moves R (inline stack name graph local_))
    (stack : List String) (name : String) (graph : TypedGraph) (local_ : Scope) :
    Moves R (flattenGraphBody graphs inline stack name graph local_) := by
  refine (Moves.of_mapM fun e _ =>
    (moves_flattenBoth hauto hmulti hinline _ _ _).1).bind fun outputs => ?_
  dsimp only
  split
  · exact (Moves.of_throw _).bind fun _ => by
      split
      · exact (Moves.of_throw _).bind fun _ => .of_pure _
      · exact .of_pure _
  · split
    · exact (Moves.of_throw _).bind fun _ => .of_pure _
    · exact .of_pure _

/-- Inlining at any depth. -/
theorem moves_inlineGraph (hauto : ∀ expr ty, Moves R (bindForwardAuto expr ty))
    (hmulti : ∀ expr tys, Moves R (bindForwardOutputsAuto expr tys)) (depth : ℕ) :
    ∀ stack name graph local_, Moves R (inlineGraph graphs depth stack name graph local_) := by
  induction depth with
  | zero => exact fun _ _ _ _ => .of_throw _
  | succ depth ih =>
      intro stack name graph local_
      exact (moves_flattenGraphLets hauto hmulti ih stack name graph.lets local_).bind fun local_ =>
        moves_flattenGraphBody hauto hmulti ih stack name graph local_

theorem moves_flattenExprOutputs (hauto : ∀ expr ty, Moves R (bindForwardAuto expr ty))
    (hmulti : ∀ expr tys, Moves R (bindForwardOutputsAuto expr tys)) (depth : ℕ) (e : Expr) :
    Moves R (flattenExprOutputs graphs depth e) :=
  (moves_flattenBoth hauto hmulti (moves_inlineGraph hauto hmulti depth) _ e _).2

theorem moves_flattenExpr (hauto : ∀ expr ty, Moves R (bindForwardAuto expr ty))
    (hmulti : ∀ expr tys, Moves R (bindForwardOutputsAuto expr tys)) (depth : ℕ) (e : Expr) :
    Moves R (flattenExpr graphs depth e) :=
  (moves_flattenBoth hauto hmulti (moves_inlineGraph hauto hmulti depth) _ e _).1

end Flattening

/-! ## Fresh names -/

/-- Lets are added under distinct names that were not in use. -/
def AddsFresh (s s' : Builder) : Prop :=
  s.usedNames ⊆ s'.usedNames ∧ ∃ lets, s'.lets = s.lets ++ lets ∧
    (lets.flatMap Let.names).Nodup ∧
      ∀ name ∈ lets.flatMap Let.names, name ∉ s.usedNames ∧ name ∈ s'.usedNames

instance : IsPreorder Builder AddsFresh where
  refl s := ⟨List.Subset.refl _, [], by simp, by simp, by simp⟩
  trans := by
    rintro s₁ s₂ s₃ ⟨hused, lets, hlets, hnodup, hnew⟩ ⟨hused', lets', hlets', hnodup', hnew'⟩
    refine ⟨List.Subset.trans hused hused', lets ++ lets', by simp [hlets', hlets], ?_, ?_⟩
    · rw [List.flatMap_append, List.nodup_append]
      refine ⟨hnodup, hnodup', fun name hname name' hname' => ?_⟩
      rintro rfl
      exact (hnew' name hname').1 (hnew name hname).2
    · intro name hname
      rw [List.flatMap_append] at hname
      rcases List.mem_append.mp hname with hname | hname
      · exact ⟨(hnew name hname).1, hused' (hnew name hname).2⟩
      · exact ⟨fun hmem => (hnew' name hname).1 (hused hmem), (hnew' name hname).2⟩

/-- A let under the next generated name. -/
theorem addsFresh_of_takeName {s s' : Builder} {expr : Expr}
    (hused : s'.usedNames = s.takeName.usedNames)
    (hlets : s'.lets = s.lets ++ [⟨[s.autoName], expr⟩]) : AddsFresh s s' := by
  rw [AddsFresh, hused]
  refine ⟨List.subset_cons_self _ _, [⟨[s.autoName], expr⟩], hlets, List.nodup_singleton _, ?_⟩
  intro name hname
  obtain rfl : name = s.autoName := by simpa using hname
  exact ⟨s.autoName_not_mem, List.mem_cons_self ..⟩

theorem addsFresh_bindForwardAuto (expr : Expr) (ty : TensorType) :
    Moves AddsFresh (bindForwardAuto expr ty) := by
  intro s a s' hrun
  obtain ⟨-, rfl⟩ := Prod.mk.inj (Except.ok.inj hrun)
  exact addsFresh_of_takeName rfl rfl

theorem addsFresh_bindAuto (expr : Expr) (ty : TensorType) :
    Moves AddsFresh (bindAuto expr ty) := by
  intro s a s' hrun
  obtain ⟨-, rfl⟩ := Prod.mk.inj (Except.ok.inj hrun)
  exact addsFresh_of_takeName rfl rfl

/-- What taking several generated names does. -/
structure TakesNames (s : Builder) (count : ℕ) (names : List String) (s' : Builder) : Prop where
  length : names.length = count
  nodup : names.Nodup
  fresh : ∀ name ∈ names, name ∉ s.usedNames ∧ name ∈ s'.usedNames
  used : s.usedNames ⊆ s'.usedNames
  lets : s'.lets = s.lets
  env : s'.env = s.env
  forwardNodes : s'.forwardNodes = s.forwardNodes
  grads : s'.grads = s.grads

theorem takesNames_nextAutoNames (count : ℕ) :
    ∀ {s : Builder} {names : List String} {s' : Builder},
      (nextAutoNames count).run s = .ok (names, s') → TakesNames s count names s' := by
  induction count with
  | zero =>
      intro s names s' hrun
      cases stateT_pure_eq_ok_iff.mp hrun
      exact ⟨rfl, List.nodup_nil, by simp, List.Subset.refl _, rfl, rfl, rfl, rfl⟩
  | succ count ih =>
      intro s names s' hrun
      obtain ⟨name, mid, hfirst, hrest⟩ := stateT_bind_eq_ok_iff.mp hrun
      obtain ⟨rfl, rfl⟩ := Prod.mk.inj (Except.ok.inj hfirst)
      obtain ⟨rest, last, hrest, hdone⟩ := stateT_bind_eq_ok_iff.mp hrest
      cases stateT_pure_eq_ok_iff.mp hdone
      have h := ih hrest
      have hself : s.autoName ∈ s.takeName.usedNames := List.mem_cons_self ..
      refine ⟨by rw [List.length_cons, h.length], List.nodup_cons.mpr ⟨?_, h.nodup⟩, ?_,
        List.Subset.trans (List.subset_cons_self _ _) h.used, h.lets, h.env, h.forwardNodes,
        h.grads⟩
      · exact fun hmem => (h.fresh _ hmem).1 hself
      · intro name hname
        rcases List.mem_cons.mp hname with rfl | hname
        · exact ⟨s.autoName_not_mem, h.used hself⟩
        · exact ⟨fun hmem => (h.fresh name hname).1 (List.mem_cons_of_mem _ hmem),
            (h.fresh name hname).2⟩

theorem addsFresh_bindForwardOutputsAuto (expr : Expr) (tys : List TensorType) :
    Moves AddsFresh (bindForwardOutputsAuto expr tys) := by
  intro s a s' hrun
  obtain ⟨names, mid, hnames, hrest⟩ := stateT_bind_eq_ok_iff.mp hrun
  obtain ⟨-, rfl⟩ := Prod.mk.inj (Except.ok.inj hrest)
  have h := takesNames_nextAutoNames _ hnames
  refine ⟨h.used, [⟨names, expr⟩], ?_, by simpa using h.nodup, fun name hname => ?_⟩
  · show mid.lets ++ [⟨names, expr⟩] = _
    rw [h.lets]
  · exact h.fresh name (by simpa using hname)

/-! ## The names of the emitted lets -/

/-- The names bound so far: distinct, all in use, and of those that were in use at
the beginning only `bound`. -/
structure NamesKept (used bound : List String) (s : Builder) : Prop where
  inherits : used ⊆ s.usedNames
  nodup : (s.lets.flatMap Let.names).Nodup
  inUse : ∀ name ∈ s.lets.flatMap Let.names, name ∈ s.usedNames
  kept : ∀ name ∈ s.lets.flatMap Let.names, name ∈ used → name ∈ bound

section Root

variable {used bound : List String} {s s' : Builder}

theorem NamesKept.addsFresh (h : NamesKept used bound s) (hadds : AddsFresh s s') :
    NamesKept used bound s' := by
  obtain ⟨hused, lets, hlets, hnodup, hnew⟩ := hadds
  refine ⟨List.Subset.trans h.inherits hused, ?_, ?_, ?_⟩
  · rw [hlets, List.flatMap_append, List.nodup_append]
    refine ⟨h.nodup, hnodup, fun name hname name' hname' => ?_⟩
    rintro rfl
    exact (hnew name hname').1 (h.inUse name hname)
  · intro name hname
    rw [hlets, List.flatMap_append] at hname
    rcases List.mem_append.mp hname with hname | hname
    · exact hused (h.inUse name hname)
    · exact (hnew name hname).2
  · intro name hname hmem
    rw [hlets, List.flatMap_append] at hname
    rcases List.mem_append.mp hname with hname | hname
    · exact h.kept name hname hmem
    · exact absurd (h.inherits hmem) (hnew name hname).1

/-- A let under a name of the original graph that is not bound yet. -/
theorem NamesKept.bindForward (h : NamesKept used bound s) {name : String} (hused : name ∈ used)
    (hnew : name ∉ bound) (expr : Expr) (ty : TensorType) :
    NamesKept used (bound ++ [name]) (s.bindForward name expr ty) := by
  have hnames : (s.bindForward name expr ty).lets.flatMap Let.names =
      s.lets.flatMap Let.names ++ [name] := by
    show (s.lets ++ [Let.mk [name] expr]).flatMap Let.names = _
    rw [List.flatMap_append]
    rfl
  refine ⟨h.inherits, ?_, ?_, ?_⟩
  · rw [hnames, List.nodup_append]
    refine ⟨h.nodup, List.nodup_singleton _, fun other hother other' hother' => ?_⟩
    rw [List.mem_singleton.mp hother']
    rintro rfl
    exact hnew (h.kept other hother hused)
  · rw [hnames]
    intro other hother
    rcases List.mem_append.mp hother with hother | hother
    · exact h.inUse other hother
    · rw [List.mem_singleton.mp hother]
      exact h.inherits hused
  · rw [hnames]
    intro other hother hmem
    rcases List.mem_append.mp hother with hother | hother
    · exact List.mem_append_left _ (h.kept other hother hmem)
    · exact List.mem_append_right _ hother

theorem NamesKept.bindTypedLet {names : List String} :
    ∀ {tys : List TensorType} {outputs : List Flat} {bound : List String} {s s' : Builder},
      NamesKept used bound s → names ⊆ used → (bound ++ names).Nodup →
      (bindTypedLet names tys outputs).run s = .ok ((), s') →
      NamesKept used (bound ++ names) s' := by
  induction names with
  | nil =>
      intro tys outputs bound s s' h _ _ hrun
      cases stateT_pure_eq_ok_iff.mp hrun
      rwa [List.append_nil]
  | cons name names ih =>
      intro tys outputs bound s s' h hused hnodup hrun
      have hweaken : NamesKept used (bound ++ name :: names) s :=
        ⟨h.inherits, h.nodup, h.inUse,
          fun other hother hmem => List.mem_append_left _ (h.kept other hother hmem)⟩
      match tys, outputs with
      | [], _ =>
          cases stateT_pure_eq_ok_iff.mp hrun
          exact hweaken
      | _ :: _, [] =>
          cases stateT_pure_eq_ok_iff.mp hrun
          exact hweaken
      | expected :: tys, (expr, ty) :: outputs =>
          rw [Autograd.bindTypedLet] at hrun
          by_cases hty : ty ≠ expected
          · rw [if_pos hty] at hrun
            obtain ⟨_, _, hthrow, -⟩ := stateT_bind_eq_ok_iff.mp hrun
            exact absurd hthrow (by simp)
          · rw [if_neg hty] at hrun
            obtain ⟨_, mid, hbind, hrest⟩ := stateT_bind_eq_ok_iff.mp hrun
            cases stateT_modify_eq_ok_iff.mp hbind
            have hname : name ∉ bound := by
              intro hmem
              exact (List.nodup_append.mp hnodup).2.2 name hmem name (List.mem_cons_self ..) rfl
            have hnext := h.bindForward (hused (List.mem_cons_self ..)) hname expr ty
            have hlast := ih hnext (fun other hother => hused (List.mem_cons_of_mem _ hother))
              (by simpa using hnodup) hrest
            simpa using hlast

theorem NamesKept.flattenTypedLet {graphs : Registry} {depth : ℕ} {binding : TypedLet}
    (h : NamesKept used bound s) (hused : binding.names ⊆ used)
    (hnodup : (bound ++ binding.names).Nodup)
    (hrun : (flattenTypedLet graphs depth binding).run s = .ok ((), s')) :
    NamesKept used (bound ++ binding.names) s' := by
  rw [Autograd.flattenTypedLet] at hrun
  obtain ⟨outputs, mid, hvalue, hrest⟩ : ∃ outputs mid,
      (flattenExprOutputs graphs depth binding.value.kind).run s = .ok (outputs, mid) ∧
        (Autograd.bindTypedLet binding.names binding.value.tys outputs).run mid = .ok ((), s') := by
    split_ifs at hrun
    · obtain ⟨_, _, hthrow, -⟩ := stateT_bind_eq_ok_iff.mp hrun
      exact absurd hthrow (by simp)
    · obtain ⟨outputs, mid, hvalue, hrest⟩ := stateT_bind_eq_ok_iff.mp hrun
      obtain ⟨outputs', mid', houtputs, hchecks⟩ := stateT_bind_eq_ok_iff.mp hvalue
      have hsame : outputs' = outputs ∧ mid' = mid := by
        split_ifs at hchecks <;> simp_all
      obtain ⟨rfl, rfl⟩ := hsame
      refine ⟨outputs', mid', houtputs, ?_⟩
      split_ifs at hrest
      · obtain ⟨_, _, hthrow, -⟩ := stateT_bind_eq_ok_iff.mp hrest
        exact absurd hthrow (by simp)
      · exact hrest
  have hadds := moves_flattenExprOutputs addsFresh_bindForwardAuto
    addsFresh_bindForwardOutputsAuto depth binding.value.kind _ _ _ hvalue
  exact (h.addsFresh hadds).bindTypedLet hused hnodup hrest

theorem NamesKept.flattenTypedLets {graphs : Registry} {depth : ℕ} {lets : List TypedLet} :
    ∀ {bound : List String} {s s' : Builder}, NamesKept used bound s →
      lets.flatMap TypedLet.names ⊆ used → (bound ++ lets.flatMap TypedLet.names).Nodup →
      (flattenTypedLets graphs depth lets).run s = .ok ((), s') →
      NamesKept used (bound ++ lets.flatMap TypedLet.names) s' := by
  induction lets with
  | nil =>
      intro bound s s' h _ _ hrun
      cases stateT_pure_eq_ok_iff.mp hrun
      simpa using h
  | cons binding lets ih =>
      intro bound s s' h hused hnodup hrun
      rw [List.flatMap_cons] at hused hnodup ⊢
      rw [← List.append_assoc] at hnodup ⊢
      obtain ⟨⟨⟩, mid, hfirst, hrest⟩ := stateT_bind_eq_ok_iff.mp hrun
      have hnext := h.flattenTypedLet (fun name hname => hused (List.mem_append_left _ hname))
        (List.nodup_append.mp hnodup).1 hfirst
      exact ih hnext (fun name hname => hused (List.mem_append_right _ hname)) hnodup hrest

end Root

theorem addsFresh_gradientOutputs (inputs : List Input) :
    Moves AddsFresh (gradientOutputs inputs) := by
  induction inputs with
  | nil => exact .of_pure _
  | cons input inputs ih =>
      have hone : Moves AddsFresh (gradientOutputForInput input) := by
        unfold gradientOutputForInput
        refine Moves.of_get.bind fun s => Moves.bind ?_ fun _ => addsFresh_bindAuto _ _
        exact .of_modify fun s => ⟨List.Subset.refl _, [], by simp, by simp, by simp⟩
      exact hone.bind fun grad => ih.bind fun rest => .of_pure _

theorem valueName_not_mem (graph : TypedGraph) : valueName graph ∉ graph.boundNames :=
  uniqueName_not_mem _ _

/-- The stages of a successful forward pass. -/
theorem flattenLoss_eq_ok {graphs : Registry} {depth : ℕ} {graph : TypedGraph} {ty : TensorType}
    {s : Builder} (h : (flattenLoss graphs depth graph).run (.initial graph) = .ok (ty, s)) :
    ∃ e rest expr mid last, graph.body = e :: rest ∧ e.ty = ty ∧
      (flattenTypedLets graphs depth graph.lets).run (.initial graph) = .ok ((), mid) ∧
      (flattenExpr graphs depth e.kind).run mid = .ok ((expr, ty), last) ∧
      s = last.bindForward (valueName graph) expr ty := by
  obtain ⟨⟨⟩, mid, hlets, hrest⟩ := stateT_bind_eq_ok_iff.mp h
  cases hbody : graph.body with
  | nil => rw [hbody] at hrest; exact absurd hrest (by simp)
  | cons e rest =>
      rw [hbody] at hrest
      obtain ⟨⟨expr, valueTy⟩, last, hflat, hrest⟩ := stateT_bind_eq_ok_iff.mp hrest
      by_cases hty : valueTy ≠ e.ty
      · simp only [if_pos hty] at hrest
        obtain ⟨_, _, hthrow, -⟩ := stateT_bind_eq_ok_iff.mp hrest
        exact absurd hthrow (by simp)
      · simp only [if_neg hty] at hrest
        obtain ⟨_, last', hbind, hdone⟩ := stateT_bind_eq_ok_iff.mp hrest
        cases stateT_modify_eq_ok_iff.mp hbind
        cases stateT_pure_eq_ok_iff.mp hdone
        exact ⟨e, rest, expr, mid, last, rfl, (not_not.mp hty).symm, hlets, hflat, rfl⟩

/-- The names bound by the forward pass. -/
theorem namesKept_flattenLoss {graphs : Registry} {depth : ℕ} {graph : TypedGraph}
    (hnames : graph.NoRebinding) {ty : TensorType} {s : Builder}
    (h : (flattenLoss graphs depth graph).run (.initial graph) = .ok (ty, s)) :
    NamesKept (valueName graph :: graph.boundNames)
      (graph.lets.flatMap TypedLet.names ++ [valueName graph]) s := by
  obtain ⟨e, rest, expr, mid, last, -, -, hlets, hflat, rfl⟩ := flattenLoss_eq_ok h
  have hinitial : NamesKept (valueName graph :: graph.boundNames) [] (.initial graph) :=
    ⟨List.Subset.refl _, by simp [Builder.initial], by simp [Builder.initial],
      by simp [Builder.initial]⟩
  have hused : graph.lets.flatMap TypedLet.names ⊆ valueName graph :: graph.boundNames :=
    fun name hname => List.mem_cons_of_mem _ (List.mem_append_right _ hname)
  have hmid := hinitial.flattenTypedLets hused (by simpa using hnames.lets) hlets
  rw [List.nil_append] at hmid
  have hadds := moves_flattenExpr addsFresh_bindForwardAuto addsFresh_bindForwardOutputsAuto
    depth e.kind _ _ _ hflat
  refine (hmid.addsFresh hadds).bindForward
    (List.mem_cons_self ..) ?_ expr ty
  exact fun hmem => valueName_not_mem graph (List.mem_append_right _ hmem)

/-- The lets of the value-and-gradient graph begin with those of its loss. -/
theorem lets_prefix_buildGraph {graphs : Registry} {graph : TypedGraph} {built : Graph}
    {s : Builder} (h : (buildGraph graphs graph).run (.initial graph) = .ok (built, s)) :
    ∃ ty mid, (flattenLoss graphs graphs.length graph).run (.initial graph) = .ok (ty, mid) ∧
      mid.lets <+: built.lets := by
  obtain ⟨ty, mid, grads, gradients, hflat, -, hgradients, rfl⟩ := buildGraph_eq_ok h
  obtain ⟨-, lets, hlets, -⟩ := addsFresh_gradientOutputs _ _ _ _ hgradients
  exact ⟨ty, mid, hflat, lets, hlets.symm⟩

/-- **The lets of the built graph rebind no name.** -/
theorem noRebinding_of_built {graphs : Registry} {graph typed : TypedGraph} {built : Graph}
    {s : Builder} (hnames : graph.NoRebinding)
    (hbuild : (buildGraph graphs graph).run (.initial graph) = .ok (built, s))
    (hcheck : typeCheck built [] = .ok typed) : typed.NoRebinding := by
  obtain ⟨ty, mid, grads, gradients, hflat, -, hgradients, rfl⟩ := buildGraph_eq_ok hbuild
  have hmid : NamesKept (valueName graph :: graph.boundNames)
      (graph.lets.flatMap TypedLet.names ++ [valueName graph]) { mid with grads := grads } := by
    have h := namesKept_flattenLoss hnames hflat
    exact ⟨h.inherits, h.nodup, h.inUse, h.kept⟩
  have hlast := hmid.addsFresh (addsFresh_gradientOutputs _ _ _ _ hgradients)
  have hsame := sameGraph_of_typeCheck hcheck
  have hflat := flatMap_names_eq hsame.lets
  refine ⟨by rw [hflat]; exact hlast.nodup, fun name hname hinput => ?_⟩
  rw [hflat] at hname
  rw [hsame.inputs] at hinput
  have hused : name ∈ valueName graph :: graph.boundNames :=
    List.mem_cons_of_mem _ (List.mem_append_left _ hinput)
  -- of the original names only those of the lets and of the loss are bound
  rcases List.mem_append.mp (hlast.kept name hname hused) with hmem | hmem
  · exact hnames.inputs name hmem hinput
  · rw [List.mem_singleton.mp hmem] at hinput
    exact valueName_not_mem graph (List.mem_append_left _ hinput)

end Knok.Autograd
