import Mathlib
import Knok.Numbers

/-!
# Integer literals

A scalar literal is lowered to an attribute of its element type, and the parser of
attributes takes an integer of a signless type if it is a signed or an unsigned
value of its width.  An expression with another integer literal is not lowered.
-/

namespace Knok

/-- The literal is a value of its element type. -/
def LiteralFits (text : String) (elem : ElementType) : Prop :=
  ∀ width, elem.intWidth = some width →
    ∃ value : ℤ, text.toInt? = some value ∧ -2 ^ (width - 1) ≤ value ∧ value < 2 ^ width

/-- All literals of an expression are values of their element types. -/
def Expr.LiteralsFit (e : Expr) : Prop :=
  ∀ text elem, Expr.const text elem ∈ e.subexprs → LiteralFits text elem

theorem literalFits_toString {elem : ElementType} {width : ℕ}
    (hwidth : elem.intWidth = some width) (n : ℤ) :
    LiteralFits (toString n) elem ↔ -2 ^ (width - 1) ≤ n ∧ n < 2 ^ width := by
  have htext : toString n = n.repr := by cases n <;> rfl
  have hparse : (toString n).toInt? = some n := htext ▸ Int.toInt?_repr n
  unfold LiteralFits
  rw [hwidth, hparse]
  simp

theorem literalFits_natCast {elem : ElementType} {width : ℕ}
    (hwidth : elem.intWidth = some width) (n : ℕ) :
    LiteralFits (toString n) elem ↔ n < 2 ^ width := by
  refine (literalFits_toString hwidth (n : ℤ)).trans ⟨fun h => by exact_mod_cast h.2, fun h => ?_⟩
  have hlow : (0 : ℤ) < 2 ^ (width - 1) := by positivity
  exact ⟨by omega, by exact_mod_cast h⟩

namespace Expr

theorem LiteralsFit.part {e s : Expr} (h : e.LiteralsFit) (hs : s ∈ e.subexprs) :
    s.LiteralsFit := fun text elem hconst => h text elem (mem_subexprs_trans hconst hs)

@[simp] theorem literalsFit_var (name : String) : (Expr.var name).LiteralsFit := by
  simp [LiteralsFit, subexprs]

@[simp] theorem literalsFit_const {text : String} {elem : ElementType} :
    (Expr.const text elem).LiteralsFit ↔ LiteralFits text elem := by
  simp [LiteralsFit, subexprs]

@[simp] theorem literalsFit_binary {op : BinaryOp} {lhs rhs : Expr} :
    (Expr.binary op lhs rhs).LiteralsFit ↔ lhs.LiteralsFit ∧ rhs.LiteralsFit := by
  simp only [LiteralsFit, subexprs, List.mem_cons, reduceCtorEq, false_or, List.mem_append, or_imp,
    forall_and]

@[simp] theorem literalsFit_call {op : CallOp} {args : List Expr} :
    (Expr.call op args).LiteralsFit ↔ ∀ arg ∈ args, arg.LiteralsFit := by
  simp only [LiteralsFit, subexprs, List.mem_cons, reduceCtorEq, false_or, mem_subexprsList]
  constructor
  · exact fun h arg harg text elem hconst => h text elem ⟨arg, harg, hconst⟩
  · rintro h text elem ⟨arg, harg, hconst⟩
    exact h arg harg text elem hconst

end Expr

end Knok
