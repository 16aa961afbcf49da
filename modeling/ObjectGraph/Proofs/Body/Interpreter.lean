import ObjectGraph.Proofs.Formula.Recursive
import ObjectGraph.Proofs.Formula.Value

/-!
# Method bodies, statement by statement

What a method body comes to when its statements run one after the other: each declaration and each
assignment evaluates its expression with the values that the variables have at that point, a branch
that is taken is put before the rest, and a body that runs out of statements comes to nothing
(`interpret`).

Evaluation does not run bodies that way. It stores a declaration's initializer as it is and goes on,
so that an assignment may come before a read that was written above it. In a race-free body no
variable is assigned after a declaration whose initializer mentions it (`raceFree`).
-/

namespace ObjectGraph

/-- The values of the variables in scope, the nearest first. -/
abbrev Variables := List (String × Scalar)

/-- Gives the nearest variable of a name another value. -/
def Variables.assign (name : String) (v : Scalar) : Variables → Variables
  | [] => []
  | (other, u) :: rest =>
    if other = name then (other, v) :: rest else (other, u) :: assign name v rest

/-- What the variables are after an assignment. -/
theorem Variables.lookup_assign (vars : Variables) (name other : String) (v : Scalar) :
    (vars.assign name v).lookup other =
      if other = name then (vars.lookup name).map fun _ => v else vars.lookup other := by
  induction vars with
  | nil => split <;> rfl
  | cons first rest ih =>
    obtain ⟨x, u⟩ := first
    by_cases hx : x = name
    · subst hx
      by_cases hother : other = x
      · subst hother
        simp [assign]
      · have hne : (other == x) = false := beq_false_of_ne hother
        simp [assign, List.lookup_cons, hne, hother]
    · rw [assign, if_neg hx, List.lookup_cons, List.lookup_cons, List.lookup_cons, ih]
      by_cases hother : other = name
      · subst hother
        have hne : (other == x) = false := beq_false_of_ne fun h => hx h.symm
        simp only [hne, if_true]
      · simp only [if_neg hother]

/-- The value of an expression, given the values of the variables in scope. -/
def Expr.evaluateIn (vars : Variables) (e : Expr) : Except Fault Scalar :=
  e.evaluate (fun name => vars.lookup name) fun _ => .error .unknownName

/-- The names that an expression reads. -/
def Expr.names : Expr → List String
  | .param name _ | .variable name _ => [name]
  | .binary _ lhs rhs _ => lhs.names ++ rhs.names
  | .unary _ operand _ => operand.names
  | _ => []

/-- An expression of literals, names, and operators that need all of their operands. -/
inductive Expr.IsPlain : Expr → Prop where
  /-- A literal. -/
  | scalar (v : Scalar) : IsPlain (.scalar v)
  /-- A parameter. -/
  | param (name : String) (ty : TypeId) : IsPlain (.param name ty)
  /-- A local variable. -/
  | localVar (name : String) (ty : TypeId) : IsPlain (.variable name ty)
  /-- A binary operation. -/
  | binary {op lhs rhs} (ty : TypeId) : op ≠ .and → op ≠ .or → IsPlain lhs → IsPlain rhs →
    IsPlain (.binary op lhs rhs ty)
  /-- A unary operation. -/
  | unary {op operand} (ty : TypeId) : op ≠ .typeOf → IsPlain operand →
    IsPlain (.unary op operand ty)

/-- Whether an expression is plain. -/
def Expr.isPlain : Expr → Bool
  | .scalar _ | .param _ _ | .variable _ _ => true
  | .binary op lhs rhs _ => op ≠ .and && op ≠ .or && lhs.isPlain && rhs.isPlain
  | .unary op operand _ => op ≠ .typeOf && operand.isPlain
  | _ => false

/-- The test tells plain expressions from others. -/
theorem Expr.isPlain_iff {e : Expr} : e.isPlain = true ↔ e.IsPlain := by
  constructor
  · intro h
    induction e using Expr.isPlain.induct with
    | case1 v => exact .scalar v
    | case2 name ty => exact .param name ty
    | case3 name ty => exact .localVar name ty
    | case4 op lhs rhs ty ihl ihr =>
      simp only [isPlain, Bool.and_eq_true, decide_eq_true_eq] at h
      exact .binary ty h.1.1.1 h.1.1.2 (ihl h.1.2) (ihr h.2)
    | case5 op operand ty ih =>
      simp only [isPlain, Bool.and_eq_true, decide_eq_true_eq] at h
      exact .unary ty h.1 (ih h.2)
    | case6 e hscalar hparam hvariable hbinary hunary =>
      rw [isPlain] at h
      all_goals first | assumption | cases h
  · intro h
    induction h with
    | scalar | param | localVar => rfl
    | binary ty ha ho _ _ ihl ihr => simp [isPlain, ha, ho, ihl, ihr]
    | unary ty ht _ ih => simp [isPlain, ht, ih]

instance (e : Expr) : Decidable e.IsPlain := decidable_of_iff _ Expr.isPlain_iff

mutual

/-- The expressions of a statement. -/
def Stmt.exprs : Stmt → List Expr
  | .branch cond whenTrue whenFalse => cond :: (stmtsExprs whenTrue ++ stmtsExprs whenFalse)
  | .result value => [value]
  | .declare _ _ init => [init]
  | .assign _ value => [value]

/-- The expressions of a list of statements. -/
def stmtsExprs : List Stmt → List Expr
  | [] => []
  | stmt :: stmts => stmt.exprs ++ stmtsExprs stmts

end

/-- The expressions of two lists of statements. -/
theorem stmtsExprs_append (stmts stmts' : List Stmt) :
    stmtsExprs (stmts ++ stmts') = stmtsExprs stmts ++ stmtsExprs stmts' := by
  induction stmts with
  | nil => simp [stmtsExprs]
  | cons stmt stmts ih => simp only [List.cons_append, stmtsExprs, ih, List.append_assoc]

/-- The statements hold plain expressions only. -/
def ArePlain (stmts : List Stmt) : Prop := ∀ e ∈ stmtsExprs stmts, e.IsPlain

instance (stmts : List Stmt) : Decidable (ArePlain stmts) :=
  inferInstanceAs (Decidable (∀ e ∈ stmtsExprs stmts, e.IsPlain))

/-- What a body comes to when its statements run one after the other: a value, or nothing if it runs
out of statements. -/
def interpret (vars : Variables) : List Stmt → Except Fault (Option Scalar)
  | [] => .ok none
  | .result value :: _ => do return some (← value.evaluateIn vars)
  | .declare name _ init :: rest => do interpret ((name, ← init.evaluateIn vars) :: vars) rest
  | .assign name value :: rest => do
    let v ← value.evaluateIn vars
    if (vars.lookup name).isSome then interpret (vars.assign name v) rest
    else .error .unknownName
  | .branch cond whenTrue whenFalse :: rest => do
    match ← cond.evaluateIn vars with
    | .bool true => interpret vars (whenTrue ++ rest)
    | .bool false => interpret vars (whenFalse ++ rest)
    | _ => .error .mistyped
termination_by stmts => stmtsWeight stmts
decreasing_by all_goals simp only [stmtsWeight, Stmt.weight, stmtsWeight_append]; omega

/-- A computation that has a value has one at each of its two stages. -/
theorem ok_of_bind {α β : Type} {first : Except Fault α} {next : α → Except Fault β} {b : β}
    (h : first >>= next = .ok b) : ∃ a, first = .ok a ∧ next a = .ok b := by
  cases first with
  | ok a => exact ⟨a, rfl, h⟩
  | error fault => cases h

section Interpret

variable {vars : Variables} {name : String} {ty : TypeId} {e : Expr} {rest : List Stmt}
  {r : Option Scalar}

/-- A body without statements comes to nothing. -/
theorem interpret_nil (h : interpret vars [] = .ok r) : r = none := by
  rw [interpret] at h
  exact (Except.ok.inj h).symm

/-- A body that begins with a result comes to the value of the result. -/
theorem interpret_result (h : interpret vars (.result e :: rest) = .ok r) :
    ∃ v, e.evaluateIn vars = .ok v ∧ r = some v := by
  rw [interpret] at h
  obtain ⟨v, hv, h⟩ := ok_of_bind h
  exact ⟨v, hv, (Except.ok.inj h).symm⟩

/-- A body that begins with a declaration goes on with one more variable. -/
theorem interpret_declare (h : interpret vars (.declare name ty e :: rest) = .ok r) :
    ∃ v, e.evaluateIn vars = .ok v ∧ interpret ((name, v) :: vars) rest = .ok r := by
  rw [interpret] at h
  exact ok_of_bind h

/-- A body that begins with an assignment goes on with the assigned value. -/
theorem interpret_assign (h : interpret vars (.assign name e :: rest) = .ok r) :
    ∃ v, e.evaluateIn vars = .ok v ∧ (vars.lookup name).isSome = true ∧
      interpret (vars.assign name v) rest = .ok r := by
  rw [interpret] at h
  obtain ⟨v, hv, h⟩ := ok_of_bind h
  by_cases hname : (vars.lookup name).isSome = true
  · rw [if_pos hname] at h
    exact ⟨v, hv, hname, h⟩
  · rw [if_neg hname] at h
    cases h

/-- A body that begins with a branch goes on with the statements that are taken. -/
theorem interpret_branch {whenTrue whenFalse : List Stmt}
    (h : interpret vars (.branch e whenTrue whenFalse :: rest) = .ok r) :
    ∃ b, e.evaluateIn vars = .ok (.bool b) ∧
      interpret vars ((if b then whenTrue else whenFalse) ++ rest) = .ok r := by
  rw [interpret] at h
  obtain ⟨v, hv, h⟩ := ok_of_bind h
  cases v with
  | bool b => cases b <;> exact ⟨_, hv, h⟩
  | _ => cases h

end Interpret

/-- Whether no statement assigns a variable that is watched, or that the initializer of a
declaration above it mentions. A declaration hides the variables of its name, which cannot be
assigned any more. -/
def raceFree (watched : List String) : List Stmt → Bool
  | [] | .result _ :: _ => true
  | .declare name _ init :: rest => raceFree ((watched ++ init.names).filter (· ≠ name)) rest
  | .assign name _ :: rest => !watched.contains name && raceFree watched rest
  | .branch _ whenTrue whenFalse :: rest =>
    raceFree watched (whenTrue ++ rest) && raceFree watched (whenFalse ++ rest)
termination_by stmts => stmtsWeight stmts
decreasing_by all_goals simp only [stmtsWeight, Stmt.weight, stmtsWeight_append]; omega

end ObjectGraph
