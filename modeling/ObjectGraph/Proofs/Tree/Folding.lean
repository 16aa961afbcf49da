import ObjectGraph.Tree.Traverse

/-!
# Folds meet the expressions of the preorder

`Expr.preorder` lists the expressions of a tree, and `Expr.rebuild` copies the tree under a fold.
The two are written form by form, each on its own. Here they are shown to meet the same expressions
in the same order: a fold that only looks does what going through the preorder does, in whatever
monad it looks, and the copy is the tree (`Expr.rebuild_looking`).

A fold that stops at some expressions is a fold that looks, with stopping for its effect. So it
stops at the first of them in the preorder (`Expr.rebuild_aborting`).
-/

namespace ObjectGraph

namespace Fold

/-- Looks at each expression and leaves the copying to the traversal. -/
def looking {m : Type → Type} [Monad m] (look : Expr → m Unit) : Fold m where
  enter e := do
    look e
    pure none
  rename := id

/-- Stops at an expression that passes the test, with the expression for the error, and leaves the
copying of the others to the traversal. -/
def aborting (test : Expr → Bool) : Fold (Except Expr) where
  enter e := if test e then .error e else .ok none
  rename := id

/-- Does what another fold does, and keeps a record of the expressions that it is given. The record
outlasts an error. -/
def recorded {ε : Type} (fold : Fold (Except ε)) : Fold (ExceptT ε (StateM (List Expr))) where
  enter e := do
    modify (· ++ [e])
    ExceptT.mk (pure (fold.enter e))
  rename := fold.rename

end Fold

/-! ## Folds that look -/

section Looking

variable {m : Type → Type} [Monad m] [LawfulMonad m] (look : Expr → m Unit)

/-- What follows on looking is told that nothing takes the expression's place. -/
theorem Fold.enter_looking_bind {α : Type} (e : Expr) (next : Option Expr → m α) :
    (Fold.looking look).enter e >>= next = look e >>= fun _ => next none := by
  rw [Fold.looking, bind_assoc]
  exact congrArg (look e >>= ·) (funext fun _ => pure_bind none next)

mutual

/-- **A fold that looks goes through the preorder and copies the tree.** -/
theorem Expr.rebuild_looking :
    ∀ e : Expr, e.rebuild (.looking look) = forM e.preorder look >>= fun _ => pure e
  | .array elements ty => by
    -- As in every form, the expression is looked at before its parts, and the parts come in the
    -- order in which the preorder lists them.
    rw [Expr.rebuild, Fold.enter_looking_bind, rebuildAll_looking elements, Expr.preorder]
    simp
  | .member object name ty => by
    rw [Expr.rebuild, Fold.enter_looking_bind, Expr.rebuild_looking object, Expr.preorder]
    simp
  | .index object index ty => by
    rw [Expr.rebuild, Fold.enter_looking_bind, Expr.rebuild_looking object,
      Expr.rebuild_looking index, Expr.preorder]
    simp [List.forM_append]
  | .binary op lhs rhs ty => by
    rw [Expr.rebuild, Fold.enter_looking_bind, Expr.rebuild_looking lhs, Expr.rebuild_looking rhs,
      Expr.preorder]
    simp [List.forM_append]
  | .unary op operand ty => by
    rw [Expr.rebuild, Fold.enter_looking_bind, Expr.rebuild_looking operand, Expr.preorder]
    simp
  | .new cls args => by
    rw [Expr.rebuild, Fold.enter_looking_bind, rebuildAll_looking args, Expr.preorder]
    simp
  | .call callee args typeArgs ty => by
    rw [Expr.rebuild, Fold.enter_looking_bind, Expr.rebuild_looking callee,
      rebuildAll_looking args, Expr.preorder]
    simp [List.forM_append]
  | .hooked operand hook ty => by
    rw [Expr.rebuild, Fold.enter_looking_bind, Expr.rebuild_looking operand, Expr.preorder]
    simp
  | .scoped scope body => by
    rw [Expr.rebuild, Fold.enter_looking_bind, Expr.rebuild_looking body, Expr.preorder]
    simp
  | .block stmts result => by
    rw [Expr.rebuild, Fold.enter_looking_bind, rebuildStmts_looking stmts, Expr.preorder]
    simp
  | .scalar _ | .object _ | .this _ | .param _ _ | .variable _ _ | .promise _ _ | .missing _
  | .unbound _ | .function _ _ => by
    rw [Expr.rebuild, Fold.enter_looking_bind, Expr.preorder]
    simp

/-- The trees of a list are gone through one after the other. -/
theorem rebuildAll_looking : ∀ es : List Expr,
    rebuildAll (.looking look) es = forM (preorderAll es) look >>= fun _ => pure es
  | [] => by
    rw [rebuildAll, preorderAll, List.forM_nil, pure_bind]
  | e :: es => by
    rw [rebuildAll, Expr.rebuild_looking e, rebuildAll_looking es, preorderAll]
    simp [List.forM_append]

/-- A statement is gone through in the order of its preorder, and declares and assigns what it
did. -/
theorem Stmt.rebuild_looking :
    ∀ s : Stmt, s.rebuild (.looking look) = forM s.preorder look >>= fun _ => pure s
  | .branch cond whenTrue whenFalse => by
    rw [Stmt.rebuild, Expr.rebuild_looking cond, rebuildStmts_looking whenTrue,
      rebuildStmts_looking whenFalse, Stmt.preorder]
    simp [List.forM_append]
  | .result value => by
    rw [Stmt.rebuild, Expr.rebuild_looking value, Stmt.preorder]
    simp
  | .declare name ty init => by
    rw [Stmt.rebuild, Expr.rebuild_looking init, Stmt.preorder]
    -- The fold renames no variable.
    simp [Fold.looking]
  | .assign name value => by
    rw [Stmt.rebuild, Expr.rebuild_looking value, Stmt.preorder]
    simp [Fold.looking]

/-- The statements of a list are gone through one after the other. -/
theorem rebuildStmts_looking : ∀ ss : List Stmt,
    rebuildStmts (.looking look) ss = forM (preorderStmts ss) look >>= fun _ => pure ss
  | [] => by
    rw [rebuildStmts, preorderStmts, List.forM_nil, pure_bind]
  | s :: ss => by
    rw [rebuildStmts, Stmt.rebuild_looking s, rebuildStmts_looking ss, preorderStmts]
    simp [List.forM_append]

end

end Looking

/-! ## Folds that stop -/

section Stopping

variable (test : Expr → Bool)

/-- Stops at an expression that passes the test. -/
def stopAt (e : Expr) : Except Expr Unit := if test e then .error e else .ok ()

/-- Records an expression, and stops at it if it passes the test. -/
def recordAndStopAt (e : Expr) : ExceptT Expr (StateM (List Expr)) Unit := do
  modify (· ++ [e])
  ExceptT.mk (pure (stopAt test e))

/-- A fold that stops at some expressions is one that looks. -/
theorem Fold.aborting_eq_looking : Fold.aborting test = .looking (stopAt test) := by
  unfold Fold.aborting Fold.looking stopAt
  congr
  funext e
  cases test e <;> rfl

/-- So is one that keeps a record besides. -/
theorem Fold.recorded_aborting_eq_looking :
    (Fold.aborting test).recorded = .looking (recordAndStopAt test) := by
  rw [Fold.aborting_eq_looking]
  unfold Fold.recorded Fold.looking recordAndStopAt
  congr
  funext e record
  dsimp only
  cases stopAt test e <;> rfl

/-- Going through a list stops at the first expression that passes the test. -/
theorem forM_stopAt (es : List Expr) :
    forM es (stopAt test) =
      match es.find? test with
      | some found => .error found
      | none => .ok () := by
  induction es with
  | nil => rfl
  | cons e es ih =>
    rw [List.forM_cons, stopAt, List.find?_cons]
    cases test e with
    | true => rfl
    | false => exact ih

/-- An expression is recorded before it is known whether to go on. -/
theorem recordAndStopAt_bind_run {α : Type} (e : Expr)
    (next : ExceptT Expr (StateM (List Expr)) α) (record : List Expr) :
    (recordAndStopAt test e >>= fun _ => next).run.run record =
      if test e then (.error e, record ++ [e]) else next.run.run (record ++ [e]) := by
  unfold recordAndStopAt stopAt
  cases test e <;> rfl

/-- Going through a list with a record ends as it does without one. The record has then grown by
the expressions before the first that passes the test, and by that one. -/
theorem forM_recordAndStopAt (es record : List Expr) :
    (forM es (recordAndStopAt test)).run.run record =
      (forM es (stopAt test),
        record ++ (es.takeWhile (!test ·) ++ (es.find? test).toList)) := by
  induction es generalizing record with
  | nil =>
    rw [List.takeWhile_nil, List.find?_nil, Option.toList_none, List.append_nil, List.append_nil]
    rfl
  | cons e es ih =>
    rw [List.forM_cons, recordAndStopAt_bind_run, List.forM_cons, stopAt, List.find?_cons,
      List.takeWhile_cons]
    cases test e with
    | true => rfl
    | false =>
      -- The expression is passed, and is the first to be recorded.
      rw [if_neg Bool.false_ne_true, ih, List.append_assoc]
      rfl

/-- What a step with a record ends with may be replaced afterwards. -/
theorem bind_pure_run {ε σ α β : Type} {step : ExceptT ε (StateM σ) α} {before after : σ}
    {answer : Except ε α} (h : step.run.run before = (answer, after)) (b : β) :
    (step >>= fun _ => pure b).run.run before = (answer >>= fun _ => pure b, after) := by
  calc (step >>= fun _ => pure b).run.run before
      = (step.run >>= ExceptT.bindCont fun _ => pure b).run before := rfl
    _ = StateT.run (ExceptT.bindCont (fun _ => pure b) answer) after := by
        rw [StateT.run_bind, h]
        rfl
    _ = (answer >>= fun _ => pure b, after) := by cases answer <;> rfl

/-- **A fold that stops at some expressions stops at the first of them in the preorder**, and
where there is none it copies the tree. On its way it reaches the expressions in the order of the
preorder, up to the one that it stops at. -/
theorem Expr.rebuild_aborting (e : Expr) :
    (e.rebuild (.aborting test) =
      match e.preorder.find? test with
      | some found => .error found
      | none => .ok e) ∧
    (e.rebuild (Fold.aborting test).recorded).run.run [] =
      (e.rebuild (.aborting test),
        e.preorder.takeWhile (!test ·) ++ (e.preorder.find? test).toList) := by
  have hcopy : e.rebuild (.aborting test) =
      forM e.preorder (stopAt test) >>= fun _ => pure e := by
    rw [Fold.aborting_eq_looking, Expr.rebuild_looking]
  constructor
  · rw [hcopy, forM_stopAt]
    cases e.preorder.find? test <;> rfl
  · rw [Fold.recorded_aborting_eq_looking, Expr.rebuild_looking, hcopy]
    exact bind_pure_run (forM_recordAndStopAt test e.preorder []) e

end Stopping

end ObjectGraph
