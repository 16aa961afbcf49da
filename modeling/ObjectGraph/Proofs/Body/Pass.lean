import ObjectGraph.Proofs.Body.Mentions
import ObjectGraph.Proofs.Construct

/-!
# One pass over a body

A pass over what a lane has come to keeps what it comes to in the end (`Runs.reduce`). It looks at
one statement only: it opens a scope for a declaration, evaluates the value of an assignment or the
condition of a branch in part, or goes on behind them. Declarations move what there is to do from the
body into bindings, so that what reductions take away is counted over both.
-/

namespace ObjectGraph

variable {σ : Type} {natives : Natives σ} {root : InstanceId}

/-! ## What there is to do in bindings -/

/-- How much there is left to do in the bindings of a scope. -/
def Scope.weight (sc : Scope) : ℕ := total (·.expr.weight) sc.bindings

namespace Heap

variable (h : Heap)

/-- How much there is left to do in all bindings. -/
def bindingWeight : ℕ := total Scope.weight h.scopes.toList

/-- A new scope adds its bindings. -/
theorem bindingWeight_allocScope (sc : Scope) :
    (h.allocScope sc).2.bindingWeight = h.bindingWeight + sc.weight := by
  simp only [bindingWeight, allocScope, Array.toList_push, total_append, total, Nat.add_zero]

/-- A binding that is written counts with what it holds now. -/
theorem bindingWeight_write {s : ScopeId} {j : ℕ} {e₀ : Expr} (e : Expr)
    (he : h.read? (.binding s j) = some e₀) :
    (h.write (.binding s j) e).bindingWeight + e₀.weight = h.bindingWeight + e.weight := by
  obtain ⟨b, hb, rfl⟩ := Option.map_eq_some_iff.mp he
  have hlt : s.index < h.scopes.size := by
    refine Nat.lt_of_not_le fun hle => ?_
    rw [scope_of_le h hle] at hb
    cases hb
  have hscope : h.scopes.toList[s.index]? = some (h.scope s) := by
    rw [Array.getElem?_toList, Heap.scope, Array.getD_eq_getD_getElem?,
      Array.getElem?_eq_getElem hlt]
    rfl
  -- The write changes one binding of one scope, and so one item of each of the two sums.
  have hinner := total_modify (fun b : Binding => b.expr.weight) (·.withExpr e) hb
  have houter := total_modify Scope.weight
    (fun sc => { sc with bindings := sc.bindings.modify j (·.withExpr e) }) hscope
  simp only [bindingWeight, write, modifyScope, Array.toList_modify]
  simp only [Scope.weight, Binding.withExpr] at hinner houter ⊢
  omega

/-- What there is to do in bindings depends on the scopes alone. -/
theorem bindingWeight_of_scopes_eq {h h' : Heap} (hs : h'.scopes = h.scopes) :
    h'.bindingWeight = h.bindingWeight := by
  rw [bindingWeight, hs, bindingWeight]

end Heap

/-! ## What a pass guarantees -/

/-- What a pass over `e` in a lane guarantees that starts in `s`, with `n` to do in `e`, and ends with
`e'` in `s'`. -/
structure Lanes.Advanced (L : Lanes) (natives : Natives σ) (root : InstanceId) (lane : Option ℕ)
    (r : Option Scalar) (scope : Option ScopeId) (n : ℕ) (e : Expr) (s : Pass σ) (e' : Expr)
    (s' : Pass σ) : Prop where
  /-- The lane has come nearer to its result, and others have not moved. -/
  lanes : ∃ L' : Lanes, L'.Held natives root s'.world ∧ L'.Runs s'.world.heap lane r scope e' ∧
    L.Moves s.world.heap lane L' s'.world.heap
  /-- No types are lost. -/
  types : s.world.types.Extends s'.world.types
  /-- Reductions are counted up. -/
  mono : s.reductions ≤ s'.reductions
  /-- Each of them takes away from what there is to do. -/
  count : s'.reductions + (s'.world.heap.bindingWeight + e'.weight) ≤
    s.reductions + (s.world.heap.bindingWeight + n)
  /-- Without reductions nothing has changed, and something pending is mentioned unless the lane
  has come to its result. -/
  idle : s'.reductions = s.reductions → e' = e ∧ s' = s ∧ (e.isTerminal = false →
    ∃ c ∈ L.cells, s.world.heap.Mentions scope e c ∧ s.world.heap.Pending c)

/-- What a pass over something that a lane has come to guarantees. -/
abbrev Lanes.Passes (L : Lanes) (natives : Natives σ) (root : InstanceId) (lane : Option ℕ)
    (r : Option Scalar) (scope : Option ScopeId) (e : Expr) (s : Pass σ) (e' : Expr) (s' : Pass σ) :
    Prop :=
  L.Advanced natives root lane r scope e.weight e s e' s'

/-- The statements of a list are plain if the first is and the others are. -/
theorem arePlain_cons {stmt : Stmt} {stmts : List Stmt} :
    ArePlain (stmt :: stmts) ↔ (∀ e ∈ stmt.exprs, e.IsPlain) ∧ ArePlain stmts := by
  simp only [ArePlain, stmtsExprs, List.mem_append, or_imp, forall_and]

/-- The statements of two lists are plain if those of each are. -/
theorem arePlain_append {stmts stmts' : List Stmt} :
    ArePlain (stmts ++ stmts') ↔ ArePlain stmts ∧ ArePlain stmts' := by
  simp only [ArePlain, stmtsExprs_append, List.mem_append, or_imp, forall_and]

/-- Making a type concrete may register types, and does nothing else. -/
theorem Reduction.concrete_apply (scope : Option ScopeId) (own : TypeArgs) (ty : TypeId)
    (s : Pass σ) : ∃ ty' types, s.world.types.Extends types ∧
      concrete scope own ty s = .ok ty' { s with world := { s.world with types } } :=
  ⟨_, _, .substituteWithin _ _ ty, rfl⟩

namespace Lanes

variable {L : Lanes} {lane : Option ℕ} {r : Option Scalar} {scope : Option ScopeId} {e e' : Expr}
  {s s' : Pass σ} {v : Scalar}

/-- A computation that is closed over its scope has the same value anywhere. -/
theorem Computes.closeOver {h : Heap} {t : ScopeId} (hc : L.Computes h lane (some t) e v) :
    L.Computes h lane none (e.closeOver (some t)) v := by
  cases hterm : e.isTerminal with
  | true =>
    have hclosed : e.isClosed default = true := hc.formula.closed_of_isTerminal default hterm
    rw [Expr.closeOver, hterm, if_pos rfl]
    exact hc.closed hclosed none
  | false =>
    rw [Expr.closeOver, hterm, if_neg Bool.false_ne_true]
    exact ⟨.within hc.formula, hc.owned, hc.value⟩

/-- What is closed over a scope has hardly more to do. -/
theorem weight_closeOver (scope : Option ScopeId) (e : Expr) :
    (e.closeOver scope).weight ≤ e.weight + 1 := by
  cases scope with
  | none => exact Nat.le_succ _
  | some t =>
    rw [Expr.closeOver]
    split
    · exact Nat.le_succ _
    · exact Nat.le_refl _

/-- A pass over a formula keeps the lanes and the value that it computes. -/
theorem Computes.passed (hc : L.Computes s.world.heap lane scope e v)
    (hL : L.Held natives root s.world) (hp : Passed L.valuation scope e s e' s') :
    L.Held natives root s'.world ∧ L.Computes s'.world.heap lane scope e' v ∧
      (s'.reductions = s.reductions → e' = e ∧ s' = s ∧ (e.isTerminal = false →
        ∃ c ∈ L.cells, s.world.heap.Mentions scope e c ∧ s.world.heap.Pending c)) := by
  refine ⟨hp.world_eq ▸ hL.grow hp.grows, ⟨hp.formula, fun c hcell => hc.owned c (hp.reads hcell),
    hp.value.trans hc.value⟩, fun hred => ?_⟩
  obtain ⟨he, hs, hwaits⟩ := hp.idle hred
  refine ⟨he, hs, fun hterm => ?_⟩
  obtain ⟨c, hcell, hpending⟩ := hwaits hterm
  have hmem := hc.mem_cells hcell
  obtain ⟨t, j, rfl⟩ := hL.isBinding c hmem
  exact ⟨_, hmem, Heap.mentions_of_mem_reads hcell nofun, hpending⟩

/-- A position stays one when scalars are added. -/
theorem At.grow {h h' : Heap} {t : ScopeId} {vars : Variables} {watched : List String}
    (hat : L.At h lane t vars watched) {w : World σ} (hL : L.Held natives root w)
    (hw : w.heap = h) (g : h.Grows h') : L.At h' lane t vars watched := by
  subst hw
  exact hat.extend g.extension (hL.reads_subset g.extension fun c _ => g.read? c)

/-- A pass over a formula, seen from the lane. -/
theorem Computes.ends_reduce (hn : natives.HasScalars)
    (hc : L.Computes s.world.heap lane scope e v) (hL : L.Held natives root s.world) :
    Ends (e.reduce natives scope) s (fun e' s' => Passed L.valuation scope e s e' s')
      fun _ _ => False := by
  refine (hc.formula.reduce hn s hL.holds .refl).mono (fun _ _ h => h) fun _ _ hnone => ?_
  rw [hc.value] at hnone
  cases hnone

section Statements

variable {t : ScopeId} {vars : Variables} {watched : List String} {stmts rest : List Stmt}
  {name : String} {ty : TypeId} (hL : L.Held natives root s.world)

include hL

/-- A body that has run out of statements becomes an absence. -/
theorem ends_nil (hr : r = none) (result : TypeId) :
    Ends (reduceBody natives scope result []) s
      (L.Passes natives root lane r scope (.block [] result) s) fun _ _ => False := by
  obtain ⟨ty, types, hx, hconcrete⟩ := Reduction.concrete_apply scope [] result s
  refine Ends.bind (Ends.of_ok hconcrete (Ends.of_ok rfl ?_))
  refine ⟨⟨L, hL.types types, .missing ty hr, .refl⟩, hx, Nat.le_succ _, ?_, fun hred => ?_⟩
  · show s.reductions + 1 + (s.world.heap.bindingWeight + 0) ≤ _
    simp only [Expr.weight, stmtsWeight]
    omega
  · exact absurd hred (Nat.succ_ne_self _)

/-- A result takes the place of the body. -/
theorem ends_result (hc : L.Computes s.world.heap lane scope e v) (hr : r = some v)
    (result : TypeId) :
    Ends (reduceBody natives scope result (.result e :: rest)) s
      (L.Passes natives root lane r scope (.block (.result e :: rest) result) s)
      fun _ _ => False := by
  refine Ends.of_ok rfl ⟨⟨L, hL, .value hc hr, .refl⟩, .refl, Nat.le_succ _, ?_, fun hred => ?_⟩
  · show s.reductions + 1 + (s.world.heap.bindingWeight + e.weight) ≤ _
    simp only [Expr.weight, Stmt.weight, stmtsWeight]
    omega
  · exact absurd hred (Nat.succ_ne_self _)

/-- A declaration opens a scope around the rest of the body. -/
theorem ends_declare (hat : L.At s.world.heap lane t vars watched) (he : e.IsPlain)
    (hrest : ArePlain rest) (hv : e.evaluateIn vars = .ok v)
    (hfree : raceFree ((watched ++ e.names).filter (· ≠ name)) rest = true)
    (hr : interpret ((name, v) :: vars) rest = .ok r) (result : TypeId) :
    Ends (reduceBody natives (some t) result (.declare name ty e :: rest)) s
      (L.Passes natives root lane r (some t) (.block (.declare name ty e :: rest) result) s)
      fun _ _ => False := by
  have hc := (hat.computes he hv).1.closeOver
  have hlength : [(⟨name, e.closeOver (some t), ty⟩ : Binding)].length = [v].length := rfl
  refine Ends.of_ok rfl ⟨⟨L.enter lane ⟨s.world.heap.scopes.size⟩ [v], ?_, ?_, ?_⟩, .refl,
    Nat.le_succ _, ?_, fun hred => ?_⟩
  · refine hL.enter (fun id hid => ?_) (.cons ⟨hc, hc.confined hL⟩ .nil)
    cases hid
  · exact .within (.block result (hat.declared hL ty he hv) (.written hrest hfree hr))
  · exact .enter hL hlength
  -- What the initializer has to do is counted in the new binding from now on.
  · have hclose := weight_closeOver (some t) e
    have hbindings := s.world.heap.bindingWeight_allocScope
      { parent := some t, bindings := [⟨name, e.closeOver (some t), ty⟩] }
    simp only [Scope.weight, total] at hbindings
    show s.reductions + 1 + ((s.world.heap.allocScope _).2.bindingWeight + _) ≤ _
    rw [hbindings]
    simp only [Expr.weight, Stmt.weight, stmtsWeight]
    omega
  · exact absurd hred (Nat.succ_ne_self _)

/-- A body stays as it is, up to the progress that the expression of its first statement makes, as
long as that is not terminal. -/
theorem passes_waiting (first : Expr → Stmt) (n : ℕ) (hat : L.At s.world.heap lane t vars watched)
    (hc : L.Computes s.world.heap lane (some t) e v)
    (hp : Passed L.valuation (some t) e s e' s') (hterm : e'.isTerminal = false)
    (hweight : ∀ e, (first e).weight = e.weight + n)
    (hmem : ∀ e, e ∈ (first e).exprs)
    (hd : L.Due s'.world.heap lane t vars watched r (first e' :: rest)) (result : TypeId) :
    L.Passes natives root lane r (some t) (.block (first e :: rest) result) s
      (.block (first e' :: rest) result) s' := by
  obtain ⟨hL', -, hidle⟩ := hc.passed hL hp
  have hcount := hp.count
  have hscopes := Heap.bindingWeight_of_scopes_eq hp.grows.scopes
  refine ⟨⟨L, hL', .block result (hat.grow hL rfl hp.grows) hd, .grow hp.grows⟩, hp.types ▸ .refl,
    hp.mono, ?_, fun hred => ?_⟩
  · simp only [Expr.weight, stmtsWeight, hweight, hscopes]
    omega
  · obtain ⟨rfl, rfl, hwaits⟩ := hidle hred
    refine ⟨rfl, rfl, fun _ => ?_⟩
    obtain ⟨c, hcell, hmentions, hpending⟩ := hwaits hterm
    exact ⟨c, hcell, hmentions.block (List.mem_append_left _ (hmem e')) result, hpending⟩

/-- An assignment waits until its value has been evaluated, and then sets the variable. No
initializer that is still to be evaluated reads it, because it is not watched. -/
theorem ends_assign (hn : natives.HasScalars) (hat : L.At s.world.heap lane t vars watched)
    (hc : L.Computes s.world.heap lane (some t) e v) (hname : (vars.lookup name).isSome = true)
    (hwatched : name ∉ watched) (hrest : ArePlain rest) (hfree : raceFree watched rest = true)
    (hr : interpret (vars.assign name v) rest = .ok r) (result : TypeId) :
    Ends (reduceBody natives (some t) result (.assign name e :: rest)) s
      (L.Passes natives root lane r (some t) (.block (.assign name e :: rest) result) s)
      fun _ _ => False := by
  refine Ends.bind ((hc.ends_reduce hn hL).mono (fun e' s' hp => ?_) fun _ _ h => h)
  obtain ⟨hL', hc', -⟩ := hc.passed hL hp
  have hat' := hat.grow hL rfl hp.grows
  cases hterm : e'.isTerminal with
  | false =>
    have hstays : Reduction.assign (some t) name e' rest result s' =
        .ok (.block (.assign name e' :: rest) result) s' := by
      rw [Reduction.assign, hterm]
      rfl
    exact Ends.of_ok hstays (passes_waiting hL (.assign name) 1 hat hc hp hterm (fun _ => rfl)
      (fun _ => List.mem_cons_self) (.assign hc' hname hwatched hrest hfree hr) result)
  | true =>
    have hmono := hp.mono
    have hcount := hp.count
    have hscopes := Heap.bindingWeight_of_scopes_eq hp.grows.scopes
    have htypes : s.world.types.Extends s'.world.types := hp.types ▸ .refl
    obtain ⟨id, u, rfl, hu⟩ := hc'.formula.of_isTerminal hterm
    obtain rfl : u = v := Option.some.inj (hu.scalar?.symm.trans hc'.value)
    obtain ⟨u', hu'⟩ := Option.isSome_iff_exists.mp hname
    obtain ⟨c, hcell, hmem, howner, -⟩ := hat'.bound hu'
    obtain ⟨found, hfound, hbinding⟩ := Option.map_eq_some_iff.mp hcell
    -- The value is an instance, and the name leads to a cell that nothing reads.
    have hset : Reduction.assign (some t) name (.object id) rest result s' =
        .ok (.block rest result)
          ⟨{ s'.world with heap := s'.world.heap.write c (.object id) }, s'.reductions + 1⟩ := by
      subst hbinding
      rw [Reduction.assign, hterm, if_pos rfl, bind_of_ok (Reduction.look_apply _ s')]
      simp only [hfound]
      rfl
    have hunread : ∀ c' e', c' ∈ L.cells → s'.world.heap.read? c' = some e' →
        c ∉ e'.reads s'.world.heap none :=
      fun c' e' hc' he' hread => hwatched (hat'.noticed hname hcell hc' he' hread)
    refine Ends.of_ok hset ⟨⟨L.set c u, hL'.set hmem hu hunread,
      .block result (hat'.assigned hL' hname hcell) (.written hrest hfree hr),
      (Moves.grow hp.grows).trans (.set hL' _ _ hmem howner)⟩, htypes, Nat.le_succ_of_le hmono, ?_,
      fun hred => ?_⟩
    · obtain ⟨e₀, he₀, -⟩ := hL'.holds.cell c hmem
      subst hbinding
      have hwrite := s'.world.heap.bindingWeight_write (.object id) he₀
      simp only [Expr.weight, Stmt.weight, stmtsWeight] at hwrite hcount ⊢
      omega
    · change s'.reductions + 1 = s.reductions at hred
      omega

/-- A branch waits until its condition has been evaluated, and then puts the statements that are
taken before the rest. -/
theorem ends_branch (hn : natives.HasScalars) (hat : L.At s.world.heap lane t vars watched)
    {b : Bool} {whenTrue whenFalse : List Stmt}
    (hc : L.Computes s.world.heap lane (some t) e (.bool b)) (htrue : ArePlain whenTrue)
    (hfalse : ArePlain whenFalse) (hrest : ArePlain rest)
    (hfree : raceFree watched ((if b then whenTrue else whenFalse) ++ rest) = true)
    (hr : interpret vars ((if b then whenTrue else whenFalse) ++ rest) = .ok r)
    (result : TypeId) :
    Ends (reduceBody natives (some t) result (.branch e whenTrue whenFalse :: rest)) s
      (L.Passes natives root lane r (some t) (.block (.branch e whenTrue whenFalse :: rest) result)
        s)
      fun _ _ => False := by
  refine Ends.bind ((hc.ends_reduce hn hL).mono (fun e' s' hp => ?_) fun _ _ h => h)
  obtain ⟨hL', hc', -⟩ := hc.passed hL hp
  by_cases hobj : ∃ id, e' = .object id
  · obtain ⟨id, rfl⟩ := hobj
    have hat' := hat.grow hL rfl hp.grows
    have hmono := hp.mono
    have hcount := hp.count
    have hscopes := Heap.bindingWeight_of_scopes_eq hp.grows.scopes
    have htypes : s.world.types.Extends s'.world.types := hp.types ▸ .refl
    obtain ⟨u, hu⟩ := hc'.formula.isScalar
    obtain rfl : u = .bool b := Option.some.inj (hu.scalar?.symm.trans hc'.value)
    -- The condition is the instance of a truth value, and the branch is taken.
    have htaken : Reduction.branch (.object id) whenTrue whenFalse rest result s' =
        .ok (.block ((if b then whenTrue else whenFalse) ++ rest) result)
          ⟨s'.world, s'.reductions + 1⟩ := by
      unfold Reduction.branch
      simp only
      rw [bind_of_ok (Reduction.perform_of_ok (Effect.instanceOf_apply id s'.world))]
      simp only [hu.payload]
      rfl
    have hplain : ArePlain ((if b then whenTrue else whenFalse) ++ rest) := by
      refine arePlain_append.mpr ⟨?_, hrest⟩
      split
      · exact htrue
      · exact hfalse
    refine Ends.of_ok htaken ⟨⟨L, hL', .block result hat' (.written hplain hfree hr),
      .grow hp.grows⟩, htypes, Nat.le_succ_of_le hmono, ?_, fun hred => ?_⟩
    · simp only [Expr.weight, Stmt.weight, stmtsWeight, stmtsWeight_append, hscopes] at hcount ⊢
      cases b <;> simp only [if_true, if_false, Bool.false_eq_true] <;> omega
    · change s'.reductions + 1 = s.reductions at hred
      omega
  · have hstays : Reduction.branch e' whenTrue whenFalse rest result s' =
        .ok (.block (.branch e' whenTrue whenFalse :: rest) result) s' := by
      unfold Reduction.branch
      split
      case h_1 => exact absurd rfl (hc'.formula.ne_missing _)
      case h_2 => exact absurd ⟨_, rfl⟩ hobj
      case h_3 => rfl
    have hterm : e'.isTerminal = false := by
      refine Bool.eq_false_iff.mpr fun hterm => hobj ?_
      obtain ⟨id, -, rfl, -⟩ := hc'.formula.of_isTerminal hterm
      exact ⟨id, rfl⟩
    have hweight (e : Expr) : (Stmt.branch e whenTrue whenFalse).weight =
        e.weight + (stmtsWeight whenTrue + stmtsWeight whenFalse + 1) := by
      simp only [Stmt.weight, Nat.add_assoc]
    exact Ends.of_ok hstays (passes_waiting hL (.branch · whenTrue whenFalse) _ hat hc hp hterm
      hweight (fun _ => List.mem_cons_self) (.branch hc' htrue hfalse hrest hfree hr) result)

/-- A pass over a body looks at its first statement. -/
theorem ends_body (hn : natives.HasScalars) (hat : L.At s.world.heap lane t vars watched)
    (hd : L.Due s.world.heap lane t vars watched r stmts) (result : TypeId) :
    Ends (reduceBody natives (some t) result stmts) s
      (L.Passes natives root lane r (some t) (.block stmts result) s) fun _ _ => False := by
  cases hd with
  | assign hc hname hwatched hrest hfree hr =>
    exact ends_assign hL hn hat hc hname hwatched hrest hfree hr result
  | branch hc htrue hfalse hrest hfree hr =>
    exact ends_branch hL hn hat hc htrue hfalse hrest hfree hr result
  -- A statement as it is written is due with the values of the interpreter.
  | written hplain hfree hr =>
    cases stmts with
    | nil => exact ends_nil hL (interpret_nil hr) result
    | cons stmt rest =>
      obtain ⟨hstmt, hrest⟩ := arePlain_cons.mp hplain
      cases stmt with
      | result e =>
        obtain ⟨v, hv, hresult⟩ := interpret_result hr
        exact ends_result hL (hat.computes (hstmt e List.mem_cons_self) hv).1 hresult result
      | declare name ty e =>
        obtain ⟨v, hv, hnext⟩ := interpret_declare hr
        rw [raceFree] at hfree
        exact ends_declare hL hat (hstmt e List.mem_cons_self) hrest hv hfree hnext result
      | assign name e =>
        obtain ⟨v, hv, hname, hnext⟩ := interpret_assign hr
        have hc := (hat.computes (hstmt e List.mem_cons_self) hv).1
        rw [raceFree, Bool.and_eq_true, Bool.not_eq_true', ← Bool.not_eq_true,
          List.contains_iff_mem] at hfree
        exact ends_assign hL hn hat hc hname hfree.1 hrest hfree.2 hnext result
      | branch e whenTrue whenFalse =>
        obtain ⟨b, hb, hnext⟩ := interpret_branch hr
        rw [raceFree, Bool.and_eq_true] at hfree
        have hc := (hat.computes (hstmt e List.mem_cons_self) hb).1
        refine ends_branch hL hn hat hc ?_ ?_ hrest ?_ hnext result
        · exact fun e he => hstmt e (List.mem_cons_of_mem _ (List.mem_append_left _ he))
        · exact fun e he => hstmt e (List.mem_cons_of_mem _ (List.mem_append_right _ he))
        · cases b
          · exact hfree.2
          · exact hfree.1

end Statements

/-- A scope around a body is left behind or stays. -/
theorem Passes.ends_leave {inner : ScopeId} {body body' : Expr}
    (hp : L.Passes natives root lane r (some inner) body s body' s') :
    Ends (Reduction.leave inner s.reductions body') s'
      (L.Passes natives root lane r scope (.scoped inner body) s) fun _ _ => False := by
  obtain ⟨L', hL', hr', hm⟩ := hp.lanes
  have hmono := hp.mono
  have hcount := hp.count
  have hstep := Reduction.leave_apply inner s.reductions body' s'
  split at hstep
  case isTrue hleft =>
    have hclosed : body'.isTerminal = true ∨ body'.isClosed s'.world.types = true := by
      refine (Bool.or_eq_true_iff.mp hleft).imp_right fun hstalled => ?_
      simp only [Bool.and_eq_true] at hstalled
      exact hstalled.2.2
    refine Ends.of_ok hstep ⟨⟨L', hL', hr'.closed hclosed scope, hm⟩, hp.types,
      Nat.le_succ_of_le hmono, ?_, fun hred => ?_⟩
    · simp only [Expr.weight]
      omega
    · change s'.reductions + 1 = s.reductions at hred
      omega
  case isFalse hstays =>
    refine Ends.of_ok hstep ⟨⟨L', hL', .within hr', hm⟩, hp.types, hmono, ?_, fun hred => ?_⟩
    · simp only [Expr.weight]
      omega
    · obtain ⟨rfl, rfl, hwaits⟩ := hp.idle hred
      rw [Bool.or_eq_true, not_or] at hstays
      obtain ⟨c, hmem, hmentions, hpending⟩ := hwaits (Bool.eq_false_iff.mpr hstays.1)
      exact ⟨rfl, rfl, fun _ => ⟨c, hmem, hmentions.within, hpending⟩⟩

/-- **A pass over what a lane has come to** keeps what it comes to in the end, and does not fail. -/
theorem Runs.reduce (hn : natives.HasScalars) (hr : L.Runs s.world.heap lane r scope e)
    (hL : L.Held natives root s.world) :
    Ends (e.reduce natives scope) s (L.Passes natives root lane r scope e s)
      fun _ _ => False := by
  -- The induction goes through the scopes that the lane has opened, down to what is under way.
  induction hr with
  | value hc hresult =>
    refine (hc.ends_reduce hn hL).mono (fun e' s' hp => ?_) fun _ _ h => h
    obtain ⟨hL', hc', hidle⟩ := hc.passed hL hp
    have hcount := hp.count
    have hscopes := Heap.bindingWeight_of_scopes_eq hp.grows.scopes
    exact ⟨⟨L, hL', .value hc' hresult, .grow hp.grows⟩, hp.types ▸ .refl, hp.mono, by omega, hidle⟩
  | missing ty hresult =>
    exact Ends.of_ok rfl ⟨⟨L, hL, .missing ty hresult, .refl⟩, .refl, Nat.le_refl _, Nat.le_refl _,
      fun _ => ⟨rfl, rfl, nofun⟩⟩
  | block ty hat hd => exact ends_body hL hn hat hd ty
  | within _ ih =>
    refine Ends.bind (Ends.of_ok rfl (Ends.bind (ih.mono ?_ fun _ _ h => h)))
    exact fun body' s' hp => hp.ends_leave

end Lanes

end ObjectGraph
