import ObjectGraph.Proofs.Body.Lane

/-!
# Where a lane is

A lane that runs a body is in some scope, in which the variables have values and some of them are
watched: there are initializers still to be evaluated that read them (`Lanes.At`). `Lanes.Runs` says
of what a lane has come to so far which result it will come to in the end. Both stay true while other
lanes move and while bindings are evaluated.
-/

namespace ObjectGraph

variable {σ : Type} {natives : Natives σ} {root : InstanceId}

/-- A lane has moved, from `L` on the heap `h` to `L'` on the heap `h'`. Other lanes are as they
were. -/
structure Lanes.Moves (L : Lanes) (h : Heap) (lane : Option ℕ) (L' : Lanes) (h' : Heap) :
    Prop where
  /-- The heap has been extended. -/
  extension : h.Extends h'
  /-- Bindings stay. -/
  cells : ∀ c ∈ L.cells, c ∈ L'.cells
  /-- They stay in their lanes. -/
  owner : ∀ c ∈ L.cells, L'.owner c = L.owner c
  /-- New ones are in the lane that has moved. -/
  fresh : ∀ c ∈ L'.cells, c ∈ L.cells ∨ L'.owner c = lane
  /-- Values in other lanes stay. -/
  value : ∀ c ∈ L.cells, L.owner c ≠ lane → L'.value c = L.value c
  /-- What is in other lanes, or in none, holds what it held. -/
  content : ∀ c, c ∉ L'.cells ∨ c ∈ L.cells ∧ L.owner c ≠ lane → h'.read? c = h.read? c
  /-- No instance has become final. -/
  isSealed : ∀ id, id.index < h.instances.size → (h'.get id).sealed = (h.get id).sealed

/-- A lane that is in the scope `s` of a body. -/
structure Lanes.At (L : Lanes) (h : Heap) (lane : Option ℕ) (s : ScopeId) (vars : Variables)
    (watched : List String) : Prop where
  /-- The variables are bindings of the lane with these values. -/
  bound : ∀ {x v}, vars.lookup x = some v → ∃ c, h.nameCell? (some s) x = some c ∧ c ∈ L.cells ∧
    L.owner c = lane ∧ L.value c = some v
  /-- Those that a binding reads are watched. -/
  noticed : ∀ {x c c' e'}, (vars.lookup x).isSome = true → h.nameCell? (some s) x = some c →
    c' ∈ L.cells → h.read? c' = some e' → c ∈ e'.reads h none → x ∈ watched

/-- The statements that are still to run come to the result. The first of them may have been
evaluated in part. -/
inductive Lanes.Due (L : Lanes) (h : Heap) (lane : Option ℕ) (s : ScopeId) (vars : Variables)
    (watched : List String) (r : Option Scalar) : List Stmt → Prop where
  /-- Statements as they are written. -/
  | written {stmts} : ArePlain stmts → raceFree watched stmts = true →
    interpret vars stmts = .ok r → Due L h lane s vars watched r stmts
  /-- An assignment whose value is being evaluated. -/
  | assign {name value v rest} : L.Computes h lane (some s) value v →
    (vars.lookup name).isSome = true → name ∉ watched → ArePlain rest →
    raceFree watched rest = true → interpret (vars.assign name v) rest = .ok r →
    Due L h lane s vars watched r (.assign name value :: rest)
  /-- A branch whose condition is being evaluated. -/
  | branch {cond b whenTrue whenFalse rest} : L.Computes h lane (some s) cond (.bool b) →
    ArePlain whenTrue → ArePlain whenFalse → ArePlain rest →
    raceFree watched ((if b then whenTrue else whenFalse) ++ rest) = true →
    interpret vars ((if b then whenTrue else whenFalse) ++ rest) = .ok r →
    Due L h lane s vars watched r (.branch cond whenTrue whenFalse :: rest)

/-- What a lane has come to so far comes to the result in the end. -/
inductive Lanes.Runs (L : Lanes) (h : Heap) (lane : Option ℕ) (r : Option Scalar) :
    Option ScopeId → Expr → Prop where
  /-- A formula. -/
  | value {scope e v} : L.Computes h lane scope e v → r = some v → Runs L h lane r scope e
  /-- An absence. -/
  | missing {scope} (ty : TypeId) : r = none → Runs L h lane r scope (.missing ty)
  /-- Statements that are still to run. -/
  | block {s vars watched stmts} (ty : TypeId) : L.At h lane s vars watched →
    L.Due h lane s vars watched r stmts → Runs L h lane r (some s) (.block stmts ty)
  /-- Anything of this in a scope of its own. -/
  | within {scope inner body} : Runs L h lane r (some inner) body →
    Runs L h lane r scope (.scoped inner body)

/-- A cell is that of one name only. -/
theorem Heap.name_eq_of_nameCell? {h : Heap} {scope : Option ScopeId} {x y : String} {c : Cell}
    (hx : h.nameCell? scope x = some c) (hy : h.nameCell? scope y = some c) : x = y := by
  obtain ⟨found, hfound, rfl⟩ := Option.map_eq_some_iff.mp hx
  obtain ⟨found', hfound', heq⟩ := Option.map_eq_some_iff.mp hy
  obtain ⟨s, rfl, hlookup⟩ := Option.bind_eq_some_iff.mp hfound
  obtain ⟨hscope, hindex⟩ := Cell.binding.inj heq
  have hname := h.name_of_lookup? hlookup
  have hname' := h.name_of_lookup? (show h.lookup? s y = some found' from hfound')
  rw [hscope, hindex, hname] at hname'
  exact Option.some.inj hname'

namespace Lanes

variable {L L' L'' : Lanes} {h h' h'' : Heap} {lane lane' : Option ℕ} {s : ScopeId}
  {scope : Option ScopeId} {vars : Variables} {watched : List String} {r : Option Scalar}
  {e : Expr} {v : Scalar}

/-! ## Moves -/

namespace Moves

/-- Nothing moves if nothing happens. -/
theorem refl : L.Moves h lane L h :=
  ⟨.refl, fun _ h => h, fun _ _ => rfl, fun _ h => .inl h, fun _ _ _ => rfl, fun _ _ => rfl,
    fun _ _ => rfl⟩

/-- Two moves in a row. -/
theorem trans (a : L.Moves h lane L' h') (b : L'.Moves h' lane L'' h'') :
    L.Moves h lane L'' h'' where
  extension := a.extension.trans b.extension
  cells c hc := b.cells c (a.cells c hc)
  owner c hc := (b.owner c (a.cells c hc)).trans (a.owner c hc)
  fresh c hc := by
    rcases b.fresh c hc with hc | hc
    · rcases a.fresh c hc with hc' | hc'
      · exact .inl hc'
      · exact .inr ((b.owner c hc).trans hc')
    · exact .inr hc
  value c hc hne := by
    have hne' : L'.owner c ≠ lane := by rwa [a.owner c hc]
    exact (b.value c (a.cells c hc) hne').trans (a.value c hc hne)
  content c hc := by
    rcases hc with hc | ⟨hc, hne⟩
    · exact (b.content c (.inl hc)).trans (a.content c (.inl fun hc' => hc (b.cells c hc')))
    · have hne' : L'.owner c ≠ lane := by rwa [a.owner c hc]
      exact (b.content c (.inr ⟨a.cells c hc, hne'⟩)).trans (a.content c (.inr ⟨hc, hne⟩))
  isSealed id hid :=
    (b.isSealed id (Nat.lt_of_lt_of_le hid a.extension.size)).trans (a.isSealed id hid)

/-- New scalars move no lane. -/
theorem grow (g : h.Grows h') : L.Moves h lane L h' where
  extension := g.extension
  cells _ hc := hc
  owner _ _ := rfl
  fresh _ hc := .inl hc
  value _ _ _ := rfl
  content c _ := g.read? c
  isSealed id hid := by
    rcases g.get id with hget | ⟨hle, -⟩
    · rw [hget]
    · exact absurd hid (Nat.not_lt_of_le hle)

/-- Entering a scope moves the lane that the scope is in. -/
theorem enter {w : World σ} (hL : L.Held natives root w) {sc : Scope} {values : List Scalar}
    (hlength : sc.bindings.length = values.length) :
    L.Moves w.heap lane (L.enter lane ⟨w.heap.scopes.size⟩ values) (w.heap.allocScope sc).2 where
  extension := w.heap.extends_allocScope sc
  cells c hc := mem_cells_enter.mpr (.inr hc)
  owner c hc := (enter_of_ne (hL.ne_new hc)).2
  fresh c hc := by
    rcases mem_cells_enter.mp hc with ⟨j, -, rfl⟩ | hc
    · exact .inr (L.enter_self lane _ values j).2
    · exact .inl hc
  value c hc _ := (enter_of_ne (hL.ne_new hc)).1
  content c hc := by
    -- A binding of the new scope beyond the given ones was not there, and is not there now.
    by_cases hnew : ∃ j, c = .binding ⟨w.heap.scopes.size⟩ j
    · obtain ⟨j, rfl⟩ := hnew
      rcases hc with hc | ⟨hc, -⟩
      · have hle : values.length ≤ j :=
          Nat.le_of_not_lt fun hlt => hc (mem_cells_enter.mpr (.inl ⟨j, hlt, rfl⟩))
        have hempty : w.heap.scope ⟨w.heap.scopes.size⟩ = default :=
          w.heap.scope_of_le (Nat.le_refl w.heap.scopes.size)
        rw [Heap.read?_allocScope_self, List.getElem?_eq_none (hlength ▸ hle), Heap.read?, hempty]
        rfl
      · exact absurd rfl (hL.ne_new hc j)
    · exact Heap.read?_allocScope_of_ne _ _ fun j heq => hnew ⟨j, heq⟩
  isSealed _ _ := rfl

/-- An assignment moves the lane that the binding is in. -/
theorem set {w : World σ} (hL : L.Held natives root w) {c : Cell} (e : Expr) (v : Scalar)
    (hc : c ∈ L.cells) (hlane : L.owner c = lane) :
    L.Moves w.heap lane (L.set c v) (w.heap.write c e) where
  extension := w.heap.extends_write c e (hL.direct hc)
  cells _ hc' := hc'
  owner _ _ := rfl
  fresh _ hc' := .inl hc'
  value c' _ hne := if_neg fun heq : c' = c => hne (by rw [heq]; exact hlane)
  content c' hc' := by
    refine Heap.read?_write_of_ne _ _ fun heq => ?_
    subst heq
    rcases hc' with hc' | ⟨-, hne⟩
    · exact hc' hc
    · exact hne hlane
  isSealed id _ := w.heap.sealed_write c e id

end Moves

/-! ## Positions -/

namespace At

/-- The cell of a variable. -/
theorem cell (hat : L.At h lane s vars watched) {x : String} {c : Cell}
    (hx : (vars.lookup x).isSome = true) (hc : h.nameCell? (some s) x = some c) :
    c ∈ L.cells ∧ L.owner c = lane ∧ vars.lookup x = L.value c := by
  obtain ⟨v, hv⟩ := Option.isSome_iff_exists.mp hx
  obtain ⟨c', hc', hmem, howner, hvalue⟩ := hat.bound hv
  obtain rfl : c' = c := Option.some.inj (hc'.symm.trans hc)
  exact ⟨hmem, howner, hv.trans hvalue.symm⟩

/-- A name that has a value leads to the cell of a variable. -/
theorem computes_name (hat : L.At h lane s vars watched) {name : String}
    (he : e.evaluateIn vars = match vars.lookup name with
      | some v => .ok v
      | none => .error .unknownName)
    (hformula : ∀ {c}, h.nameCell? (some s) name = some c → c ∈ L.cells →
      e.Formula L.valuation h (some s))
    (hreads : e.reads h (some s) = (h.nameCell? (some s) name).toList)
    (hvalueIn : e.valueIn L.valuation h (some s) =
      (h.nameCell? (some s) name).bind L.valuation.value)
    (hv : e.evaluateIn vars = .ok v) :
    L.Computes h lane (some s) e v ∧ ∀ c ∈ e.reads h (some s),
      (vars.lookup name).isSome = true ∧ h.nameCell? (some s) name = some c := by
  rw [he] at hv
  cases hlookup : vars.lookup name with
  | none => rw [hlookup] at hv; cases hv
  | some u =>
    rw [hlookup] at hv
    obtain rfl : u = v := Except.ok.inj hv
    obtain ⟨c, hc, hmem, howner, hvalue⟩ := hat.bound hlookup
    rw [hc] at hreads hvalueIn
    have hread {c' : Cell} (hc' : c' ∈ e.reads h (some s)) : c' = c := by
      rw [hreads] at hc'
      exact List.mem_singleton.mp hc'
    refine ⟨⟨hformula hc hmem, fun c' hc' => ?_, hvalueIn.trans hvalue⟩, fun c' hc' => ?_⟩
    · rw [hread hc']
      exact howner
    · rw [hread hc']
      exact ⟨rfl, hc⟩

/-- A plain expression computes its value in a position, from the cells of the variables that it
names. -/
theorem computes (hat : L.At h lane s vars watched) (he : e.IsPlain)
    (hv : e.evaluateIn vars = .ok v) :
    L.Computes h lane (some s) e v ∧ ∀ c ∈ e.reads h (some s), ∃ x ∈ e.names,
      (vars.lookup x).isSome = true ∧ h.nameCell? (some s) x = some c := by
  -- Plain expressions are formulas over the variables; the cases are those of `Expr.IsPlain`.
  induction he generalizing v with
  | scalar u =>
    obtain rfl : u = v := Except.ok.inj hv
    exact ⟨⟨.scalar u, fun c hc => absurd hc List.not_mem_nil, rfl⟩,
      fun c hc => absurd hc List.not_mem_nil⟩
  | param name ty =>
    obtain ⟨hcomputes, hreads⟩ := hat.computes_name rfl (fun hc hm => .param ty hc hm) rfl rfl hv
    exact ⟨hcomputes, fun c hc => ⟨name, List.mem_singleton_self _, hreads c hc⟩⟩
  | localVar name ty =>
    obtain ⟨hcomputes, hreads⟩ := hat.computes_name rfl (fun hc hm => .localVar ty hc hm) rfl rfl hv
    exact ⟨hcomputes, fun c hc => ⟨name, List.mem_singleton_self _, hreads c hc⟩⟩
  | @binary op lhs rhs ty ha ho _ _ ihl ihr =>
    obtain ⟨a, hlhs, b, hrhs, hop⟩ := Expr.evaluate_binary_eq_ok.mp hv
    obtain ⟨hcl, hrl⟩ := ihl hlhs
    obtain ⟨hcr, hrr⟩ := ihr hrhs
    refine ⟨⟨.binary ty ha ho hcl.formula hcr.formula, fun c hc => ?_, ?_⟩, fun c hc => ?_⟩
    · rcases List.mem_append.mp hc with hc | hc
      · exact hcl.owned c hc
      · exact hcr.owned c hc
    · simp only [Expr.valueIn, hcl.value, hcr.value, Option.bind_eq_bind, Option.bind_some, hop]
      rfl
    · rcases List.mem_append.mp hc with hc | hc
      · obtain ⟨x, hx, hcell⟩ := hrl c hc
        exact ⟨x, List.mem_append_left _ hx, hcell⟩
      · obtain ⟨x, hx, hcell⟩ := hrr c hc
        exact ⟨x, List.mem_append_right _ hx, hcell⟩
  | @unary op operand ty ht _ ih =>
    obtain ⟨a, ha, hop⟩ := Expr.evaluate_unary_eq_ok.mp hv
    obtain ⟨hc, hr⟩ := ih ha
    refine ⟨⟨.unary ty ht hc.formula, hc.owned, ?_⟩, hr⟩
    simp only [Expr.valueIn, hc.value, Option.bind_eq_bind, Option.bind_some, hop]
    rfl

/-- A position stays one in every extension in which the bindings read nothing new. -/
theorem extend (hat : L.At h lane s vars watched) (hx : h.Extends h')
    (hless : ∀ c ∈ L.cells, ∀ e', h'.read? c = some e' →
      ∃ e, h.read? c = some e ∧ e'.reads h' none ⊆ e.reads h none) :
    L.At h' lane s vars watched where
  bound hv := by
    obtain ⟨c, hc, hrest⟩ := hat.bound hv
    exact ⟨c, hx.nameCell? hc, hrest⟩
  noticed {x c c' e'} hsome hc hc' he' hread := by
    obtain ⟨v, hv⟩ := Option.isSome_iff_exists.mp hsome
    obtain ⟨c₀, hc₀, -⟩ := hat.bound hv
    obtain rfl : c₀ = c := Option.some.inj ((hx.nameCell? hc₀).symm.trans hc)
    obtain ⟨e, he, hsub⟩ := hless c' hc' e' he'
    exact hat.noticed hsome hc₀ hc' he (hsub hread)

/-- A position stays one when another lane moves. -/
theorem moved {w w' : World σ} (hat : L.At w.heap lane s vars watched)
    (hL : L.Held natives root w) (hL' : L'.Held natives root w')
    (hm : L.Moves w.heap lane' L' w'.heap) (hne : lane ≠ lane') :
    L'.At w'.heap lane s vars watched where
  bound hv := by
    obtain ⟨c, hc, hmem, howner, hvalue⟩ := hat.bound hv
    refine ⟨c, hm.extension.nameCell? hc, hm.cells c hmem, (hm.owner c hmem).trans howner, ?_⟩
    rw [hm.value c hmem (by rw [howner]; exact hne), hvalue]
  noticed {x c c' e'} hsome hc hc' he' hread := by
    obtain ⟨v, hv⟩ := Option.isSome_iff_exists.mp hsome
    obtain ⟨c₀, hc₀, hmem, howner, -⟩ := hat.bound hv
    obtain rfl : c₀ = c := Option.some.inj ((hm.extension.nameCell? hc₀).symm.trans hc)
    -- What reads a variable of this lane is of this lane, and so it was there before.
    have hsame : L'.owner c' = lane := by
      rw [← hL'.owned hc' he' c₀ hread, hm.owner c₀ hmem, howner]
    rcases hm.fresh c' hc' with hold | hnew
    · have hlane : L.owner c' ≠ lane' := by
        rw [← hm.owner c' hold, hsame]
        exact hne
      obtain ⟨he₀, hreads⟩ :=
        hL.reads_extend hm.extension hold (hm.content c' (.inr ⟨hold, hlane⟩)) he'
      rw [hreads] at hread
      exact hat.noticed hsome hc₀ hold he₀ hread
    · exact absurd (hsame.symm.trans hnew) hne

/-- What bindings read is older than a new scope. -/
theorem not_new_of_reads {w : World σ} (hL : L.Held natives root w) {c : Cell} {e : Expr}
    (hc : c ∈ L.cells) (he : w.heap.read? c = some e) {sc : Scope} {c' : Cell}
    (hread : c' ∈ e.reads (w.heap.allocScope sc).2 none) (j : ℕ) :
    c' ≠ .binding ⟨w.heap.scopes.size⟩ j := by
  have hfit := hL.holds.fits hc he
  rw [hfit.formula.reads_extend (w.heap.extends_allocScope sc)] at hread
  exact hL.ne_new (hfit.formula.mem_cells hread) j

/-- **Declaring a variable** opens a scope around the rest of the body. What its initializer names is
watched from now on, and variables of the same name are out of sight. -/
theorem declared {w : World σ} (hat : L.At w.heap lane s vars watched)
    (hL : L.Held natives root w) {name : String} {init : Expr} (ty : TypeId)
    (hinit : init.IsPlain) (hv : init.evaluateIn vars = .ok v) :
    (L.enter lane ⟨w.heap.scopes.size⟩ [v]).At
      (w.heap.allocScope
        { parent := some s, bindings := [⟨name, init.closeOver (some s), ty⟩] }).2
      lane ⟨w.heap.scopes.size⟩ ((name, v) :: vars)
      ((watched ++ init.names).filter (· ≠ name)) := by
  obtain ⟨hcomputes, hnames⟩ := hat.computes hinit hv
  generalize hsc : ({ parent := some s, bindings := [⟨name, init.closeOver (some s), ty⟩] } : Scope)
    = sc
  have hx := w.heap.extends_allocScope sc
  -- The name leads to the new binding, and every other name to where it led before.
  have hself : (w.heap.allocScope sc).2.nameCell? (some ⟨w.heap.scopes.size⟩) name =
      some (.binding ⟨w.heap.scopes.size⟩ 0) := by
    have hfind : sc.bindings.findIdx? (·.name == name) = some 0 := by
      rw [← hsc, List.findIdx?_cons, beq_self_eq_true, if_pos rfl]
    rw [Heap.nameCell?, Option.bind_some, w.heap.lookup?_allocScope_self hfind]
    rfl
  have houter {x : String} {c : Cell} (hne : name ≠ x)
      (hc : w.heap.nameCell? (some s) x = some c) :
      (w.heap.allocScope sc).2.nameCell? (some ⟨w.heap.scopes.size⟩) x = some c := by
    obtain ⟨found, hfound, rfl⟩ := Option.map_eq_some_iff.mp hc
    have hparent : sc.parent = some s := by rw [← hsc]
    have hfind : sc.bindings.findIdx? (·.name == x) = none := by
      rw [← hsc, List.findIdx?_cons, beq_false_of_ne hne, if_neg Bool.false_ne_true]
      rfl
    rw [Heap.nameCell?, Option.bind_some,
      w.heap.lookup?_allocScope_parent hparent hfind hfound]
    rfl
  refine ⟨fun {x u} hlookup => ?_, fun {x c c' e'} hsome hc hc' he' hread => ?_⟩
  · by_cases hx : name = x
    · subst hx
      rw [List.lookup_cons_self] at hlookup
      obtain rfl := Option.some.inj hlookup
      exact ⟨_, hself, mem_cells_enter.mpr (.inl ⟨0, Nat.one_pos, rfl⟩),
        (L.enter_self lane _ [v] 0).2, (L.enter_self lane _ [v] 0).1⟩
    · rw [List.lookup_cons, beq_false_of_ne (Ne.symm hx)] at hlookup
      obtain ⟨c, hc, hmem, howner, hvalue⟩ := hat.bound hlookup
      have hsame : (L.enter lane ⟨w.heap.scopes.size⟩ [v]).value c = L.value c ∧
          (L.enter lane ⟨w.heap.scopes.size⟩ [v]).owner c = L.owner c :=
        enter_of_ne (hL.ne_new hmem)
      exact ⟨c, houter hx hc, mem_cells_enter.mpr (.inr hmem), hsame.2.trans howner,
        hsame.1.trans hvalue⟩
  · have hread' := hread
    -- A binding that was there before reads no new one, and neither does the initializer.
    have hold : (∀ j, c ≠ .binding ⟨w.heap.scopes.size⟩ j) ∧
        ((c' ∈ L.cells ∧ w.heap.read? c' = some e' ∧ c ∈ e'.reads w.heap none) ∨
          c ∈ init.reads w.heap (some s)) := by
      rcases mem_cells_enter.mp hc' with ⟨j, hj, rfl⟩ | hc'
      · obtain rfl : j = 0 := Nat.lt_one_iff.mp hj
        rw [Heap.read?_allocScope_self, ← hsc] at he'
        obtain rfl : init.closeOver (some s) = e' := Option.some.inj he'
        have hinitReads : c ∈ init.reads w.heap (some s) := by
          rw [← hcomputes.formula.reads_extend hx]
          cases hterm : init.isTerminal with
          | true =>
            obtain ⟨id, u, rfl, -⟩ := hcomputes.formula.of_isTerminal hterm
            cases hread
          | false =>
            rw [Expr.closeOver, hterm] at hread
            exact hread
        exact ⟨hL.ne_new (hcomputes.mem_cells hinitReads), .inr hinitReads⟩
      · obtain ⟨he₀, hsame⟩ :=
          hL.reads_extend hx hc' (Heap.read?_allocScope_of_ne _ _ (hL.ne_new hc')) he'
        exact ⟨not_new_of_reads hL hc' he₀ hread, .inl ⟨hc', he₀, hsame ▸ hread⟩⟩
    obtain ⟨hnew, hreads⟩ := hold
    -- So `x` is another name than the declared one, and it has had a value before.
    have hne : name ≠ x := by
      rintro rfl
      exact hnew 0 (Option.some.inj (hc.symm.trans hself))
    have hsome' : (vars.lookup x).isSome = true := by
      rwa [List.lookup_cons, beq_false_of_ne (Ne.symm hne)] at hsome
    obtain ⟨u, hu⟩ := Option.isSome_iff_exists.mp hsome'
    obtain ⟨c₀, hc₀, -⟩ := hat.bound hu
    obtain rfl : c₀ = c := Option.some.inj ((houter hne hc₀).symm.trans hc)
    rw [List.mem_filter, List.mem_append]
    refine ⟨?_, decide_eq_true (Ne.symm hne)⟩
    rcases hreads with ⟨hc', he', hread⟩ | hread
    · exact .inl (hat.noticed hsome' hc₀ hc' he' hread)
    · obtain ⟨y, hy, -, hcell⟩ := hnames c₀ hread
      obtain rfl := Heap.name_eq_of_nameCell? hcell hc₀
      exact .inr hy

/-- Looking a name up among names with values, and looking it up among bindings of these names. -/
theorem exists_findIdx?_of_lookup {bindings : List Binding} {values : List Scalar} {x : String}
    {v : Scalar} (hv : ((bindings.map (·.name)).zip values).lookup x = some v) :
    ∃ i, bindings.findIdx? (·.name == x) = some i ∧ values[i]? = some v := by
  induction bindings generalizing values with
  | nil => cases hv
  | cons b bindings ih =>
    cases values with
    | nil => cases hv
    | cons u values =>
      rw [List.map_cons, List.zip_cons_cons, List.lookup_cons] at hv
      rw [List.findIdx?_cons]
      by_cases hx : x = b.name
      · subst hx
        rw [beq_self_eq_true] at hv ⊢
        exact ⟨0, rfl, hv⟩
      · rw [beq_false_of_ne hx] at hv
        obtain ⟨i, hi, hvi⟩ := ih hv
        refine ⟨i + 1, ?_, hvi⟩
        rw [beq_false_of_ne (Ne.symm hx), hi]
        rfl

/-- **Entering a body** puts a lane into a scope whose bindings are the parameters. Nothing reads
them yet. -/
theorem entered {w : World σ} (hL : L.Held natives root w) (lane : Option ℕ) {sc : Scope}
    {values : List Scalar}
    (hreads : ∀ b ∈ sc.bindings, b.expr.reads (w.heap.allocScope sc).2 none = []) :
    (L.enter lane ⟨w.heap.scopes.size⟩ values).At (w.heap.allocScope sc).2 lane
      ⟨w.heap.scopes.size⟩ ((sc.bindings.map (·.name)).zip values) [] := by
  have hcell {x : String} {v : Scalar}
      (hv : ((sc.bindings.map (·.name)).zip values).lookup x = some v) :
      ∃ i, (w.heap.allocScope sc).2.nameCell? (some ⟨w.heap.scopes.size⟩) x =
        some (.binding ⟨w.heap.scopes.size⟩ i) ∧ values[i]? = some v := by
    obtain ⟨i, hi, hvi⟩ := exists_findIdx?_of_lookup hv
    refine ⟨i, ?_, hvi⟩
    rw [Heap.nameCell?, Option.bind_some, w.heap.lookup?_allocScope_self hi]
    rfl
  refine ⟨fun {x v} hv => ?_, fun {x c c' e'} hsome hc hc' he' hread => ?_⟩
  · obtain ⟨i, hc, hvi⟩ := hcell hv
    obtain ⟨hvalue, howner⟩ := L.enter_self lane ⟨w.heap.scopes.size⟩ values i
    exact ⟨_, hc, mem_cells_enter.mpr (.inl ⟨i, (List.getElem?_eq_some_iff.mp hvi).1, rfl⟩),
      howner, hvalue.trans hvi⟩
  · obtain ⟨v, hv⟩ := Option.isSome_iff_exists.mp hsome
    obtain ⟨i, hci, -⟩ := hcell hv
    obtain rfl : .binding ⟨w.heap.scopes.size⟩ i = c := Option.some.inj (hci.symm.trans hc)
    rcases mem_cells_enter.mp hc' with ⟨j, hj, rfl⟩ | hc'
    · rw [Heap.read?_allocScope_self] at he'
      obtain ⟨b, hb, rfl⟩ := Option.map_eq_some_iff.mp he'
      rw [hreads b (List.mem_of_getElem? hb)] at hread
      cases hread
    · -- What another cell reads is older than the scope.
      rw [Heap.read?_allocScope_of_ne _ _ (hL.ne_new hc')] at he'
      exact absurd rfl (not_new_of_reads hL hc' he' hread i)

/-- **An assignment** gives a variable another value. -/
theorem assigned {w : World σ} (hat : L.At w.heap lane s vars watched)
    (hL : L.Held natives root w) {name : String} {c : Cell} {id : InstanceId}
    (hname : (vars.lookup name).isSome = true) (hc : w.heap.nameCell? (some s) name = some c) :
    (L.set c v).At (w.heap.write c (.object id)) lane s (vars.assign name v) watched := by
  obtain ⟨hmem, howner, -⟩ := hat.cell hname hc
  have hx := w.heap.extends_write c (.object id) (hL.direct hmem)
  -- No variable is added.
  have hlookup (x : String) : ((vars.assign name v).lookup x).isSome = (vars.lookup x).isSome := by
    rw [Variables.lookup_assign]
    split
    case isTrue heq => rw [heq, Option.isSome_map]
    case isFalse => rfl
  refine ⟨fun {x u} hu => ?_, fun {x c₁ c' e'} hsome hc₁ hc' he' hread => ?_⟩
  · rw [Variables.lookup_assign] at hu
    by_cases heq : x = name
    · subst heq
      rw [if_pos rfl] at hu
      obtain ⟨_, -, rfl⟩ := Option.map_eq_some_iff.mp hu
      exact ⟨c, hx.nameCell? hc, hmem, howner, if_pos rfl⟩
    · rw [if_neg heq] at hu
      obtain ⟨c₁, hc₁, hmem₁, howner₁, hvalue₁⟩ := hat.bound hu
      have hne : c₁ ≠ c := by
        rintro rfl
        exact heq (Heap.name_eq_of_nameCell? hc₁ hc)
      exact ⟨c₁, hx.nameCell? hc₁, hmem₁, howner₁, (if_neg hne).trans hvalue₁⟩
  · rw [hlookup] at hsome
    obtain ⟨u, hu⟩ := Option.isSome_iff_exists.mp hsome
    obtain ⟨c₀, hc₀, -⟩ := hat.bound hu
    obtain rfl : c₀ = c₁ := Option.some.inj ((hx.nameCell? hc₀).symm.trans hc₁)
    by_cases heq : c = c'
    · subst heq
      obtain ⟨e₀, he₀, -⟩ := hL.holds.cell c hc'
      rw [Heap.read?_write_self, he₀] at he'
      obtain rfl : .object id = e' := Option.some.inj he'
      cases hread
    · obtain ⟨hold, hsame⟩ := hL.reads_extend hx hc' (Heap.read?_write_of_ne _ _ heq) he'
      rw [hsame] at hread
      exact hat.noticed hsome hc₀ hc' hold hread

end At

/-! ## What is still to run -/

/-- A closed computation is the same in every scope. -/
theorem Computes.closed (hc : L.Computes h lane scope e v) {types : Registry}
    (hclosed : e.isClosed types = true) (scope' : Option ScopeId) :
    L.Computes h lane scope' e v := by
  obtain ⟨hformula, hvalue, hreads⟩ := hc.formula.of_isClosed hclosed scope'
  exact ⟨hformula, by rw [hreads]; exact hc.owned, hvalue.trans hc.value⟩

/-- A computation stays one when another lane moves. -/
theorem Computes.moved (hc : L.Computes h lane scope e v) (hm : L.Moves h lane' L' h')
    (hne : lane ≠ lane') : L'.Computes h' lane scope e v := by
  refine Computes.extend (hc.change fun c hcell => ?_) hm.extension
  have hmem := hc.mem_cells hcell
  have howner : L.owner c ≠ lane' := by
    rw [hc.owned c hcell]
    exact hne
  exact ⟨hm.cells c hmem, hm.value c hmem howner, hm.owner c hmem⟩

section Map

variable (hcomputes : ∀ {scope e v}, L.Computes h lane scope e v → L'.Computes h' lane scope e v)

include hcomputes

/-- What is due stays due wherever computations do. -/
theorem Due.map {stmts : List Stmt} (hd : L.Due h lane s vars watched r stmts) :
    L'.Due h' lane s vars watched r stmts := by
  cases hd with
  | written hplain hfree hr => exact .written hplain hfree hr
  | assign hc hname hwatched hplain hfree hr =>
    exact .assign (hcomputes hc) hname hwatched hplain hfree hr
  | branch hc ht hf hplain hfree hr => exact .branch (hcomputes hc) ht hf hplain hfree hr

/-- What a lane comes to stays the same wherever computations and positions do. -/
theorem Runs.map (hposition : ∀ {s vars watched}, L.At h lane s vars watched →
    L'.At h' lane s vars watched) (hr : L.Runs h lane r scope e) :
    L'.Runs h' lane r scope e := by
  induction hr with
  | value hc hv => exact .value (hcomputes hc) hv
  | missing ty hv => exact .missing ty hv
  | block ty hat hd => exact .block ty (hposition hat) (hd.map hcomputes)
  | within _ ih => exact .within ih

end Map

namespace Runs

/-- What a lane comes to stays the same in every extension in which the bindings read nothing new. -/
theorem extend (hr : L.Runs h lane r scope e) (hx : h.Extends h')
    (hless : ∀ c ∈ L.cells, ∀ e', h'.read? c = some e' →
      ∃ e, h.read? c = some e ∧ e'.reads h' none ⊆ e.reads h none) :
    L.Runs h' lane r scope e :=
  Runs.map (fun hc => hc.extend hx) (fun hat => hat.extend hx hless) hr

/-- What a lane comes to stays the same when another lane moves. -/
theorem moved {w w' : World σ} (hr : L.Runs w.heap lane r scope e) (hL : L.Held natives root w)
    (hL' : L'.Held natives root w') (hm : L.Moves w.heap lane' L' w'.heap) (hne : lane ≠ lane') :
    L'.Runs w'.heap lane r scope e :=
  Runs.map (fun hc => hc.moved hm hne) (fun hat => hat.moved hL hL' hm hne) hr

/-- What needs nothing from its scope comes to the same outside of it. -/
theorem closed (hr : L.Runs h lane r scope e) {types : Registry}
    (hclosed : e.isTerminal = true ∨ e.isClosed types = true) (scope' : Option ScopeId) :
    L.Runs h lane r scope' e := by
  cases hr with
  | value hc hv =>
    have he : e.isClosed types = true :=
      hclosed.elim (hc.formula.closed_of_isTerminal types) id
    exact .value (hc.closed he scope') hv
  | missing ty hv => exact .missing ty hv
  | block ty _ _ => exact absurd hclosed (by simp [Expr.isTerminal, Expr.isClosed])
  | within hr => exact .within hr

end Runs

end Lanes

end ObjectGraph
