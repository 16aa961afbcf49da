import ObjectGraph.Proofs.Body.Call
import ObjectGraph.Proofs.Evaluation

/-!
# Evaluating an object of calls

Each property of the object is a lane: it is a call that is yet to be entered, or it has come to
something on the way to its result (`Lanes.Stands`). Sweeps keep this, whatever their order, and each
reduction takes away from what there is to do. A property that makes no progress waits for a binding,
which waits for an older one at most, so that something always moves until all properties have come
to their results (`Underway.terminal_of_idle`).
-/

namespace ObjectGraph

variable {σ : Type} {natives : Natives σ}

/-- How much there is left to do in a property, with `n` for a call. -/
def Expr.workWith (n : ℕ) : Expr → ℕ
  | .scoped _ (.call _ _ _ _) => n
  | e => e.weight

/-- What a property holds is its call still, or has come nearer to the result. -/
def Lanes.Stands (L : Lanes) (h : Heap) (i : ℕ) (c : Call) (r : Option Scalar) (e : Expr) : Prop :=
  e = .scoped ⟨0⟩ c.expr ∨ L.Runs h (some i) r none e

namespace Lanes

variable {L L' : Lanes} {h h' : Heap} {i : ℕ} {c : Call} {r : Option Scalar} {e : Expr}

/-- What a lane has come to is not a call. -/
theorem Runs.workWith_eq {lane : Option ℕ} {scope : Option ScopeId}
    (hr : L.Runs h lane r scope e) (n : ℕ) : e.workWith n = e.weight := by
  unfold Expr.workWith
  split
  case h_1 =>
    cases hr with
    | value hc _ =>
      cases hc.formula with
      | within hf => cases hf
    | within hr =>
      cases hr with
      | value hc _ => cases hc.formula
  case h_2 => rfl

/-- A property stays where it is in every extension in which the bindings read nothing new. -/
theorem Stands.extend (hs : L.Stands h i c r e) (hx : h.Extends h')
    (hless : ∀ c ∈ L.cells, ∀ e', h'.read? c = some e' →
      ∃ e, h.read? c = some e ∧ e'.reads h' none ⊆ e.reads h none) : L.Stands h' i c r e :=
  hs.imp_right fun hr => hr.extend hx hless

/-- A property stays where it is when another one moves. -/
theorem Stands.moved {w w' : World σ} {root : InstanceId} {j : ℕ} (hs : L.Stands w.heap i c r e)
    (hL : L.Held natives root w) (hL' : L'.Held natives root w')
    (hm : L.Moves w.heap (some j) L' w'.heap) (hne : i ≠ j) : L'.Stands w'.heap i c r e :=
  hs.imp_right fun hr => hr.moved hL hL' hm fun heq => hne (Option.some.inj heq)

/-- A pass over a property enters the call or goes on. -/
theorem Stands.reduce {s : Pass σ} {cls : TypeId} {d : TypeDef} (hn : natives.HasScalars)
    (hs : L.Stands s.world.heap i c r e) (hc : c.ComesTo d r)
    (ho : s.world.HasObject natives cls d) (hL : L.Held natives ⟨0⟩ s.world) {n : ℕ}
    (hwork : c.work ≤ n) :
    Ends (e.reduce natives none) s
      (L.Advanced natives ⟨0⟩ (some i) r none (e.workWith n) e s) fun _ _ => False := by
  rcases hs with rfl | hr
  · exact Call.reduce hc ho hL hwork
  · rw [hr.workWith_eq n]
    exact hr.reduce hn hL

/-- Writing a property changes nothing that the bindings read. -/
theorem reads_writeSlot {w : World σ} {root : InstanceId} (hL : L.Held natives root w) {j : ℕ}
    {e' : Expr} {cell : Cell} (hcell : cell ∈ L.cells) {e : Expr}
    (he : (w.heap.write (.slot root j) e').read? cell = some e) :
    ∃ e₀, w.heap.read? cell = some e₀ ∧
      e.reads (w.heap.write (.slot root j) e') none ⊆ e₀.reads w.heap none := by
  have hx := w.heap.extends_write (.slot root j) e' (by intro o k heq; cases heq)
  refine hL.reads_subset hx (fun c hc => ?_) cell hcell e he
  exact Heap.read?_write_of_ne _ _ (Ne.symm (hL.ne_slot hc root j))

/-- If no cell can be reduced, no binding that discovery finds is pending: it would wait for a
binding of an older scope, which discovery finds as well. -/
theorem Held.not_pending_of_idle {w : World σ} {root : InstanceId} (hL : L.Held natives root w)
    (hn : natives.HasScalars) (hidle : Effect.CellsIdle natives root w) {c : Cell}
    (hcell : c ∈ L.cells) (hreach : w.heap.Reaches (.object root) c.node) :
    ¬w.heap.Pending c := by
  -- A waiting binding reads one of an older scope, so the waiting ends somewhere.
  induction hdepth : c.depth using Nat.strongRecOn generalizing c with
  | _ depth ih =>
    subst hdepth
    rintro ⟨e, he, hterm⟩
    have hopen : w.heap.isOpen c.node = true := by
      obtain ⟨t, j, rfl⟩ := hL.isBinding c hcell
      rfl
    have hfound : (w.heap.discover root).has c.node = true :=
      (Heap.has_discover_iff root).mpr ⟨hreach, hopen⟩
    have hswept := (hL.holds.ends_sweepCell hn hcell).ok (hidle c e he hfound)
    obtain ⟨c', hc', hpending⟩ := hswept.waits rfl e he hterm
    have hfit := hL.holds.fits hcell he
    have hcell' := hfit.formula.mem_cells hc'
    have hmentions : w.heap.Mentions none e c' :=
      Heap.mentions_of_mem_reads hc' (hL.ne_slot hcell')
    refine ih c'.depth (hfit.ranked (hL.total c hcell) c' hc') hcell' ?_ rfl hpending
    exact hreach.trans (Heap.reaches_of_mentions he hopen hmentions)

end Lanes

/-- A class whose properties call its methods, and what the calls come to. -/
structure CallClass (natives : Natives σ) (types : Registry) (cls : TypeId) (calls : List Call)
    (results : List (Option Scalar)) : Prop extends PlainClass natives types cls where
  /-- The properties have distinct names. -/
  names : ((types.definition cls).properties.map (·.name)).Nodup
  /-- The constructor takes nothing. -/
  params : (types.definition cls).params = []
  /-- The initializers are the calls. -/
  initializers : (types.definition cls).properties.map (·.initializer) =
    calls.map fun c => some c.expr
  /-- The calls come to the results. -/
  comesTo : List.Forall₂ (fun c r => c.ComesTo (types.definition cls) r) calls results

/-- The properties of an object of the class are being evaluated. -/
structure Underway (natives : Natives σ) (types : Registry) (cls : TypeId) (calls : List Call)
    (results : List (Option Scalar)) (w : World σ) : Prop where
  /-- No types have been lost. -/
  registry : types.Extends w.types
  /-- The heap has been extended since the object was new. -/
  since : ∃ bindings inherited native, (Heap.ofObject cls bindings inherited
    ((types.definition cls).properties.map (initialSlot native ⟨0⟩ cls ⟨0⟩))).Extends w.heap
  /-- Each property is a lane. -/
  lanes : ∃ L : Lanes, L.Held natives ⟨0⟩ w ∧ ∀ {i c r}, calls[i]? = some c →
    results[i]? = some r → ∃ e, w.heap.read? (.slot ⟨0⟩ i) = some e ∧ L.Stands w.heap i c r e
  /-- The object is final only if its properties are terminal. -/
  final : (w.heap.get ⟨0⟩).sealed = true → w.heap.SlotsTerminal ⟨0⟩

/-- What there is left to do in the bindings and in the properties. -/
def callsWork (calls : List Call) (h : Heap) : ℕ :=
  h.bindingWeight + total (fun i =>
    ((h.read? (.slot ⟨0⟩ i)).map (Expr.workWith (total Call.work calls))).getD 0)
    (List.range calls.length)

namespace Underway

variable {types : Registry} {cls : TypeId} {calls : List Call} {results : List (Option Scalar)}
  {w w' : World σ} (hc : CallClass natives types cls calls results)
  (hw : Underway natives types cls calls results w)

include hc hw

/-- The object is there. -/
theorem hasObject : w.HasObject natives cls (types.definition cls) := by
  obtain ⟨bindings, inherited, native, hsince⟩ := hw.since
  have hplaced : (0 : ℕ) < (Heap.ofObject cls bindings inherited
    ((types.definition cls).properties.map (initialSlot native ⟨0⟩ cls ⟨0⟩))).instances.size :=
    Nat.one_pos
  refine ⟨hw.registry.definition (Registry.lt_size_of_parent hc.parent), hc.lineage_eq hw.registry,
    hc.nearest?_eq_none hw.registry, hsince.ty hplaced, ?_, ?_, hsince.receiver rfl⟩
  · rw [hsince.names hplaced]
    exact List.map_map
  · have hne : cls ≠ .any := by
      rintro rfl
      have hnone := hc.builtins.definition_any.1
      rw [← Registry.parent, hc.parent] at hnone
      cases hnone
    rw [Instance.constructorScope?, hsince.scopes hplaced]
    show ([(.any, ⟨1⟩), (cls, ⟨0⟩)] : List (TypeId × ScopeId)).lookup cls = _
    rw [List.lookup_cons, beq_false_of_ne hne, List.lookup_cons, beq_self_eq_true]

/-- There is a property for each call. -/
theorem length_slots : (w.heap.get ⟨0⟩).slots.length = calls.length := by
  have hnames := congrArg List.length (hw.hasObject hc).names
  have hinitializers := congrArg List.length hc.initializers
  simp only [List.length_map] at hnames hinitializers
  omega

/-- Each property has its call and its result. -/
theorem exists_call {i : ℕ} {e : Expr} (he : w.heap.read? (.slot ⟨0⟩ i) = some e) :
    i < calls.length ∧ ∃ c r, calls[i]? = some c ∧ results[i]? = some r ∧
      c.ComesTo (types.definition cls) r ∧ c.work ≤ total Call.work calls := by
  obtain ⟨slot, hslot, -⟩ := Option.map_eq_some_iff.mp he
  have hi : i < calls.length := by
    rw [← hw.length_slots hc]
    exact (List.getElem?_eq_some_iff.mp hslot).1
  have hi' : i < results.length := hc.comesTo.length_eq ▸ hi
  exact ⟨hi, calls[i], results[i], List.getElem?_eq_getElem hi, List.getElem?_eq_getElem hi',
    hc.comesTo.get hi hi', le_total (List.getElem_mem hi)⟩

section Lanes

variable (hn : natives.HasScalars) {L : Lanes} (hL : L.Held natives ⟨0⟩ w)
  (hlanes : ∀ {i c r}, calls[i]? = some c → results[i]? = some r →
    ∃ e, w.heap.read? (.slot ⟨0⟩ i) = some e ∧ L.Stands w.heap i c r e)

include hn hL hlanes

omit hc in
/-- A pass over a binding keeps the evaluation underway. -/
theorem ends_sweepBinding {c : Cell} (hcell : c ∈ L.cells) :
    Ends (Effect.sweepCell natives c) w
      (fun n w' => (Underway natives types cls calls results w' ∧
        (w'.heap.get ⟨0⟩).sealed = (w.heap.get ⟨0⟩).sealed) ∧
        n + callsWork calls w'.heap ≤ callsWork calls w.heap ∧ (n = 0 → w' = w))
      fun _ _ => False := by
  refine (hL.holds.ends_sweepCell hn hcell).mono (fun n w' hs => ?_) fun _ _ hnone => ?_
  · have hx := hs.extension (hL.direct hcell)
    -- The pass touches one binding. No property changes, and no binding reads anything new.
    have hslot (i : ℕ) : w'.heap.read? (.slot ⟨0⟩ i) = w.heap.read? (.slot ⟨0⟩ i) :=
      hs.read?_of_ne (hL.ne_slot hcell ⟨0⟩ i)
    have hless : ∀ c' ∈ L.cells, ∀ e', w'.heap.read? c' = some e' →
        ∃ e, w.heap.read? c' = some e ∧ e'.reads w'.heap none ⊆ e.reads w.heap none := by
      intro c' hc' e' he'
      by_cases heq : c = c'
      · subst heq
        obtain ⟨e, he, -⟩ := hL.holds.cell c hc'
        exact ⟨e, he, hs.reads e e' he he'⟩
      · obtain ⟨he, hsame⟩ := hL.reads_extend hx hc' (hs.read?_of_ne heq) he'
        exact ⟨e', he, hsame ▸ List.Subset.refl _⟩
    have hsealed : (w'.heap.get ⟨0⟩).sealed = (w.heap.get ⟨0⟩).sealed := hs.isSealed hL.placed
    refine ⟨⟨⟨hs.types ▸ hw.registry, ?_, ⟨L, hL.swept hcell hs, fun hci hri => ?_⟩, ?_⟩, hsealed⟩,
      ?_, hs.idle⟩
    · obtain ⟨bindings, inherited, native, hsince⟩ := hw.since
      exact ⟨bindings, inherited, native, hsince.trans hx⟩
    · obtain ⟨e, he, hstands⟩ := hlanes hci hri
      exact ⟨e, (hslot _).trans he, hstands.extend hx hless⟩
    · intro hfinal i e he
      rw [hsealed] at hfinal
      exact hw.final hfinal i e ((hslot i).symm.trans he)
    · have hcount := hs.count
      obtain ⟨e, he, -⟩ := hL.holds.cell c hcell
      obtain ⟨h, e', hg, rfl, -⟩ := hs.written
      obtain ⟨t, j, rfl⟩ := hL.isBinding c hcell
      have hread : h.read? (.binding t j) = some e := (hg.read? _).trans he
      have hwrite := h.bindingWeight_write e' hread
      rw [Heap.bindingWeight_of_scopes_eq hg.scopes] at hwrite
      simp only [Heap.weightAt, Heap.read?_write_self, hread, he, Option.map_some,
        Option.getD_some] at hcount
      simp only [callsWork, hslot]
      omega
  · have hsome := hL.total c hcell
    rw [show L.value c = none from hnone] at hsome
    cases hsome

/-- A pass over a property keeps the evaluation underway. Without reductions the property waits for
a binding. -/
theorem ends_sweepProperty {i : ℕ} {e : Expr} (he : w.heap.read? (.slot ⟨0⟩ i) = some e)
    (hterm : e.isTerminal = false) :
    Ends (Effect.sweepCell natives (.slot ⟨0⟩ i)) w
      (fun n w' => (Underway natives types cls calls results w' ∧
        (w'.heap.get ⟨0⟩).sealed = (w.heap.get ⟨0⟩).sealed) ∧
        n + callsWork calls w'.heap ≤ callsWork calls w.heap ∧ (n = 0 → w' = w ∧
          ∃ c ∈ L.cells, w.heap.Mentions none e c ∧ w.heap.Pending c))
      fun _ _ => False := by
  obtain ⟨hi, c, r, hci, hri, hcomes, hwork⟩ := hw.exists_call hc he
  obtain ⟨e₀, he₀, hstands⟩ := hlanes hci hri
  obtain rfl : e₀ = e := Option.some.inj (he₀.symm.trans he)
  refine Ends.bind (Ends.of_ok rfl ?_)
  simp only [he, hterm, Bool.false_eq_true, if_false]
  -- The pass moves this property's lane, and then what it leaves is written back.
  have hpass := hstands.reduce (s := ⟨w, 0⟩) hn hcomes (hw.hasObject hc) hL hwork
  refine Ends.bind (Effect.ends_pass (hpass.mono (fun e' s' hp => ?_) fun _ _ h => h))
  obtain ⟨L', hL', hr', hm⟩ := hp.lanes
  have hx := s'.world.heap.extends_write (.slot ⟨0⟩ i) e' (by intro o k heq; cases heq)
  have hslot (j : ℕ) : s'.world.heap.read? (.slot ⟨0⟩ j) = w.heap.read? (.slot ⟨0⟩ j) :=
    hm.content _ (.inl fun hmem => absurd rfl (hL'.ne_slot hmem ⟨0⟩ j))
  have hself : (s'.world.heap.write (.slot ⟨0⟩ i) e').read? (.slot ⟨0⟩ i) = some e' := by
    rw [Heap.read?_write_self, hslot, he]
    rfl
  have hother {j : ℕ} (hj : j ≠ i) :
      (s'.world.heap.write (.slot ⟨0⟩ i) e').read? (.slot ⟨0⟩ j) = w.heap.read? (.slot ⟨0⟩ j) := by
    rw [Heap.read?_write_of_ne _ _ (by intro heq; cases heq; exact hj rfl), hslot]
  have hsealed : ((s'.world.heap.write (.slot ⟨0⟩ i) e').get ⟨0⟩).sealed =
      (w.heap.get ⟨0⟩).sealed := by
    rw [Heap.sealed_write]
    exact hm.isSealed ⟨0⟩ hL.placed
  refine Ends.of_ok rfl ⟨⟨⟨hw.registry.trans hp.types, ?_,
    ⟨L', hL'.writeSlot (hr'.confined hL'), fun {j c' r'} hcj hrj => ?_⟩, fun hfinal => ?_⟩,
    hsealed⟩, ?_, fun hzero => ?_⟩
  · obtain ⟨bindings, inherited, native, hsince⟩ := hw.since
    exact ⟨bindings, inherited, native, (hsince.trans hm.extension).trans hx⟩
  · by_cases hj : j = i
    · subst hj
      obtain rfl : r = r' := Option.some.inj (hri.symm.trans hrj)
      exact ⟨e', hself, .inr (hr'.extend hx fun _ hcell _ => Lanes.reads_writeSlot hL' hcell)⟩
    · obtain ⟨e₁, he₁, hstands₁⟩ := hlanes hcj hrj
      exact ⟨e₁, (hother hj).trans he₁,
        (hstands₁.moved hL hL' hm hj).extend hx fun _ hcell _ => Lanes.reads_writeSlot hL' hcell⟩
  · rw [hsealed] at hfinal
    rw [hw.final hfinal i e₀ he] at hterm
    cases hterm
  · have hcount : s'.reductions + (s'.world.heap.bindingWeight + e'.weight) ≤
        0 + (w.heap.bindingWeight + e₀.workWith (total Call.work calls)) := hp.count
    have hweight : e'.workWith (total Call.work calls) = e'.weight := hr'.workWith_eq _
    -- Of the properties only this one counts differently afterwards.
    have hchange := total_change
      (fun j => ((w.heap.read? (.slot ⟨0⟩ j)).map
        (Expr.workWith (total Call.work calls))).getD 0)
      (fun j => (((s'.world.heap.write (.slot ⟨0⟩ i) e').read? (.slot ⟨0⟩ j)).map
        (Expr.workWith (total Call.work calls))).getD 0)
      List.nodup_range (List.mem_range.mpr hi) fun j _ hj => by rw [hother hj]
    simp only [hself, he, Option.map_some, Option.getD_some] at hchange
    have hbindings : (s'.world.heap.write (.slot ⟨0⟩ i) e').bindingWeight =
        s'.world.heap.bindingWeight := Heap.bindingWeight_of_scopes_eq rfl
    show s'.reductions + callsWork calls (s'.world.heap.write (.slot ⟨0⟩ i) e') ≤
      callsWork calls w.heap
    rw [callsWork, hbindings, callsWork]
    omega
  · obtain ⟨rfl, rfl, hwaits⟩ := hp.idle hzero
    refine ⟨?_, hwaits hterm⟩
    show { w with heap := w.heap.write (.slot ⟨0⟩ i) e' } = w
    rw [w.heap.write_of_read? he]

/-- If no cell can be reduced, all properties have come to their results. -/
theorem terminal_of_idle (hidle : Effect.CellsIdle natives ⟨0⟩ w)
    (hopen : (w.heap.get ⟨0⟩).sealed = false) {i : ℕ} {e : Expr}
    (he : w.heap.read? (.slot ⟨0⟩ i) = some e) : e.isTerminal = true := by
  refine Bool.not_eq_false _ ▸ fun hterm => ?_
  have hroot : w.heap.isOpen (.object ⟨0⟩) = true := by
    rw [Heap.isOpen, hopen]
    rfl
  have hfound : (w.heap.discover ⟨0⟩).has (.object ⟨0⟩) = true :=
    (Heap.has_discover_iff ⟨0⟩).mpr ⟨.refl, hroot⟩
  have hswept := (hw.ends_sweepProperty hc hn hL hlanes he hterm).ok (hidle _ e he hfound)
  obtain ⟨-, c, hcell, hmentions, hpending⟩ := hswept.2.2 rfl
  have hreach := Heap.reaches_of_mentions (c := .slot ⟨0⟩ i) he hroot hmentions
  exact hL.not_pending_of_idle hn hidle hcell hreach hpending

end Lanes

/-- A pass over any cell keeps the evaluation underway. -/
theorem ends_sweepCell (hn : natives.HasScalars) (c : Cell) {final : Bool}
    (hfinal : (w.heap.get ⟨0⟩).sealed = final) :
    Ends (Effect.sweepCell natives c) w
      (Advances (fun w => Underway natives types cls calls results w ∧
        (w.heap.get ⟨0⟩).sealed = final) (callsWork calls ·.heap) w)
      fun _ _ => False := by
  obtain ⟨L, hL, hlanes⟩ := hw.lanes
  by_cases hquiet : ∀ e, w.heap.read? c = some e → e.isTerminal = true
  · exact Ends.of_ok (Effect.idle_of_quiet hquiet) (.refl ⟨hw, hfinal⟩)
  · push Not at hquiet
    obtain ⟨e, he, hopen⟩ := hquiet
    by_cases hcell : c ∈ L.cells
    · refine (hw.ends_sweepBinding hn hL hlanes hcell).mono (fun n w' h => ?_) fun _ _ h => h
      exact ⟨⟨h.1.1, h.1.2.trans hfinal⟩, h.2.1, h.2.2⟩
    · -- Whatever is neither a binding of a lane nor a property is terminal.
      obtain ⟨i, rfl⟩ : ∃ i, c = .slot ⟨0⟩ i :=
        by_contra fun hslot => hopen (hL.quiet he hcell fun i heq => hslot ⟨i, heq⟩)
      refine (hw.ends_sweepProperty hc hn hL hlanes he (Bool.eq_false_iff.mpr hopen)).mono
        (fun n w' h => ?_) fun _ _ h => h
      exact ⟨⟨h.1.1, h.1.2.trans hfinal⟩, h.2.1, fun hzero => (h.2.2 hzero).1⟩

omit hc in
/-- Marking the object as final keeps the evaluation underway, once the properties are terminal. -/
theorem markSealed (hterm : w.heap.SlotsTerminal ⟨0⟩) :
    Underway natives types cls calls results { w with heap := w.heap.markSealed ⟨0⟩ } := by
  have hx := w.heap.extends_markSealed ⟨0⟩
  obtain ⟨L, hL, hlanes⟩ := hw.lanes
  obtain ⟨bindings, inherited, native, hsince⟩ := hw.since
  refine ⟨hw.registry, ⟨bindings, inherited, native, hsince.trans hx⟩,
    ⟨L, hL.markSealed, fun {i c r} hci hri => ?_⟩, fun _ i e he => ?_⟩
  · obtain ⟨e, he, hstands⟩ := hlanes hci hri
    exact ⟨e, (w.heap.read?_markSealed ⟨0⟩ _).trans he,
      hstands.extend hx (hL.reads_subset hx fun c _ => w.heap.read?_markSealed ⟨0⟩ c)⟩
  · exact hterm i e ((w.heap.read?_markSealed ⟨0⟩ _).symm.trans he)

omit hw in
/-- The evaluation of an object of calls succeeds. -/
theorem evaluation (hn : natives.HasScalars) :
    Evaluation natives ⟨0⟩ (Underway natives types cls calls results) (callsWork calls ·.heap)
      True where
  alone hw := by
    obtain ⟨L, hL, -⟩ := hw.lanes
    exact hL.alone
  placed hw := by
    obtain ⟨L, hL, -⟩ := hw.lanes
    exact hL.placed
  plain hw := by
    obtain ho := hw.hasObject hc
    rw [ho.ty, ho.plain]
  cell hw hfinal c := (hw.ends_sweepCell hc hn c hfinal).mono (fun _ _ h => h) fun _ _ h => h.elim
  finish {w} hw hterm := by
    refine ⟨hw.markSealed hterm, ?_⟩
    show callsWork calls (w.heap.markSealed ⟨0⟩) = callsWork calls w.heap
    simp only [callsWork, Heap.read?_markSealed]
    rfl
  idle hw _ hopen hidle i e he := by
    obtain ⟨L, hL, hlanes⟩ := hw.lanes
    exact hw.terminal_of_idle hc hn hL hlanes hidle hopen he

end Underway

end ObjectGraph
