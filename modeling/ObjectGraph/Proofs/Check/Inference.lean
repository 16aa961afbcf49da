import ObjectGraph.Check.Checker
import ObjectGraph.Proofs.Check.Fits
import ObjectGraph.Proofs.Types.Placeholders

/-!
# What a checked call infers

A call that checks without an error gives each of the method's placeholders a type. With these
types put into the parameters, every argument without poison is assignable to its parameter
(`assignable_of_checkCall`), provided that no argument involves one of the method's own
placeholders, as one can in a call from inside of the method.

What an argument has to do with its parameter while placeholders are being bound is `Fits`, and
what the parameter has to do with the type in which they are replaced is `Replaced`. The two meet
in `Coherent.fits_replaced`: what involves no placeholder that is replaced is not changed by it,
because a registry has one type for a shape (`Coherent.eq_of_replaced`).

Inside of the method the provision is needed. A source that is one of the placeholders being
inferred is accepted before anything is known about it (`recursive_call_accepted`).
-/

namespace ObjectGraph

namespace Registry

/-- The second type is the first one with values in the places of placeholders. -/
inductive Replaced (r : Registry) (values : TypeId → Option TypeId) : TypeId → TypeId → Prop
  | placeholder {ty : TypeId} (hk : r.kind ty = .placeholder) :
      Replaced r values ty ((values ty).getD ty)
  | leaf {ty : TypeId} (hk : r.kind ty = .nominal ∨ r.kind ty = .poison) : Replaced r values ty ty
  | array {ty ty' e e' : TypeId} (hk : r.kind ty = .array e) (hk' : r.kind ty' = .array e')
      (h : Replaced r values e e') : Replaced r values ty ty'
  | function {ty ty' q q' : TypeId} {ps ps' : List TypeId} (hk : r.kind ty = .function ps q)
      (hk' : r.kind ty' = .function ps' q') (length : ps.length = ps'.length)
      (params : ∀ pair ∈ ps.zip ps', Replaced r values pair.1 pair.2)
      (result : Replaced r values q q') : Replaced r values ty ty'

variable {names : Naming} {r r' : Registry} {values : TypeId → Option TypeId}
variable {source target ty ty' : TypeId}

/-! ## Lineages -/

/-- A larger registry knows more ancestors. -/
theorem ancestorsWithin_mono (hx : r.Extends r') {m n : ℕ} (hmn : m ≤ n) :
    r.ancestorsWithin m ty ⊆ r'.ancestorsWithin n ty := by
  induction m generalizing ty n with
  | zero => exact List.nil_subset _
  | succ m ih =>
    obtain ⟨n, rfl⟩ := Nat.exists_eq_add_of_le' (Nat.le_trans (Nat.le_add_left 1 m) hmn)
    rw [ancestorsWithin]
    cases hp : r.parent ty with
    | none => exact List.nil_subset _
    | some p =>
      have hp' : r'.parent ty = some p := by
        rw [parent, hx.definition (lt_size_of_parent hp)]
        exact hp
      rw [ancestorsWithin, hp']
      exact List.cons_subset_cons _ (ih (Nat.le_of_succ_le_succ hmn))

/-- Subclasses stay subclasses. -/
theorem isSubclass_mono (hx : r.Extends r') (h : r.isSubclass source target = true) :
    r'.isSubclass source target = true := by
  rw [isSubclass, List.contains_iff_mem, lineage] at h ⊢
  exact List.cons_subset_cons _ (ancestorsWithin_mono hx hx.size) h

/-- A type involves what its ancestors involve. -/
theorem involves_of_mem_ancestors {other : TypeId} {fuel : ℕ}
    (hmem : target ∈ r.ancestorsWithin fuel source) (h : r.Involves other target) :
    r.Involves other source := by
  induction fuel generalizing source with
  | zero => cases hmem
  | succ fuel ih =>
    rw [ancestorsWithin] at hmem
    cases hp : r.parent source with
    | none =>
      rw [hp] at hmem
      cases hmem
    | some p =>
      rw [hp] at hmem
      rcases List.mem_cons.mp hmem with rfl | hmem
      · exact .parent hp h
      · exact .parent hp (ih hmem)

/-- A subclass involves what its superclass involves. -/
theorem involves_of_isSubclass {other : TypeId} (hsub : r.isSubclass source target = true)
    (h : r.Involves other target) : r.Involves other source := by
  rw [isSubclass, List.contains_iff_mem, lineage] at hsub
  rcases List.mem_cons.mp hsub with rfl | hmem
  · exact h
  · exact involves_of_mem_ancestors hmem h

/-! ## Replacing placeholders -/

/-- There is one type for a shape. -/
theorem Coherent.eq_of_shape (h : r.Coherent) {text : String}
    (hshape : r.shapeKey? (r.kind ty) = some text) (hkind : r.kind ty' = r.kind ty)
    (hty : ty.index < r.size) (hty' : ty'.index < r.size) : ty' = ty := by
  have hfind := (h.shape hty hshape).2
  rw [← hkind] at hshape
  rw [(h.shape hty' hshape).2] at hfind
  exact Option.some.inj hfind

/-- Lists are equal if they are so pair by pair. -/
theorem eq_of_zip {ps ps' : List TypeId} (hlength : ps.length = ps'.length)
    (h : ∀ pair ∈ ps.zip ps', pair.2 = pair.1) : ps' = ps := by
  have hfst : (ps.zip ps').map Prod.fst = ps := List.map_fst_zip (Nat.le_of_eq hlength)
  have hsnd : (ps.zip ps').map Prod.snd = ps' := List.map_snd_zip (Nat.le_of_eq hlength.symm)
  calc ps' = (ps.zip ps').map Prod.snd := hsnd.symm
    _ = (ps.zip ps').map Prod.fst := List.map_congr_left h
    _ = ps := hfst

/-- What stands between two lists of one length, place by place. -/
theorem exists_between_of_mem_zip {ss ts us : List TypeId} (hst : ss.length = ts.length)
    {pair : TypeId × TypeId} (hpair : pair ∈ ss.zip us) :
    ∃ t, (pair.1, t) ∈ ss.zip ts ∧ (t, pair.2) ∈ ts.zip us := by
  obtain ⟨i, hi, rfl⟩ := List.mem_iff_getElem.mp hpair
  rw [List.length_zip] at hi
  have hit : i < ts.length := by omega
  rw [List.getElem_zip]
  exact ⟨ts[i], List.mem_iff_getElem.mpr ⟨i, by rw [List.length_zip]; omega, List.getElem_zip⟩,
    List.mem_iff_getElem.mpr ⟨i, by rw [List.length_zip]; omega, List.getElem_zip⟩⟩

namespace Replaced

/-- Names and poison are not replaced. -/
theorem eq_of_leaf (h : r.Replaced values ty ty')
    (hleaf : r.kind ty = .nominal ∨ r.kind ty = .poison) : ty' = ty := by
  cases h with
  | leaf => rfl
  | placeholder hk | array hk | function hk => rw [hk] at hleaf; rcases hleaf with h | h <;> cases h

/-- Placeholders are replaced by their values. -/
theorem eq_of_placeholder (h : r.Replaced values ty ty') (hkind : r.kind ty = .placeholder) :
    ty' = (values ty).getD ty := by
  cases h with
  | placeholder => rfl
  | leaf hk => rw [hkind] at hk; rcases hk with hk | hk <;> cases hk
  | array hk | function hk => rw [hkind] at hk; cases hk

/-- Arrays are replaced by arrays. -/
theorem of_array {e : TypeId} (h : r.Replaced values ty ty') (hkind : r.kind ty = .array e) :
    ∃ e', r.kind ty' = .array e' ∧ r.Replaced values e e' := by
  cases h with
  | array hk hk' h =>
    obtain rfl := TypeKind.array.inj (hkind.symm.trans hk)
    exact ⟨_, hk', h⟩
  | leaf hk => rw [hkind] at hk; rcases hk with hk | hk <;> cases hk
  | placeholder hk | function hk => rw [hkind] at hk; cases hk

/-- Functions are replaced by functions. -/
theorem of_function {ps : List TypeId} {q : TypeId} (h : r.Replaced values ty ty')
    (hkind : r.kind ty = .function ps q) :
    ∃ ps' q', r.kind ty' = .function ps' q' ∧ ps.length = ps'.length ∧
      (∀ pair ∈ ps.zip ps', r.Replaced values pair.1 pair.2) ∧ r.Replaced values q q' := by
  cases h with
  | function hk hk' length params result =>
    obtain ⟨rfl, rfl⟩ := TypeKind.function.inj (hkind.symm.trans hk)
    exact ⟨_, _, hk', length, params, result⟩
  | leaf hk => rw [hkind] at hk; rcases hk with hk | hk <;> cases hk
  | placeholder hk | array hk => rw [hkind] at hk; cases hk

end Replaced

/-- A type that involves no placeholder with a value is not changed. -/
theorem Coherent.eq_of_replaced (hr : r.Coherent) (hr' : r'.Coherent) (hx : r.Extends r')
    (hty : ty.index < r.size) (havoids : ∀ g, values g ≠ none → ¬ r.Involves g ty)
    (h : r'.Replaced values ty ty') : ty' = ty := by
  induction h with
  | @placeholder ty _ =>
    cases hvalue : values ty with
    | none => rfl
    | some v => exact absurd .self (havoids ty (by rw [hvalue]; exact Option.some_ne_none v))
  | leaf _ => rfl
  | @array ty ty' e e' hk hk' _ ih =>
    have hpart : e ∈ (r.kind ty).parts := by
      rw [← hx.kind hty, hk]
      exact List.mem_cons_self
    obtain rfl := ih (hr.parts_registered hpart)
      fun g hg hinvolves => havoids g hg (.part hpart hinvolves)
    -- The parts are the same, and a shape has one type.
    exact hr'.eq_of_shape (by rw [hk]; rfl) (hk'.trans hk.symm) (Nat.lt_of_lt_of_le hty hx.size)
      (lt_size_of_parts (mem_parts_of_array hk'))
  | @function ty ty' q q' ps ps' hk hk' length _ _ ihparams ihresult =>
    have hparts : ∀ p ∈ q :: ps, p ∈ (r.kind ty).parts := by
      rw [← hx.kind hty, hk]
      exact fun p hp => hp
    obtain rfl := ihresult (hr.parts_registered (hparts q List.mem_cons_self))
      fun g hg hinvolves => havoids g hg (.part (hparts q List.mem_cons_self) hinvolves)
    have hsame : ps' = ps := eq_of_zip length fun pair hpair => by
      have hpart := hparts _ (List.mem_cons_of_mem _ (List.of_mem_zip hpair).1)
      exact ihparams pair hpair (hr.parts_registered hpart)
        fun g hg hinvolves => havoids g hg (.part hpart hinvolves)
    rw [hsame] at hk'
    exact hr'.eq_of_shape (by rw [hk]; rfl) (hk'.trans hk.symm) (Nat.lt_of_lt_of_le hty hx.size)
      (lt_size_of_parts (mem_parts_of_function hk' _ List.mem_cons_self))

/-- Where each placeholder that occurs in a type is left in place, nothing is changed. -/
theorem Coherent.replaced_self (h : r.Coherent) (hty : ty.index < r.size)
    (hleft : ∀ p, r.OccursIn p ty → r.kind p = .placeholder → (values p).getD p = p) :
    r.Replaced values ty ty := by
  induction ty, hty using h.induct with
  | step ty hty ih =>
    have hpart : ∀ p ∈ (r.kind ty).parts, r.Replaced values p p := fun p hp => by
      obtain ⟨-, hreplaced⟩ := ih p hp
      exact hreplaced fun g hg => hleft g (.part hp hg)
    cases hk : r.kind ty with
    | nominal => exact .leaf (.inl hk)
    | poison => exact .leaf (.inr hk)
    | placeholder =>
      have hreplaced : r.Replaced values ty ((values ty).getD ty) := .placeholder hk
      rwa [hleft ty .self hk] at hreplaced
    | array e =>
      rw [hk] at hpart
      exact .array hk hk (hpart e List.mem_cons_self)
    | function ps q =>
      rw [hk] at hpart
      refine .function hk hk rfl (fun pair hpair => ?_) (hpart q List.mem_cons_self)
      rw [List.zip_eq_zipWith, List.zipWith_self, List.mem_map] at hpair
      obtain ⟨p, hp, rfl⟩ := hpair
      exact hpart p (List.mem_cons_of_mem _ hp)

/-- Without values nothing is changed. -/
theorem Coherent.replaced_refl (h : r.Coherent) (hty : ty.index < r.size) :
    r.Replaced (fun _ => none) ty ty := h.replaced_self hty fun _ _ _ => rfl

/-- A source that fits a target still fits when the values of placeholders are put into the
target, if the source itself involves none of them. -/
theorem Coherent.fits_replaced (hr : r.Coherent) (hr' : r'.Coherent) (hx : r.Extends r')
    (hany : r'.kind .any = .nominal) (hs : source.index < r.size) (ht : target.index < r.size)
    (hvalues : ∀ p v, values p = some v → r.kind p = .placeholder)
    (havoids : ∀ g, values g ≠ none → ¬ r.Involves g source) (h : r.Fits values source target)
    (hreplaced : r'.Replaced values target ty') : r'.Fits (fun _ => none) source ty' := by
  induction h generalizing ty' with
  | refl =>
    obtain rfl := hr.eq_of_replaced hr' hx ht havoids hreplaced
    exact .refl
  | @poison _ source target hpoison =>
    rcases hpoison with hpoison | hpoison
    · refine .poison (.inl ?_)
      rw [isPoison, hx.kind hs]
      exact hpoison
    · have hk : r'.kind target = .poison := by
        rw [hx.kind ht]
        exact of_decide_eq_true hpoison
      rw [hreplaced.eq_of_leaf (.inr hk)]
      exact .poison (.inr (decide_eq_true hk))
  | any =>
    rw [hreplaced.eq_of_leaf (.inl hany)]
    exact .any
  | @bound _ source target value hbound hregistered _ ih =>
    have hk := hvalues target value hbound
    rw [← hx.kind ht] at hk
    rw [hreplaced.eq_of_placeholder hk, hbound, Option.getD_some]
    -- The source fits the value without any values, so that nothing in it is replaced.
    exact ih hs hregistered (fun p v hp => by cases hp) (fun g hg => absurd rfl hg)
      (hr'.replaced_refl (Nat.lt_of_lt_of_le hregistered hx.size))
  | @array values source target s t hks hkt _ ih =>
    have hpart := mem_parts_of_array hks
    have hpart' := mem_parts_of_array hkt
    rw [← hx.kind hs] at hks
    rw [← hx.kind ht] at hkt
    obtain ⟨t', hk', h⟩ := hreplaced.of_array hkt
    exact .array hks hk' (ih (hr.parts_registered hpart) (hr.parts_registered hpart') hvalues
      (fun g hg hinvolves => havoids g hg (.part hpart hinvolves)) h)
  | @function values source target s t ss ts hks hkt length _ _ ihparams ihresult =>
    have hsource : ∀ p ∈ s :: ss,
        p.index < r.size ∧ ∀ g, values g ≠ none → ¬ r.Involves g p := by
      intro p hp
      have hpart := mem_parts_of_function hks p hp
      exact ⟨hr.parts_registered hpart,
        fun g hg hinvolves => havoids g hg (.part hpart hinvolves)⟩
    have htarget : ∀ p ∈ t :: ts, p.index < r.size :=
      fun p hp => hr.parts_registered (mem_parts_of_function hkt p hp)
    rw [← hx.kind hs] at hks
    rw [← hx.kind ht] at hkt
    obtain ⟨ps', q', hk', length', hparams, hresult⟩ := hreplaced.of_function hkt
    have hs' := hsource s List.mem_cons_self
    refine .function hks hk' (length.trans length') (fun pair hpair => ?_)
      (ihresult hs'.1 (htarget t List.mem_cons_self) hvalues hs'.2 hresult)
    -- A parameter of the source is compared with the target's, which stands between the two.
    obtain ⟨p, hmem, hmem'⟩ := exists_between_of_mem_zip length hpair
    obtain ⟨hp, havoids'⟩ := hsource _ (List.mem_cons_of_mem _ (List.of_mem_zip hmem).1)
    exact ihparams _ hmem hp (htarget _ (List.mem_cons_of_mem _ (List.of_mem_zip hmem).2)) hvalues
      havoids' (hparams _ hmem')
  | @subclass _ source target form hsub =>
    obtain rfl := hr.eq_of_replaced hr' hx ht
      (fun g hg hinvolves => havoids g hg (involves_of_isSubclass hsub hinvolves)) hreplaced
    refine .subclass ?_ (isSubclass_mono hx hsub)
    rw [SameForm, hx.kind hs, hx.kind ht]
    exact form

/-! ## Calls -/

/-- Arguments that are accepted and have no poison fit their parameters under the bindings at the
end. -/
theorem Coherent.fits_of_inferArgs (h : r.Coherent) {params : List TypeId} {index : ℕ}
    {pairs : List (TypeId × TypeId)} {b : Bindings}
    (hpairs : ∀ pair ∈ pairs, pair.1.index < r.size ∧ ∀ g ∈ params, ¬ r.Involves g pair.1)
    (hvalues : ∀ p v, values p = some v → v.index < r.size)
    (hok : r.inferArgs index pairs (.ofValues params values) = .ok b) :
    r.Accepted params values (fun values => ∀ pair ∈ pairs, r.containsPoison pair.1 = false →
      r.Fits values pair.1 pair.2) b := by
  induction pairs generalizing index values with
  | nil =>
    obtain rfl := Except.ok.inj hok
    exact ⟨values, rfl, ⟨fun _ _ h => h, hvalues⟩, fun pair hpair => by cases hpair⟩
  | cons pair pairs ih =>
    obtain ⟨arg, param⟩ := pair
    have hrest := fun p hp => hpairs p (List.mem_cons_of_mem _ hp)
    rw [inferArgs] at hok
    split at hok
    · -- An argument with poison is passed over.
      rename_i hpoison
      obtain ⟨values', rfl, hgrown, hfits⟩ := ih hrest hvalues hok
      refine ⟨values', rfl, hgrown, fun p hp hclean => ?_⟩
      rcases List.mem_cons.mp hp with rfl | hp
      · rw [hpoison] at hclean
        cases hclean
      · exact hfits p hp hclean
    · split at hok
      · rename_i b' hinfer
        obtain ⟨harg, havoids⟩ := hpairs (arg, param) List.mem_cons_self
        obtain ⟨values', rfl, hgrown, hfirst⟩ :=
          h.fits_of_assignableWithin harg havoids hvalues hinfer
        obtain ⟨values'', rfl, hgrown', hfits⟩ := ih hrest hgrown.registered hok
        refine ⟨values'', rfl, hgrown.trans hgrown', fun p hp hclean => ?_⟩
        rcases List.mem_cons.mp hp with rfl | hp
        · -- What the first argument has bound is kept by the others.
          exact hfirst.mono (hgrown'.value? params)
        · exact hfits p hp hclean
      · cases hok

/-- The type arguments of a table without links. -/
theorem lookup_resolved (params : List TypeId) (values : TypeId → Option TypeId) (p : TypeId) :
    (Bindings.ofValues params values).resolved.lookup p =
      if p ∈ params then some ((values p).getD .any) else none := by
  have hlookup : ∀ ps : List TypeId, (∀ q ∈ ps, q ∈ params) →
      (ps.map fun q => (q, ((Bindings.ofValues params values).value? q).getD .any)).lookup p =
        if p ∈ ps then some ((values p).getD .any) else none := by
    intro ps hps
    induction ps with
    | nil => rfl
    | cons q ps ih =>
      rw [List.map_cons, List.lookup_cons, ih fun x hx => hps x (List.mem_cons_of_mem _ hx)]
      by_cases hpq : p = q
      · subst hpq
        simp [Bindings.value?_ofValues, hps p List.mem_cons_self]
      · have hbeq : (p == q) = false := beq_false_of_ne hpq
        simp only [hbeq, List.mem_cons, hpq, false_or]
  exact hlookup params fun q hq => hq

/-- Type arguments are registered, belong to the placeholders that are inferred, and include what
has been inferred. -/
theorem resolved_spec {params : List TypeId}
    (hvalues : ∀ p v, values p = some v → v.index < r.size) (hany : TypeId.any.index < r.size)
    (p v : TypeId) :
    ((Bindings.ofValues params values).resolved.lookup p = some v →
        v.index < r.size ∧ p ∈ params) ∧
      ((Bindings.ofValues params values).value? p = some v →
        (Bindings.ofValues params values).resolved.lookup p = some v) := by
  rw [lookup_resolved]
  constructor
  · intro hp
    split at hp
    · rename_i hmem
      obtain rfl := Option.some.inj hp
      refine ⟨?_, hmem⟩
      cases hvalue : values p with
      | none => exact hany
      | some v => exact hvalues p v hvalue
    · cases hp
  · intro hp
    obtain ⟨hmem, hvalue⟩ := Bindings.mem_of_value?_ofValues hp
    rw [if_pos hmem, hvalue, Option.getD_some]

end Registry

/-- The types that a method mentions in its signature are registered, and its generics are
placeholders. -/
structure Method.Signature (r : Registry) (method : Method) : Prop where
  /-- The parameters' types are registered. -/
  params : ∀ p ∈ method.params, p.ty.index < r.size
  /-- The result type is registered. -/
  result : method.result.index < r.size
  /-- What is generic is a placeholder. -/
  generics : ∀ g ∈ method.generics, r.kind g = .placeholder

namespace Checker

/-- A call that records no error has as many arguments as parameters, and inference has accepted
them. -/
theorem checkCall_of_errors_eq {c : Checker} {m : MethodRef} {args : List TypeId} {loc : Location}
    (hok : (checkCall m args loc c).2.errors = c.errors) :
    ((c.types.method m).params.map (·.ty)).length = args.length ∧ ∃ b : Bindings,
      c.types.inferArgs 0 (args.zip ((c.types.method m).params.map (·.ty)))
          (.ofParams (c.types.method m).generics) = .ok b ∧
        (checkCall m args loc c).1.typeArgs = b.resolved ∧
        (checkCall m args loc c).2.types =
          (Registry.substitute (b.resolved.lookup ·) (c.types.method m).result c.types).2 := by
  unfold checkCall at hok ⊢
  simp only [bind, StateT.bind, get, getThe, MonadStateOf.get, StateT.get, pure] at hok ⊢
  generalize hparams : (c.types.method m).params.map (·.ty) = params at hok ⊢
  by_cases hlength : params.length = args.length
  · rw [if_neg (not_not_intro hlength)] at hok ⊢
    cases hinfer : c.types.inferArgs 0 (args.zip params) (.ofParams (c.types.method m).generics) with
    | ok b => exact ⟨hlength, b, rfl, rfl, rfl⟩
    | error fault =>
      rw [hinfer] at hok
      have hreported : c.errors ++ [_] = c.errors := hok
      simp at hreported
  · rw [if_pos hlength] at hok
    have hreported : c.errors ++ [_] = c.errors := hok
    simp at hreported

/-- A call that checks without an error infers types with which every argument without poison is
assignable to its parameter, if no argument involves one of the method's own placeholders. What is
asked of `substitute` is that it answers with the parameter's type in which the placeholders are
replaced, and not with a type that has the same key. -/
theorem assignable_of_checkCall {c : Checker} {m : MethodRef} {args : List TypeId} {loc : Location}
    (hreachable : Registry.Reachable .free c.types)
    (hsignature : (c.types.method m).Signature c.types)
    (hargs : ∀ arg ∈ args, arg.index < c.types.size ∧
      ∀ g ∈ (c.types.method m).generics, ¬ c.types.Involves g arg)
    (hok : (checkCall m args loc c).2.errors = c.errors) :
    (c.types.method m).params.length = args.length ∧
      ∀ pair ∈ args.zip ((c.types.method m).params.map (·.ty)),
        c.types.containsPoison pair.1 = false →
        let call := (checkCall m args loc c).1
        let types := (checkCall m args loc c).2.types
        let replaced := Registry.substitute (call.typeArgs.lookup ·) pair.2 types
        replaced.2.Replaced (call.typeArgs.lookup ·) pair.2 replaced.1 →
        replaced.2.assignable pair.1 replaced.1 = true := by
  obtain ⟨hlength, b, hinfer, htypeArgs, htypes⟩ := checkCall_of_errors_eq hok
  refine ⟨by simpa using hlength, fun pair hpair hclean => ?_⟩
  simp only [htypeArgs, htypes]
  intro hreplaced
  have hcoherent := hreachable.coherent
  obtain ⟨harg, hparam⟩ := List.of_mem_zip hpair
  have hparam' : pair.2.index < c.types.size := by
    obtain ⟨p, hp, htype⟩ := List.mem_map.mp hparam
    rw [← htype]
    exact hsignature.params p hp
  -- Inference ends with a table of values, under which the arguments fit.
  obtain ⟨values, rfl, hgrown, hfits⟩ := hcoherent.fits_of_inferArgs
    (fun p hp => hargs p.1 (List.of_mem_zip hp).1) (fun _ _ h => by cases h) hinfer
  have hany : TypeId.any.index < c.types.size :=
    Nat.lt_of_lt_of_le (by decide) hreachable.retains.size
  have hspec := @Registry.resolved_spec _ _ (c.types.method m).generics hgrown.registered hany
  have hfit := (hfits pair hpair hclean).mono fun p v => (hspec p v).2
  generalize htypeArgs :
    (fun p => (Bindings.ofValues (c.types.method m).generics values).resolved.lookup p) = typeArgs
    at hreplaced hfit ⊢
  have htypeArg : ∀ p v, typeArgs p = some v → v.index < c.types.size ∧
      p ∈ (c.types.method m).generics := by
    rw [← htypeArgs]
    exact fun p v => (hspec p v).1
  -- Putting the types into the result and then into the parameter leads to later registries.
  have hresult : Registry.Later .free c.types _ := (Registry.Later.substitute hcoherent
    (fun p v hp => (htypeArg p v hp).1) hsignature.result).1
  have hreplace : Registry.Later .free _ _ := (Registry.Later.substitute (hcoherent.later hresult)
    (fun p v hp => Nat.lt_of_lt_of_le (htypeArg p v hp).1 hresult.retains.size)
    (Nat.lt_of_lt_of_le hparam' hresult.retains.size)).1
  have hlater : Registry.Reachable .free _ := hreachable.trans (hresult.trans hreplace)
  have hx := (Registry.Extends.substitute (r := c.types) typeArgs (c.types.method m).result).trans
    (.substitute typeArgs pair.2)
  have hcoherent' := Registry.Reachable.coherent hlater
  refine hcoherent'.assignable_of_fits ?_ (Nat.lt_of_lt_of_le (hargs _ harg).1 hx.size)
  refine hcoherent.fits_replaced hcoherent' hx (hlater.retains.kind (by decide))
    (hargs _ harg).1 hparam' (fun p v hp => hsignature.generics p (htypeArg p v hp).2) ?_ hfit
    hreplaced
  intro g hg
  obtain ⟨v, hv⟩ := Option.ne_none_iff_exists'.mp hg
  exact (hargs _ harg).2 g (htypeArg g v hv).2

end Checker

/-! ## A generic method -/

namespace Registry

/-- Nothing in a list of types that is closed under parts and parents involves a type outside of
it. -/
theorem not_involves_of_closed {r : Registry} {types : List TypeId} {other : TypeId}
    (hclosed : ∀ ty ∈ types, (∀ p ∈ (r.kind ty).parts, p ∈ types) ∧ ∀ p ∈ r.parent ty, p ∈ types)
    (hother : other ∉ types) (hty : ty ∈ types) : ¬ r.Involves other ty := by
  intro h
  induction h with
  | self => exact hother hty
  | part hp _ ih => exact ih ((hclosed _ hty).1 _ hp)
  | parent hp _ ih => exact ih ((hclosed _ hty).2 _ hp)

/-- A class `Main` with a method `m<T>` whose parameters have the given types. `T`, `T[]` and
`int[]` are the types after the class. -/
def withGeneric (params : List TypeId) : Registry :=
  let r := (insert (.plain "Main" .nominal (some .any)) initial).2
  let r := (arrayOf .int (arrayOf ⟨8⟩ (placeholder "Main.m" "T" r).2).2).2
  r.defineClass .main { methods := [{
    name := "m"
    params := params.map (⟨"x", ·⟩)
    generics := [⟨8⟩]
    result := .int
    body := none
    declaring := .main }] }

/-- The registry arises, whatever the parameters are. -/
theorem reachable_withGeneric (params : List TypeId) : Reachable .free (withGeneric params) :=
  ((((Relation.ReflTransGen.refl.tail
    (.register (d := .plain "Main" .nominal (some .any)) rfl trivial rfl)).tail
    (.request (.placeholder "Main.m" "T") ⟨by decide, fun _ _ _ => trivial⟩)).tail
    (.request (.array ⟨8⟩) ⟨by decide, by rintro _ _ ⟨⟩⟩)).tail
    (.request (.array .int) ⟨by decide, by rintro _ _ ⟨⟩⟩)).tail
    (.complete .main _ (fun _ => rfl) (fun _ => rfl))

end Registry

namespace Checker

/-- A call `m(1, [2])` of `m<T>(x: T, y: T[])` infers a type for `T` such that `int[]` is assignable
to `T[]`. -/
theorem assignable_of_checkCall_pair :
    let c := ofTypes (Registry.withGeneric [⟨8⟩, ⟨9⟩])
    let call := checkCall ⟨.main, 0⟩ [.int, ⟨10⟩] ⟨none, ⟨0, 1⟩⟩ c
    let replaced := Registry.substitute (call.1.typeArgs.lookup ·) ⟨9⟩ call.2.types
    call.2.errors = c.errors ∧ replaced.1 = ⟨10⟩ ∧ replaced.2.assignable ⟨10⟩ replaced.1 = true := by
  refine ⟨by decide +kernel, by decide +kernel, ?_⟩
  have hregistered : ∀ arg ∈ [TypeId.int, ⟨10⟩],
      arg.index < (Registry.withGeneric [⟨8⟩, ⟨9⟩]).size := by decide +kernel
  have hgenerics : ((Registry.withGeneric [⟨8⟩, ⟨9⟩]).method ⟨.main, 0⟩).generics = [⟨8⟩] := by
    decide +kernel
  -- These types are closed under parts and parents, and `T` is none of them.
  have hclosed : ∀ ty ∈ [TypeId.any, .int, .anyArray, ⟨10⟩],
      (∀ p ∈ ((Registry.withGeneric [⟨8⟩, ⟨9⟩]).kind ty).parts,
          p ∈ [TypeId.any, .int, .anyArray, ⟨10⟩]) ∧
        ∀ p ∈ (Registry.withGeneric [⟨8⟩, ⟨9⟩]).parent ty,
          p ∈ [TypeId.any, .int, .anyArray, ⟨10⟩] := by decide +kernel
  have havoids : ∀ arg ∈ [TypeId.int, ⟨10⟩], ∀ g ∈ [(⟨8⟩ : TypeId)],
      ¬ (Registry.withGeneric [⟨8⟩, ⟨9⟩]).Involves g arg := by
    intro arg harg g hg
    rw [List.mem_singleton.mp hg]
    exact Registry.not_involves_of_closed hclosed (by decide)
      ((by decide : [.int, ⟨10⟩] ⊆ [_, _, _, _]) harg)
  have hchecked := @assignable_of_checkCall (ofTypes (Registry.withGeneric [⟨8⟩, ⟨9⟩]))
    ⟨.main, 0⟩ [.int, ⟨10⟩] ⟨none, ⟨0, 1⟩⟩ (Registry.reachable_withGeneric _)
    ⟨by decide +kernel, by decide +kernel, by decide +kernel⟩
    (fun arg harg => ⟨hregistered arg harg, by
      rw [ofTypes, hgenerics]
      exact havoids arg harg⟩) (by decide +kernel)
  refine hchecked.2 (⟨10⟩, ⟨9⟩) (by decide +kernel) (by decide +kernel) ?_
  exact .array (show _ = TypeKind.array ⟨8⟩ by decide +kernel)
    (show _ = TypeKind.array .int by decide +kernel) (.placeholder (by decide +kernel))

/-- A call of `m<T>(x: string)` from inside of the method, with a value of the type `T`, records no
error although `T` is not assignable to `string`. -/
theorem recursive_call_accepted :
    let c := ofTypes (Registry.withGeneric [.string])
    let call := checkCall ⟨.main, 0⟩ [⟨8⟩] ⟨none, ⟨0, 1⟩⟩ c
    let replaced := Registry.substitute (call.1.typeArgs.lookup ·) .string call.2.types
    Registry.Reachable .free c.types ∧ call.2.errors = c.errors ∧
      c.types.containsPoison ⟨8⟩ = false ∧ call.1.typeArgs = [(⟨8⟩, .any)] ∧
      replaced.1 = .string ∧ replaced.2.assignable ⟨8⟩ replaced.1 = false :=
  ⟨Registry.reachable_withGeneric _, by decide +kernel, by decide +kernel, by decide +kernel,
    by decide +kernel, by decide +kernel⟩

end Checker

end ObjectGraph
