import Mathlib.Data.List.Forall2
import ObjectGraph.Proofs.Check.Poison
import ObjectGraph.Proofs.Types.Placeholders

/-!
# Inference recovers an instantiation

If the arguments of a call are its parameters with types put in the places of the method's
placeholders, the call checks, and it infers these types (`checkCall_of_instance`). A placeholder
that no parameter mentions has nothing to be inferred from and comes out as `any`.

Comparing an argument with its parameter goes through the parameter, and binds a placeholder where
it is met for the first time. What has been bound is told by the placeholders that occurred so far
(`Registry.Records`), so that the bindings need not be followed through the arguments one by one:
each comparison adds the placeholders that occur in its target (`Registry.Recovers`). No comparison
is cut short before it has met them all. Equal types are accepted at once, but then no placeholder
occurs in them, because none is put in its own place.
-/

namespace ObjectGraph

namespace Registry

variable {r : Registry} {generics : List TypeId} {given : TypeId → TypeId}
variable {values values' : TypeId → Option TypeId} {seen : TypeId → Prop}
variable {source target ty ty' g : TypeId}

/-! ## Instances -/

/-- What is put in the places of the placeholders. -/
def assigned (generics : List TypeId) (given : TypeId → TypeId) (g : TypeId) : Option TypeId :=
  if g ∈ generics then some (given g) else none

/-- A type that is not changed by putting other types in the places of placeholders mentions none
of the placeholders. -/
theorem Replaced.not_occursIn (h : r.Replaced values ty ty) {v : TypeId}
    (hg : r.kind g = .placeholder) (hv : values g = some v) (hne : v ≠ g) :
    ¬ r.OccursIn g ty := by
  intro hoccurs
  -- On the way down to the placeholder every part is replaced with itself.
  induction hoccurs with
  | self =>
    have heq := h.eq_of_placeholder hg
    rw [hv, Option.getD_some] at heq
    exact hne heq.symm
  | @part ty p hp _ ih =>
    cases hk : r.kind ty with
    | nominal | placeholder | poison =>
      rw [hk] at hp
      cases hp
    | array e =>
      obtain ⟨e', hk', he⟩ := h.of_array hk
      obtain rfl := TypeKind.array.inj (hk.symm.trans hk')
      rw [hk] at hp
      obtain rfl := List.mem_singleton.mp hp
      exact ih he
    | function ps q =>
      obtain ⟨ps', q', hk', -, hparams, hresult⟩ := h.of_function hk
      obtain ⟨rfl, rfl⟩ := TypeKind.function.inj (hk.symm.trans hk')
      rw [hk] at hp
      rcases List.mem_cons.mp hp with rfl | hp
      · exact ih hresult
      · refine ih (hparams (p, p) ?_)
        rw [List.zip_eq_zipWith, List.zipWith_self, List.mem_map]
        exact ⟨p, hp, rfl⟩

/-- What occurs in an instance of a type and is no shape occurs in the type, or in what has been put
in the place of a placeholder. -/
theorem Replaced.occursIn (h : r.Replaced values ty ty') (hleaf : (r.kind g).parts = [])
    (hoccurs : r.OccursIn g ty') :
    r.OccursIn g ty ∨ ∃ p v, values p = some v ∧ r.OccursIn g v := by
  induction h with
  | @placeholder ty _ =>
    cases hv : values ty with
    | none =>
      rw [hv] at hoccurs
      exact .inl hoccurs
    | some v =>
      rw [hv] at hoccurs
      exact .inr ⟨ty, v, hv, hoccurs⟩
  | leaf _ => exact .inl hoccurs
  | @array ty ty' e e' hk hk' _ ih =>
    -- A shape is not what occurs, so that it occurs in a part.
    rcases hoccurs.eq_or_part with rfl | ⟨p, hp, hoccurs⟩
    · rw [hk'] at hleaf
      cases hleaf
    · rw [hk'] at hp
      obtain rfl := List.mem_singleton.mp hp
      exact (ih hoccurs).imp_left (.part (mem_parts_of_array hk))
  | @function ty ty' q q' ps ps' hk hk' length _ _ ihparams ihresult =>
    rcases hoccurs.eq_or_part with rfl | ⟨p', hp', hoccurs⟩
    · rw [hk'] at hleaf
      cases hleaf
    · have hparts := mem_parts_of_function hk
      rw [hk'] at hp'
      rcases List.mem_cons.mp hp' with rfl | hp'
      · exact (ihresult hoccurs).imp_left (.part (hparts q List.mem_cons_self))
      · have hsnd : (ps.zip ps').map Prod.snd = ps' := List.map_snd_zip (Nat.le_of_eq length.symm)
        rw [← hsnd] at hp'
        obtain ⟨pair, hpair, rfl⟩ := List.mem_map.mp hp'
        have hpart := hparts _ (List.mem_cons_of_mem _ (List.of_mem_zip hpair).1)
        exact (ihparams pair hpair hoccurs).imp_left (.part hpart)

/-- An instance has no poison if the type has none and nothing with poison is put in. -/
theorem Coherent.containsPoison_replaced (hr : r.Coherent) (h : r.Replaced values ty ty')
    (hty : r.containsPoison ty = false)
    (hvalues : ∀ p v, values p = some v → r.containsPoison v = false) :
    r.containsPoison ty' = false := by
  refine Bool.eq_false_iff.mpr fun hpoison => ?_
  obtain ⟨p, hp, hpoison⟩ := hr.containsPoison_iff.mp hpoison
  have hleaf : (r.kind p).parts = [] := by
    rw [of_decide_eq_true hpoison]
    rfl
  rcases h.occursIn hleaf hp with hp | ⟨q, v, hv, hp⟩
  · exact Bool.eq_false_iff.mp hty (hr.containsPoison_iff.mpr ⟨p, hp, hpoison⟩)
  · exact Bool.eq_false_iff.mp (hvalues q v hv) (hr.containsPoison_iff.mpr ⟨p, hp, hpoison⟩)

/-! ## Comparing an instance -/

/-- The bindings hold what is given to some of the placeholders, and nothing else. -/
def Records (given : TypeId → TypeId) (seen : TypeId → Prop) (values : TypeId → Option TypeId) :
    Prop :=
  ∀ g v, values g = some v ↔ seen g ∧ v = given g

/-- From bindings that record some placeholders, a comparison succeeds, with bindings that record
those that occur in the targets as well. -/
def Recovers (r : Registry) (generics : List TypeId) (given : TypeId → TypeId)
    (targets : List TypeId) (step : Bindings → Bool × Bindings) : Prop :=
  ∀ seen values, Records given seen values → ∃ values',
    step (.ofValues generics values) = (true, .ofValues generics values') ∧
      Records given (fun g => seen g ∨ g ∈ generics ∧ ∃ t ∈ targets, r.OccursIn g t) values'

variable {targets targets' : List TypeId} {step next : Bindings → Bool × Bindings}

/-- What is recorded may be told in other words. -/
theorem Records.congr {seen' : TypeId → Prop} (h : Records given seen values)
    (hseen : ∀ g, seen g ↔ seen' g) : Records given seen' values :=
  fun g v => (h g v).trans (and_congr_left' (hseen g))

/-- A placeholder that gets its value is recorded. -/
theorem Records.bind (h : Records given seen values) (g : TypeId) :
    Records given (fun p => seen p ∨ p = g) (Function.update values g (some (given g))) := by
  intro p v
  by_cases hp : p = g
  · subst hp
    rw [Function.update_self, Option.some_inj, eq_comm]
    exact (and_iff_right (.inr rfl)).symm
  · rw [Function.update_of_ne hp, h p v]
    exact and_congr_left' (or_iff_left hp).symm

namespace Recovers

/-- It matters only what occurs in the targets, and what the comparison does with bindings without
links. -/
theorem congr (h : r.Recovers generics given targets step)
    (htargets : ∀ g ∈ generics,
      (∃ t ∈ targets, r.OccursIn g t) ↔ ∃ t ∈ targets', r.OccursIn g t)
    (hstep : ∀ values, next (.ofValues generics values) = step (.ofValues generics values)) :
    r.Recovers generics given targets' next := by
  intro seen values hvalues
  obtain ⟨values', hok, hrecords⟩ := h seen values hvalues
  refine ⟨values', (hstep values).trans hok, hrecords.congr fun g => ?_⟩
  exact or_congr_right (and_congr_right (htargets g))

/-- To record what occurs in the parts of a type is to record what occurs in the type. -/
theorem of_parts {p : TypeId} (hgenerics : ∀ g ∈ generics, r.kind g = .placeholder)
    (hp : p ∈ (r.kind ty).parts) (h : r.Recovers generics given (r.kind ty).parts step)
    (hstep : ∀ values, next (.ofValues generics values) = step (.ofValues generics values)) :
    r.Recovers generics given [ty] next := by
  refine h.congr (fun g hg => ?_) hstep
  have hleaf : (r.kind g).parts = [] := by
    rw [hgenerics g hg]
    rfl
  rw [← occursIn_iff_parts hleaf hp]
  simp only [List.mem_singleton, exists_eq_left]

/-- Where no placeholder occurs, nothing needs to be bound. -/
theorem of_not_occursIn (hnone : ∀ g ∈ generics, ¬ r.OccursIn g target)
    (hstep : ∀ b, step b = (true, b)) : r.Recovers generics given [target] step := by
  intro seen values hvalues
  refine ⟨values, hstep _, hvalues.congr fun g => ?_⟩
  refine (or_iff_left ?_).symm
  rintro ⟨hg, t, ht, hoccurs⟩
  rw [List.mem_singleton.mp ht] at hoccurs
  exact hnone g hg hoccurs

/-- One comparison may follow another. -/
theorem andThen (h : r.Recovers generics given targets step)
    (hnext : r.Recovers generics given targets' next) :
    r.Recovers generics given (targets' ++ targets) fun b =>
      match step b with
      | (true, b) => next b
      | (false, b) => (false, b) := by
  intro seen values hvalues
  obtain ⟨values', hok, hrecords⟩ := h seen values hvalues
  obtain ⟨values'', hok', hrecords'⟩ := hnext _ values' hrecords
  refine ⟨values'', ?_, hrecords'.congr fun g => ?_⟩
  · simp only [hok]
    exact hok'
  · have happ : (∃ t ∈ targets' ++ targets, r.OccursIn g t) ↔
        (∃ t ∈ targets, r.OccursIn g t) ∨ ∃ t ∈ targets', r.OccursIn g t := by
      simp only [List.mem_append, or_and_right, exists_or]
      exact or_comm
    rw [happ, and_or_left, or_assoc]

/-- Pairs that are compared one after the other record what each of them does. -/
theorem allPairs {test : TypeId → TypeId → Bindings → Bool × Bindings} {ss ts : List TypeId}
    (hlength : ts.length = ss.length)
    (h : ∀ pair ∈ ts.zip ss, r.Recovers generics given [pair.1] (test pair.2 pair.1)) :
    r.Recovers generics given ts (allPairs test ss ts) := by
  induction ts generalizing ss with
  | nil =>
    rw [List.length_nil, eq_comm, List.length_eq_zero_iff] at hlength
    subst hlength
    refine fun seen values hvalues => ⟨values, rfl, hvalues.congr fun g => ?_⟩
    simp
  | cons t ts ih =>
    cases ss with
    | nil => cases hlength
    | cons s ss =>
      have hrest := ih (Nat.succ.inj hlength)
        fun pair hpair => h pair (List.mem_cons_of_mem _ hpair)
      refine (andThen (h (t, s) List.mem_cons_self) hrest).congr (fun g _ => ?_) fun values => ?_
      · have hmem : ∀ x, x ∈ ts ++ [t] ↔ x ∈ t :: ts := by simp [or_comm]
        simp only [hmem]
      · rw [ObjectGraph.allPairs]
        cases test s t (.ofValues generics values) with
        | mk ok b => cases ok <;> rfl

end Recovers

/-- Two different types that have parts are compared part by part, whatever is inferred. -/
theorem assignableWithin_of_parts {fuel : ℕ} {p q : TypeId} {b : Bindings}
    (hgenerics : ∀ g ∈ b.params, r.kind g = .placeholder) (hany : r.kind .any = .nominal)
    (hne : source ≠ target) (hp : p ∈ (r.kind source).parts) (hq : q ∈ (r.kind target).parts) :
    r.assignableWithin (fuel + 1) source target b =
      match r.kind source, r.kind target with
      | .array s, .array t => r.assignableWithin fuel s t b
      | .function ss s, .function ts t =>
        if ss.length ≠ ts.length then (false, b)
        else
          match allPairs (r.assignableWithin fuel) ss ts b with
          | (true, b) => r.assignableWithin fuel s t b
          | (false, b) => (false, b)
      | _, _ => (r.isSubclass source target, b) := by
  have hpoison : ∀ {ty p : TypeId}, p ∈ (r.kind ty).parts → r.isPoison ty = false := by
    intro ty p hp
    refine Bool.eq_false_iff.mpr fun h => ?_
    rw [of_decide_eq_true h] at hp
    cases hp
  have htarget : target ≠ .any := by
    rintro rfl
    rw [hany] at hq
    cases hq
  -- There is no reason to accept the two at once.
  have hguard : (decide (source = target) || r.isPoison source || r.isPoison target ||
      decide (target = .any)) = false := by
    rw [hpoison hp, hpoison hq, decide_eq_false hne, decide_eq_false htarget]
    rfl
  rw [assignableWithin, hguard, isInferable_of_parts hgenerics hp,
    isInferable_of_parts hgenerics hq]
  rfl

/-- A placeholder that is compared with what is put in its place is bound to it, or has been. -/
theorem recovers_placeholder (hany : r.kind .any = .nominal) (hmem : g ∈ generics)
    (hkind : r.kind g = .placeholder) (hgiven : given g ∉ generics)
    (hclean : r.isPoison (given g) = false) (fuel : ℕ) :
    r.Recovers generics given [g] (r.assignableWithin (fuel + 2) (given g) g) := by
  -- What is given is another type without poison, so that the two are not accepted at once.
  have hguard : (decide (given g = g) || r.isPoison (given g) || r.isPoison g ||
      decide (g = .any)) = false := by
    have hne : given g ≠ g := fun heq => hgiven (by rw [heq]; exact hmem)
    have hgany : g ≠ .any := by
      rintro rfl
      rw [hany] at hkind
      cases hkind
    have hpoison : r.isPoison g = false := by
      rw [isPoison, hkind]
      rfl
    rw [hclean, hpoison, decide_eq_false hne, decide_eq_false hgany]
    rfl
  intro seen values hvalues
  have hinferable : (Bindings.ofValues generics values).isInferable g = true :=
    List.contains_iff_mem.mpr hmem
  have hsource : (Bindings.ofValues generics values).isInferable (given g) = false :=
    Bool.eq_false_iff.mpr fun h => hgiven (List.contains_iff_mem.mp h)
  have hseen : ∀ p, (seen p ∨ p = g) ↔ (seen p ∨ p ∈ generics ∧ ∃ t ∈ [g], r.OccursIn p t) := by
    intro p
    refine or_congr_right ⟨?_, ?_⟩
    · rintro rfl
      exact ⟨hmem, p, List.mem_cons_self, .self⟩
    · rintro ⟨-, t, ht, hoccurs⟩
      rw [List.mem_singleton.mp ht] at hoccurs
      refine hoccurs.eq_or_part.resolve_right ?_
      rintro ⟨q, hq, -⟩
      rw [hkind] at hq
      cases hq
  rw [assignableWithin, hguard, hinferable, hsource]
  simp only [Bool.false_eq_true, if_false, if_true]
  rw [Bindings.value?_ofValues, if_pos hmem]
  cases hvalue : values g with
  | none =>
    refine ⟨_, ?_, (hvalues.bind g).congr hseen⟩
    rw [Bindings.bind_ofValues]
  | some v =>
    obtain ⟨hg, rfl⟩ := (hvalues g v).mp hvalue
    have hsame : r.assignableWithin (fuel + 1) (given g) (given g) .empty = (true, .empty) :=
      assignableWithin_of_guard (.inl rfl)
    refine ⟨values, by simp only [hsame], hvalues.congr fun p => ?_⟩
    rw [← hseen p, or_iff_left_of_imp]
    rintro rfl
    exact hg

/-- Equal types are accepted without a look at the placeholders, but none occurs in them. -/
theorem recovers_self (hgenerics : ∀ g ∈ generics, r.kind g = .placeholder)
    (hgiven : ∀ g ∈ generics, given g ∉ generics)
    (h : r.Replaced (assigned generics given) ty ty) (fuel : ℕ) :
    r.Recovers generics given [ty] (r.assignableWithin (fuel + 1) ty ty) := by
  refine .of_not_occursIn (fun g hg => ?_) fun b => assignableWithin_of_poison (.inl rfl)
  have hne : given g ≠ g := fun heq => hgiven g hg (by rw [heq]; exact hg)
  exact h.not_occursIn (hgenerics g hg) (if_pos hg) hne

/-- **Comparing an instance recovers what was put in.** The comparison of a type's instance with the
type succeeds and binds each placeholder that occurs in the type to what stands in its place. -/
theorem Coherent.recovers_assignableWithin (hr : r.Coherent) (hany : r.kind .any = .nominal)
    (hgenerics : ∀ g ∈ generics, r.kind g = .placeholder)
    (hgiven : ∀ g ∈ generics, ∀ g' ∈ generics, ¬ r.OccursIn g' (given g))
    (hclean : ∀ g ∈ generics, r.isPoison (given g) = false)
    (h : r.Replaced (assigned generics given) target source) (ht : target.index < r.size)
    {fuel : ℕ} (hfuel : target.index + 1 < fuel) :
    r.Recovers generics given [target] (r.assignableWithin fuel source target) := by
  -- Where nothing is replaced the type is compared with itself, which ends at once.
  have hsame : ∀ {ty : TypeId} (fuel : ℕ), r.Replaced (assigned generics given) ty ty →
      r.Recovers generics given [ty] (r.assignableWithin (fuel + 1) ty ty) :=
    fun fuel h => recovers_self hgenerics (fun g hg hin => hgiven g hg _ hin .self) h fuel
  induction h generalizing fuel with
  | @placeholder ty hk =>
    obtain ⟨fuel, rfl⟩ : ∃ k, fuel = k + 2 := ⟨fuel - 2, by omega⟩
    by_cases hmem : ty ∈ generics
    · have hsource : (assigned generics given ty).getD ty = given ty := by
        rw [assigned, if_pos hmem, Option.getD_some]
      rw [hsource]
      exact recovers_placeholder hany hmem hk (fun hin => hgiven ty hmem _ hin .self)
        (hclean ty hmem) fuel
    · have hself : r.Replaced (assigned generics given) ty
          ((assigned generics given ty).getD ty) := .placeholder hk
      have hsource : (assigned generics given ty).getD ty = ty := by
        rw [assigned, if_neg hmem, Option.getD_none]
      rw [hsource] at hself ⊢
      exact hsame (fuel + 1) hself
  | @leaf ty hk =>
    obtain ⟨fuel, rfl⟩ : ∃ k, fuel = k + 1 := ⟨fuel - 1, by omega⟩
    exact hsame fuel (.leaf hk)
  | @array ty ty' e e' hk hk' he ih =>
    obtain ⟨fuel, rfl⟩ : ∃ k, fuel = k + 1 := ⟨fuel - 1, by omega⟩
    by_cases heq : ty' = ty
    · subst heq
      exact hsame fuel (.array hk hk' he)
    have hp := mem_parts_of_array hk
    have hp' := mem_parts_of_array hk'
    have hlt := hr.parts ht e hp
    have hfuel' : e.index + 1 < fuel := by omega
    have helement : r.Recovers generics given (r.kind ty).parts (r.assignableWithin fuel e' e) := by
      rw [hk]
      exact ih (Nat.lt_trans hlt ht) hfuel'
    -- Array types that differ are compared by their elements, so the element binds what the array
    -- does.
    refine .of_parts hgenerics hp helement fun values => ?_
    rw [assignableWithin_of_parts hgenerics hany heq hp' hp, hk, hk']
  | @function ty ty' q q' ps ps' hk hk' length hparams hresult ihparams ihresult =>
    obtain ⟨fuel, rfl⟩ : ∃ k, fuel = k + 1 := ⟨fuel - 1, by omega⟩
    by_cases heq : ty' = ty
    · subst heq
      exact hsame fuel (.function hk hk' length hparams hresult)
    have hp := mem_parts_of_function hk q List.mem_cons_self
    have hp' := mem_parts_of_function hk' q' List.mem_cons_self
    have hparts : ∀ p ∈ q :: ps, p.index < r.size ∧ p.index + 1 < fuel := by
      intro p hin
      have hlt := hr.parts ht p (mem_parts_of_function hk p hin)
      exact ⟨Nat.lt_trans hlt ht, by omega⟩
    have hall : r.Recovers generics given ps (allPairs (r.assignableWithin fuel) ps' ps) := by
      refine .allPairs length fun pair hpair => ?_
      obtain ⟨hregistered, henough⟩ :=
        hparts _ (List.mem_cons_of_mem _ (List.of_mem_zip hpair).1)
      exact ihparams pair hpair hregistered henough
    obtain ⟨hregistered, henough⟩ := hparts q List.mem_cons_self
    -- The result is compared with what the parameters have bound, which is what it would bind
    -- itself.
    have hboth := hall.andThen (ihresult hregistered henough)
    refine .of_parts hgenerics hp (by rw [hk]; exact hboth) fun values => ?_
    rw [assignableWithin_of_parts hgenerics hany heq hp' hp, hk, hk']
    simp only [length, ne_eq, not_true, if_false]

/-! ## Calls -/

/-- Going through the arguments of a call, each an instance of its parameter, records every
placeholder that occurs in a parameter. -/
theorem Coherent.inferArgs_of_instances (hr : r.Coherent) (hany : r.kind .any = .nominal)
    (hgenerics : ∀ g ∈ generics, r.kind g = .placeholder)
    (hgiven : ∀ g ∈ generics, ∀ g' ∈ generics, ¬ r.OccursIn g' (given g))
    (hclean : ∀ g ∈ generics, r.containsPoison (given g) = false)
    {params args : List TypeId}
    (hargs : List.Forall₂ (r.Replaced (assigned generics given)) params args)
    (hparams : ∀ p ∈ params, p.index < r.size ∧ r.containsPoison p = false)
    (hvalues : Records given seen values) (index : ℕ) :
    ∃ values', r.inferArgs index (args.zip params) (.ofValues generics values) =
        .ok (.ofValues generics values') ∧
      Records given (fun g => seen g ∨ g ∈ generics ∧ ∃ p ∈ params, r.OccursIn g p) values' := by
  have hassigned : ∀ g v, assigned generics given g = some v → r.containsPoison v = false := by
    intro g v hv
    rw [assigned] at hv
    split at hv
    case isTrue hg => exact Option.some.inj hv ▸ hclean g hg
    case isFalse => cases hv
  have hpoison : ∀ g ∈ generics, r.isPoison (given g) = false := fun g hg =>
    Bool.eq_false_iff.mpr fun h => Bool.eq_false_iff.mp (hclean g hg)
      (hr.containsPoison_iff.mpr ⟨given g, .self, h⟩)
  induction hargs generalizing seen values index with
  | nil => exact ⟨values, rfl, hvalues.congr fun g => by simp⟩
  | @cons param arg params args harg hargs ih =>
    obtain ⟨hregistered, hparam⟩ := hparams param List.mem_cons_self
    -- An argument without poison is not passed over.
    have hskip : r.containsPoison arg = false := hr.containsPoison_replaced harg hparam hassigned
    have hfuel : param.index + 1 < 3 * r.size + 3 := by omega
    obtain ⟨values₁, hok, hrecords⟩ := hr.recovers_assignableWithin hany hgenerics hgiven hpoison
      harg hregistered hfuel seen values hvalues
    obtain ⟨values₂, hok', hrecords'⟩ :=
      ih (fun p hp => hparams p (List.mem_cons_of_mem _ hp)) hrecords (index + 1)
    refine ⟨values₂, ?_, hrecords'.congr fun g => ?_⟩
    · rw [List.zip_cons_cons, inferArgs, hskip, infer, hok]
      exact hok'
    · simp only [List.mem_cons, or_and_right, exists_or, exists_eq_left, List.not_mem_nil, or_false]
      rw [and_or_left, or_assoc]

end Registry

namespace Checker

/-- A call whose arguments are accepted records no error, and its type arguments are what has been
inferred. -/
theorem checkCall_of_inferArgs (loc : Location) {c : Checker} {m : MethodRef} {args : List TypeId}
    {b : Bindings} (hlength : ((c.types.method m).params.map (·.ty)).length = args.length)
    (hinfer : c.types.inferArgs 0 (args.zip ((c.types.method m).params.map (·.ty)))
      (.ofParams (c.types.method m).generics) = .ok b) :
    (checkCall m args loc c).2.errors = c.errors ∧
      (checkCall m args loc c).1.typeArgs = b.resolved := by
  unfold checkCall
  simp only [bind, StateT.bind, get, getThe, MonadStateOf.get, StateT.get, pure]
  rw [if_neg (not_not_intro hlength), hinfer]
  exact ⟨rfl, rfl⟩

open Classical in
/-- **Inference recovers an instantiation.** Let types without poison be given for the placeholders
of a method, none of which mentions a placeholder of the method, and let the parameters be free of
poison. A call whose arguments are the parameters with these types in the places of the placeholders
records no error. Its type arguments are, in the order of declaration, what was given for each
placeholder that occurs in a parameter, and `any` for the others. -/
theorem checkCall_of_instance {c : Checker} {m : MethodRef} {args : List TypeId} (loc : Location)
    {given : TypeId → TypeId} (hreachable : Registry.Reachable .free c.types)
    (hsignature : (c.types.method m).Signature c.types)
    (hparams : ∀ p ∈ (c.types.method m).params, c.types.containsPoison p.ty = false)
    (hclean : ∀ g ∈ (c.types.method m).generics, c.types.containsPoison (given g) = false)
    (hgiven : ∀ g ∈ (c.types.method m).generics, ∀ g' ∈ (c.types.method m).generics,
      ¬ c.types.OccursIn g' (given g))
    (hargs : List.Forall₂ (c.types.Replaced (Registry.assigned (c.types.method m).generics given))
      ((c.types.method m).params.map (·.ty)) args) :
    (checkCall m args loc c).2.errors = c.errors ∧
      (checkCall m args loc c).1.typeArgs = (c.types.method m).generics.map fun g =>
        (g, if ∃ p ∈ (c.types.method m).params, c.types.OccursIn g p.ty then given g
          else .any) := by
  have hany : c.types.kind .any = .nominal := hreachable.retains.kind (by decide)
  have htypes : ∀ ty ∈ (c.types.method m).params.map (·.ty),
      ty.index < c.types.size ∧ c.types.containsPoison ty = false := by
    intro ty hty
    obtain ⟨p, hp, rfl⟩ := List.mem_map.mp hty
    exact ⟨hsignature.params p hp, hparams p hp⟩
  have hnothing : Registry.Records given (fun _ => False) fun _ => none :=
    fun g v => ⟨nofun, nofun⟩
  obtain ⟨values, hinfer, hrecords⟩ := hreachable.coherent.inferArgs_of_instances hany
    hsignature.generics hgiven hclean hargs htypes hnothing 0
  obtain ⟨herrors, htypeArgs⟩ := checkCall_of_inferArgs loc hargs.length_eq hinfer
  refine ⟨herrors, htypeArgs.trans (List.map_congr_left fun g hg => ?_)⟩
  have hg : g ∈ (c.types.method m).generics := hg
  have hoccurs : (False ∨ g ∈ (c.types.method m).generics ∧
      ∃ ty ∈ (c.types.method m).params.map (·.ty), c.types.OccursIn g ty) ↔
      ∃ p ∈ (c.types.method m).params, c.types.OccursIn g p.ty := by
    simp only [hg, true_and, false_or, List.mem_map, exists_exists_and_eq_and]
  rw [Bindings.value?_ofValues, if_pos hg]
  split
  case isTrue hin =>
    rw [(hrecords g (given g)).mpr ⟨hoccurs.mpr hin, rfl⟩, Option.getD_some]
  case isFalse hnot =>
    have hnone : values g = none := by
      refine Option.eq_none_iff_forall_ne_some.mpr fun v hv => hnot ?_
      exact hoccurs.mp ((hrecords g v).mp hv).1
    rw [hnone, Option.getD_none]

/-- A call `m(1, [2])` of `m<T>(x: T, y: T[])` gives `T` the type `int`. -/
theorem checkCall_of_instance_pair :
    let c := ofTypes (Registry.withGeneric [⟨8⟩, ⟨9⟩])
    List.Forall₂ (c.types.Replaced (Registry.assigned [⟨8⟩] fun _ => .int)) [⟨8⟩, ⟨9⟩]
        [.int, ⟨10⟩] ∧
      (checkCall ⟨.main, 0⟩ [.int, ⟨10⟩] ⟨none, ⟨0, 1⟩⟩ c).2.errors = c.errors ∧
      (checkCall ⟨.main, 0⟩ [.int, ⟨10⟩] ⟨none, ⟨0, 1⟩⟩ c).1.typeArgs = [(⟨8⟩, .int)] := by
  intro c
  have hT : c.types.Replaced (Registry.assigned [⟨8⟩] fun _ => .int) ⟨8⟩ .int :=
    .placeholder (by decide +kernel)
  have hargs : List.Forall₂ (c.types.Replaced (Registry.assigned [⟨8⟩] fun _ => .int)) [⟨8⟩, ⟨9⟩]
      [.int, ⟨10⟩] := by
    refine .cons hT (.cons (.array ?_ ?_ hT) .nil)
    · show (Registry.withGeneric [⟨8⟩, ⟨9⟩]).kind ⟨9⟩ = .array ⟨8⟩
      decide +kernel
    · show (Registry.withGeneric [⟨8⟩, ⟨9⟩]).kind ⟨10⟩ = .array .int
      decide +kernel
  have hgenerics : (c.types.method ⟨.main, 0⟩).generics = [⟨8⟩] := by decide +kernel
  have hparams : (c.types.method ⟨.main, 0⟩).params = [⟨"x", ⟨8⟩⟩, ⟨"x", ⟨9⟩⟩] := by decide +kernel
  have hint : ∀ g', c.types.OccursIn g' .int → g' = .int := by
    intro g' h
    refine h.eq_or_part.resolve_right ?_
    rintro ⟨p, hp, -⟩
    rw [show c.types.kind .int = .nominal by decide +kernel] at hp
    cases hp
  obtain ⟨herrors, htypeArgs⟩ := @checkCall_of_instance c ⟨.main, 0⟩ [.int, ⟨10⟩] ⟨none, ⟨0, 1⟩⟩
    (fun _ => .int) (Registry.reachable_withGeneric _)
    ⟨by decide +kernel, by decide +kernel, by decide +kernel⟩ (by decide +kernel)
    (fun _ _ => by decide +kernel)
    (fun g _ g' hg' h => by
      rw [hgenerics, hint g' h] at hg'
      exact absurd hg' (by decide))
    (by rw [hgenerics, hparams]; exact hargs)
  rw [hgenerics, hparams, List.map_singleton] at htypeArgs
  rw [if_pos ⟨_, List.mem_cons_self, .self⟩] at htypeArgs
  exact ⟨hargs, herrors, htypeArgs⟩

end Checker

end ObjectGraph
