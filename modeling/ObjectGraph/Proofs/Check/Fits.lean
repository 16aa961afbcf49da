import Mathlib.Logic.Function.Basic
import ObjectGraph.Check.Assignable
import ObjectGraph.Proofs.Types.Requests

/-!
# When a type fits another

`Registry.Fits` says without fuel and without a table of groups when a type may be used as
another one: arrays fit by element, functions part by part, other types by subclassing, and a
placeholder with a value takes what fits the value. Assignability under empty bindings decides it
(`assignable_of_fits`), and what the comparison with inference accepts fits under the bindings
that it ends with (`fits_of_assignableWithin`).

The latter needs that the source involves none of the placeholders that are inferred. Such a
source is taken for one of the placeholders, and is accepted unread as long as it is unbound.
Without them every group of placeholders keeps its one member, so that the table is a function
(`Bindings.ofValues`).
-/

namespace ObjectGraph

/-! ## Tables without links -/

namespace Bindings

/-- The bindings in which no placeholders are linked and each has the value that the function
gives. -/
def ofValues (params : List TypeId) (values : TypeId → Option TypeId) : Bindings :=
  ⟨params, params.eraseDups.map fun p => ⟨[p], values p⟩⟩

variable {params : List TypeId} {values : TypeId → Option TypeId} {p : TypeId}

/-- The group of a placeholder holds it alone. -/
theorem find?_groups (ps : List TypeId) (values : TypeId → Option TypeId) (p : TypeId) :
    (ps.map fun p => BindingGroup.mk [p] (values p)).find? (·.members.contains p) =
      if p ∈ ps then some ⟨[p], values p⟩ else none := by
  induction ps with
  | nil => rfl
  | cons q ps ih =>
    rw [List.map_cons, List.find?_cons]
    by_cases hpq : p = q
    · subst hpq
      simp
    · have hcontains : ([q].contains p) = false := by simpa using hpq
      simp only [hcontains, ih, List.mem_cons, hpq, false_or]

/-- The values of a table without links. -/
theorem value?_ofValues (params : List TypeId) (values : TypeId → Option TypeId) (p : TypeId) :
    (ofValues params values).value? p = if p ∈ params then values p else none := by
  simp only [value?, group?, ofValues, find?_groups, List.mem_eraseDups]
  split <;> rfl

/-- A placeholder with a value is one of those that are inferred. -/
theorem mem_of_value?_ofValues {ty : TypeId} (h : (ofValues params values).value? p = some ty) :
    p ∈ params ∧ values p = some ty := by
  rw [value?_ofValues] at h
  split at h
  · exact ⟨‹_›, h⟩
  · cases h

/-- Binding a placeholder gives it a value, and leaves the others as they are. -/
theorem bind_ofValues (params : List TypeId) (values : TypeId → Option TypeId) (p ty : TypeId) :
    (ofValues params values).bind p ty =
      ofValues params (Function.update values p (some ty)) := by
  simp only [bind, ofValues, List.map_map, Bindings.mk.injEq, true_and]
  refine List.map_congr_left fun q _ => ?_
  by_cases hpq : p = q
  · subst hpq
    simp
  · have hcontains : ([q].contains p) = false := by simpa using hpq
    simp only [Function.comp, hcontains, Function.update_of_ne (Ne.symm hpq)]
    rfl

end Bindings

namespace Registry

/-! ## Fitting -/

/-- Both types are arrays, or both are functions. -/
def SameForm (r : Registry) (source target : TypeId) : Prop :=
  match r.kind source, r.kind target with
  | .array _, .array _ => True
  | .function _ _, .function _ _ => True
  | _, _ => False

/-- A value of the source type may flow into a slot of the target type, if placeholders have the
given values. -/
inductive Fits (r : Registry) : (TypeId → Option TypeId) → TypeId → TypeId → Prop
  | refl {values : TypeId → Option TypeId} {ty : TypeId} : Fits r values ty ty
  | poison {values : TypeId → Option TypeId} {source target : TypeId}
      (h : r.isPoison source = true ∨ r.isPoison target = true) : Fits r values source target
  | any {values : TypeId → Option TypeId} {source : TypeId} : Fits r values source .any
  | bound {values : TypeId → Option TypeId} {source target value : TypeId}
      (bound : values target = some value) (registered : value.index < r.size)
      (h : Fits r (fun _ => none) source value) : Fits r values source target
  | array {values : TypeId → Option TypeId} {source target s t : TypeId}
      (hs : r.kind source = .array s) (ht : r.kind target = .array t) (h : Fits r values s t) :
      Fits r values source target
  | function {values : TypeId → Option TypeId} {source target s t : TypeId} {ss ts : List TypeId}
      (hs : r.kind source = .function ss s) (ht : r.kind target = .function ts t)
      (length : ss.length = ts.length) (params : ∀ pair ∈ ss.zip ts, Fits r values pair.1 pair.2)
      (result : Fits r values s t) : Fits r values source target
  | subclass {values : TypeId → Option TypeId} {source target : TypeId}
      (form : ¬ r.SameForm source target) (h : r.isSubclass source target = true) :
      Fits r values source target

/-- The type is, is built from, or extends the other type, directly or through others. -/
inductive Involves (r : Registry) (other : TypeId) : TypeId → Prop
  | self : Involves r other other
  | part {ty p : TypeId} (hp : p ∈ (r.kind ty).parts) (h : Involves r other p) :
      Involves r other ty
  | parent {ty p : TypeId} (hp : r.parent ty = some p) (h : Involves r other p) :
      Involves r other ty

variable {r r' : Registry} {values values' : TypeId → Option TypeId} {source target : TypeId}

/-- More values let the same types fit. -/
theorem Fits.mono (h : r.Fits values source target)
    (hvalues : ∀ p ty, values p = some ty → values' p = some ty) :
    r.Fits values' source target := by
  induction h with
  | refl => exact .refl
  | poison h => exact .poison h
  | any => exact .any
  | bound bound registered h => exact .bound (hvalues _ _ bound) registered h
  | array hs ht _ ih => exact .array hs ht (ih hvalues)
  | function hs ht length _ _ ihparams ihresult =>
    exact .function hs ht length (fun pair hpair => ihparams pair hpair hvalues)
      (ihresult hvalues)
  | subclass form h => exact .subclass form h

/-! ## What assignability decides -/

/-- Under bindings that infer nothing, types are compared without looking at the bindings. -/
theorem assignableWithin_empty (r : Registry) (fuel : ℕ) (source target : TypeId) :
    r.assignableWithin (fuel + 1) source target .empty =
      if source = target || r.isPoison source || r.isPoison target || target = .any then
        (true, .empty)
      else
        match r.kind source, r.kind target with
        | .array s, .array t => r.assignableWithin fuel s t .empty
        | .function ss s, .function ts t =>
          if ss.length ≠ ts.length then (false, .empty)
          else
            match allPairs (r.assignableWithin fuel) ss ts .empty with
            | (true, b) => r.assignableWithin fuel s t b
            | (false, b) => (false, b)
        | _, _ => (r.isSubclass source target, .empty) := rfl

/-- Pairs that pass without changing the state pass together. -/
theorem allPairs_eq {σ : Type} {test : TypeId → TypeId → σ → Bool × σ} {state : σ}
    {ss ts : List TypeId} (hlength : ss.length = ts.length)
    (h : ∀ pair ∈ ss.zip ts, test pair.1 pair.2 state = (true, state)) :
    allPairs test ss ts state = (true, state) := by
  induction ss generalizing ts with
  | nil =>
    rw [List.length_nil, eq_comm, List.length_eq_zero_iff] at hlength
    rw [hlength]
    rfl
  | cons s ss ih =>
    cases ts with
    | nil => cases hlength
    | cons t ts =>
      have hfirst : test s t state = (true, state) := h (s, t) List.mem_cons_self
      rw [allPairs, hfirst]
      exact ih (Nat.succ.inj hlength) fun pair hpair => h pair (List.mem_cons_of_mem _ hpair)

/-- Equal types, poison and `any` are accepted at once. -/
theorem assignableWithin_of_guard {fuel : ℕ}
    (h : source = target ∨ (r.isPoison source = true ∨ r.isPoison target = true) ∨ target = .any) :
    r.assignableWithin (fuel + 1) source target .empty = (true, .empty) := by
  rw [assignableWithin_empty, if_pos]
  simpa [or_assoc] using h

/-- A type that fits is accepted, with fuel beyond its position. -/
theorem Coherent.assignableWithin_of_fits (hr : r.Coherent)
    (h : r.Fits (fun _ => none) source target) (hs : source.index < r.size) {fuel : ℕ}
    (hfuel : source.index < fuel) :
    r.assignableWithin fuel source target .empty = (true, .empty) := by
  -- The parts of a type are registered before it, so that there is fuel left for them.
  generalize hvalues : (fun _ => none : TypeId → Option TypeId) = values at h
  induction h generalizing fuel with
  | refl =>
    obtain ⟨fuel, rfl⟩ := Nat.exists_eq_add_of_lt hfuel
    exact assignableWithin_of_guard (.inl rfl)
  | poison h =>
    obtain ⟨fuel, rfl⟩ := Nat.exists_eq_add_of_lt hfuel
    exact assignableWithin_of_guard (.inr (.inl h))
  | any =>
    obtain ⟨fuel, rfl⟩ := Nat.exists_eq_add_of_lt hfuel
    exact assignableWithin_of_guard (.inr (.inr rfl))
  | bound bound =>
    subst hvalues
    cases bound
  | @array _ source target s t hkind hkind' _ ih =>
    obtain ⟨fuel, rfl⟩ := Nat.exists_eq_add_of_lt hfuel
    have hpart : s.index < source.index := hr.parts hs s (mem_parts_of_array hkind)
    rw [assignableWithin_empty]
    split
    · rfl
    · simp only [hkind, hkind']
      exact ih (Nat.lt_trans hpart hs) (by omega) hvalues
  | @function _ source target s t ss ts hkind hkind' length _ _ ihparams ihresult =>
    obtain ⟨fuel, rfl⟩ := Nat.exists_eq_add_of_lt hfuel
    have hparts : ∀ p ∈ s :: ss, p.index < source.index :=
      fun p hp => hr.parts hs p (mem_parts_of_function hkind p hp)
    have hall : allPairs (r.assignableWithin (source.index + fuel)) ss ts .empty = (true, .empty) := by
      refine allPairs_eq length fun pair hpair => ?_
      have hpart := hparts _ (List.mem_cons_of_mem _ (List.of_mem_zip hpair).1)
      exact ihparams pair hpair (Nat.lt_trans hpart hs) (by omega) hvalues
    have hresult := hparts s List.mem_cons_self
    rw [assignableWithin_empty]
    split
    · rfl
    · simp only [hkind, hkind', length, ne_eq, not_true, if_false, hall]
      exact ihresult (Nat.lt_trans hresult hs) (by omega) hvalues
  | @subclass _ source target form h =>
    obtain ⟨fuel, rfl⟩ := Nat.exists_eq_add_of_lt hfuel
    rw [assignableWithin_empty]
    unfold SameForm at form
    split
    · rfl
    · cases hkind : r.kind source <;> cases hkind' : r.kind target <;> simp_all

/-- Assignability accepts what fits. -/
theorem Coherent.assignable_of_fits (hr : r.Coherent)
    (h : r.Fits (fun _ => none) source target) (hs : source.index < r.size) :
    r.assignable source target = true := by
  rw [assignable, infer, hr.assignableWithin_of_fits h hs (by omega)]

/-! ## What inference accepts -/

/-- The values extend others, and are registered types. -/
structure Grown (r : Registry) (values values' : TypeId → Option TypeId) : Prop where
  /-- Values stay. -/
  keeps : ∀ p ty, values p = some ty → values' p = some ty
  /-- Values are registered. -/
  registered : ∀ p ty, values' p = some ty → ty.index < r.size

/-- Values that are extended twice are extended. -/
theorem Grown.trans {values'' : TypeId → Option TypeId} (a : r.Grown values values')
    (b : r.Grown values' values'') : r.Grown values values'' :=
  ⟨fun p ty h => b.keeps p ty (a.keeps p ty h), b.registered⟩

/-- A table without links has more values if the function has. -/
theorem Grown.value? (h : r.Grown values values') (params : List TypeId) (p ty : TypeId)
    (hp : (Bindings.ofValues params values).value? p = some ty) :
    (Bindings.ofValues params values').value? p = some ty := by
  obtain ⟨hmem, hvalue⟩ := Bindings.mem_of_value?_ofValues hp
  rw [Bindings.value?_ofValues, if_pos hmem]
  exact h.keeps p ty hvalue

/-- The comparison has accepted: it has added values, under which the source fits. -/
def Accepted (r : Registry) (params : List TypeId) (values : TypeId → Option TypeId)
    (fits : (TypeId → Option TypeId) → Prop) (b : Bindings) : Prop :=
  ∃ values', b = .ofValues params values' ∧ r.Grown values values' ∧
    fits (Bindings.ofValues params values').value?

/-- If each pair of a list fits once it is accepted, all fit once all are accepted. -/
theorem fits_of_allPairs {params : List TypeId}
    {test : TypeId → TypeId → Bindings → Bool × Bindings} {ss ts : List TypeId} {b : Bindings}
    (htest : ∀ s ∈ ss, ∀ t ∈ ts, ∀ values b', (∀ p ty, values p = some ty → ty.index < r.size) →
      test s t (.ofValues params values) = (true, b') →
      r.Accepted params values (r.Fits · s t) b')
    (hvalues : ∀ p ty, values p = some ty → ty.index < r.size)
    (h : allPairs test ss ts (.ofValues params values) = (true, b)) :
    ss.length = ts.length ∧ r.Accepted params values
      (fun values => ∀ pair ∈ ss.zip ts, r.Fits values pair.1 pair.2) b := by
  induction ss generalizing ts values with
  | nil =>
    cases ts with
    | nil =>
      obtain rfl := (Prod.mk.inj h).2
      exact ⟨rfl, values, rfl, ⟨fun _ _ h => h, hvalues⟩, fun pair hpair => by cases hpair⟩
    | cons t ts => cases h
  | cons s ss ih =>
    cases ts with
    | nil => cases h
    | cons t ts =>
      rw [allPairs] at h
      split at h
      · rename_i b' hfirst
        obtain ⟨values', rfl, hgrown, hfits⟩ :=
          htest s List.mem_cons_self t List.mem_cons_self values b' hvalues hfirst
        obtain ⟨hlength, values'', rfl, hgrown', hrest⟩ :=
          ih (fun s hs t ht => htest s (List.mem_cons_of_mem _ hs) t (List.mem_cons_of_mem _ ht))
            hgrown.registered h
        refine ⟨congrArg Nat.succ hlength, values'', rfl, hgrown.trans hgrown', ?_⟩
        intro pair hpair
        rcases List.mem_cons.mp hpair with rfl | hpair
        · -- What the first pair has bound is kept by the others.
          exact hfits.mono (hgrown'.value? params)
        · exact hrest pair hpair
      · cases h

/-- An unbound placeholder is bound to the source. -/
theorem accepted_bind {params : List TypeId} (hs : source.index < r.size)
    (hvalues : ∀ p ty, values p = some ty → ty.index < r.size) (hmem : target ∈ params)
    (hnone : (Bindings.ofValues params values).value? target = none) :
    r.Accepted params values (r.Fits · source target)
      ((Bindings.ofValues params values).bind target source) := by
  rw [Bindings.value?_ofValues, if_pos hmem] at hnone
  refine ⟨Function.update values target (some source), Bindings.bind_ofValues .., ⟨?_, ?_⟩,
    .bound ?_ hs .refl⟩
  · intro p ty hp
    rw [Function.update_of_ne, hp]
    rintro rfl
    rw [hnone] at hp
    cases hp
  · intro p ty hp
    by_cases hpt : p = target
    · subst hpt
      rw [Function.update_self] at hp
      obtain rfl := Option.some.inj hp
      exact hs
    · rw [Function.update_of_ne hpt] at hp
      exact hvalues p ty hp
  · rw [Bindings.value?_ofValues, if_pos hmem, Function.update_self]

/-- What the comparison accepts fits under the bindings that it ends with, if the source involves
none of the placeholders that are inferred. -/
theorem Coherent.fits_of_assignableWithin (hr : r.Coherent) {fuel : ℕ} {params : List TypeId}
    {b : Bindings} (hs : source.index < r.size)
    (havoids : ∀ g ∈ params, ¬ r.Involves g source)
    (hvalues : ∀ p ty, values p = some ty → ty.index < r.size)
    (h : r.assignableWithin fuel source target (.ofValues params values) = (true, b)) :
    r.Accepted params values (r.Fits · source target) b := by
  induction fuel generalizing source target params values b with
  | zero => cases h
  | succ fuel ih =>
    have hsame : r.Grown values values := ⟨fun _ _ h => h, hvalues⟩
    have hsource : (Bindings.ofValues params values).isInferable source = false := by
      simpa [Bindings.isInferable, Bindings.ofValues] using
        fun hmem => havoids source hmem .self
    have hparts : ∀ p ∈ (r.kind source).parts, p.index < r.size ∧ ∀ g ∈ params, ¬ r.Involves g p :=
      fun p hp => ⟨hr.parts_registered hp, fun g hg hinvolves => havoids g hg (.part hp hinvolves)⟩
    rw [assignableWithin] at h
    split at h
    · rename_i hguard
      obtain rfl := (Prod.mk.inj h).2
      refine ⟨values, rfl, hsame, ?_⟩
      simp only [Bool.or_eq_true, decide_eq_true_eq] at hguard
      rcases hguard with ((rfl | hpoison) | hpoison) | rfl
      · exact .refl
      · exact .poison (.inl hpoison)
      · exact .poison (.inr hpoison)
      · exact .any
    · rw [hsource] at h
      simp only [Bool.false_eq_true, if_false] at h
      split at h
      · rename_i htarget
        have hmem : target ∈ params := by
          simpa [Bindings.isInferable, Bindings.ofValues] using htarget
        split at h
        · -- The placeholder has a value, which the source is compared with.
          rename_i value hvalue
          obtain ⟨hok, rfl⟩ := Prod.mk.inj h
          obtain ⟨-, hvalue'⟩ := Bindings.mem_of_value?_ofValues hvalue
          have hnothing : r.assignableWithin fuel source value
              (.ofValues [] fun _ => none) = (true, _) := Prod.ext_iff.mpr ⟨hok, rfl⟩
          obtain ⟨none', -, -, hfits⟩ := ih hs (fun g hg => absurd hg List.not_mem_nil)
            (fun _ _ h => by cases h) hnothing
          refine ⟨values, rfl, hsame, .bound hvalue (hvalues _ _ hvalue') (hfits.mono ?_)⟩
          intro p ty hp
          exact absurd (Bindings.mem_of_value?_ofValues hp).1 List.not_mem_nil
        · -- The placeholder gets the source for its value.
          rename_i hnone
          obtain rfl := (Prod.mk.inj h).2
          exact accepted_bind hs hvalues hmem hnone
      · split at h
        · rename_i s t hkind hkind'
          obtain ⟨hs', havoids'⟩ := hparts s (mem_parts_of_array hkind)
          obtain ⟨values', rfl, hgrown, hfits⟩ := ih hs' havoids' hvalues h
          exact ⟨values', rfl, hgrown, .array hkind hkind' hfits⟩
        · rename_i ss s ts t hkind hkind'
          rw [hkind] at hparts
          split at h
          · cases h
          · split at h
            · rename_i b' hparams
              obtain ⟨hlength, values', rfl, hgrown, hfits⟩ := fits_of_allPairs
                (fun p hp t _ values b' hvalues h =>
                  have hparam := hparts p (List.mem_cons_of_mem _ hp)
                  ih hparam.1 hparam.2 hvalues h) hvalues hparams
              obtain ⟨hs', havoids'⟩ := hparts s List.mem_cons_self
              obtain ⟨values'', rfl, hgrown', hresult⟩ := ih hs' havoids' hgrown.registered h
              -- What the parameters have bound is kept when the results are compared.
              exact ⟨values'', rfl, hgrown.trans hgrown', .function hkind hkind' hlength
                (fun pair hpair => (hfits pair hpair).mono (hgrown'.value? params)) hresult⟩
            · cases h
        · rename_i hnotArrays hnotFunctions
          obtain ⟨hsub, rfl⟩ := Prod.mk.inj h
          refine ⟨values, rfl, hsame, .subclass ?_ hsub⟩
          unfold SameForm
          split
          · exact fun _ => hnotArrays _ _ ‹_› ‹_›
          · exact fun _ => hnotFunctions _ _ _ _ ‹_› ‹_›
          · exact id

/-- Assignability is fitting where nothing is inferred. -/
theorem Coherent.assignable_iff_fits (hr : r.Coherent) (hs : source.index < r.size) :
    r.assignable source target = true ↔ r.Fits (fun _ => none) source target := by
  constructor
  · intro h
    have hok : r.assignableWithin (3 * r.size + 3) source target (.ofValues [] fun _ => none) =
        (true, (r.infer source target .empty).2) := Prod.ext_iff.mpr ⟨h, rfl⟩
    obtain ⟨values, -, -, hfits⟩ := hr.fits_of_assignableWithin hs
      (fun g hg => absurd hg List.not_mem_nil) (fun _ _ h => by cases h) hok
    refine hfits.mono fun p ty hp => ?_
    exact absurd (Bindings.mem_of_value?_ofValues hp).1 List.not_mem_nil
  · exact fun h => hr.assignable_of_fits h hs

end Registry

end ObjectGraph
