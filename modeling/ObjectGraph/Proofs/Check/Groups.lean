import Mathlib.Logic.Relation
import ObjectGraph.Proofs.Check.Poison

/-!
# Bindings only grow

The bindings of a call are a partition of the placeholders that are being inferred, with at most
one type for each group (`Bindings.Partitioned`). Two things are done to them: an unbound group is
bound to a type, and two groups are joined unless they have different types. Both leave every type
that a placeholder has, and neither takes a group apart (`Bindings.Grows`). So this holds of every
comparison, whether it is accepted or fails half-way through a function type, and of any number of
comparisons one after another.

Where placeholders are compared with each other is deep inside of a comparison. A `Comparison` holds
what one call of the recursion is given, and `Comparison.Calls` says which calls it makes in turn. A
call is given bindings that have grown, and those that it leaves grow on (`Comparison.Makes.grows`).
So placeholders that have been accepted for each other there are joined for ever
(`bindings_only_grow`).
-/

namespace ObjectGraph

namespace Bindings

variable {b b' b'' : Bindings} {p q ty : TypeId} {g : BindingGroup}

/-! ## Groups -/

/-- Every placeholder that is inferred is in a group, and no placeholder is in two. -/
structure Partitioned (b : Bindings) : Prop where
  /-- Placeholders that are inferred have a group. -/
  covers : ∀ p ∈ b.params, ∃ g ∈ b.groups, p ∈ g.members
  /-- Groups with a common member are the same. -/
  disjoint : ∀ g ∈ b.groups, ∀ h ∈ b.groups, ∀ p ∈ g.members, p ∈ h.members → g = h

/-- Two placeholders are in one group. -/
def Linked (b : Bindings) (p q : TypeId) : Prop := ∃ g ∈ b.groups, p ∈ g.members ∧ q ∈ g.members

/-- A group that is found is one of the groups, and has the placeholder for a member. -/
theorem mem_of_group? (h : b.group? p = some g) : g ∈ b.groups ∧ p ∈ g.members := by
  have hcontains : g.members.contains p = true :=
    List.find?_some (p := fun g : BindingGroup => g.members.contains p) h
  exact ⟨List.mem_of_find?_eq_some h, List.contains_iff_mem.mp hcontains⟩

/-- What is found for a placeholder is the one group that it is in. -/
theorem Partitioned.group?_eq_some_iff (h : b.Partitioned) :
    b.group? p = some g ↔ g ∈ b.groups ∧ p ∈ g.members := by
  refine ⟨mem_of_group?, fun ⟨hg, hp⟩ => ?_⟩
  have hsome : (b.group? p).isSome = true :=
    List.find?_isSome.mpr ⟨g, hg, List.contains_iff_mem.mpr hp⟩
  obtain ⟨g', hg'⟩ := Option.isSome_iff_exists.mp hsome
  obtain ⟨hmem, hp'⟩ := mem_of_group? hg'
  rw [hg', h.disjoint g' hmem g hg p hp' hp]

/-- The type of a placeholder is that of a group which it is in. -/
theorem Partitioned.value?_eq_some_iff (h : b.Partitioned) :
    b.value? p = some ty ↔ ∃ g ∈ b.groups, p ∈ g.members ∧ g.value = some ty := by
  unfold value?
  rw [Option.bind_eq_some_iff]
  constructor
  · rintro ⟨g, hg, hvalue⟩
    obtain ⟨hmem, hp⟩ := mem_of_group? hg
    exact ⟨g, hmem, hp, hvalue⟩
  · rintro ⟨g, hg, hp, hvalue⟩
    exact ⟨g, h.group?_eq_some_iff.mpr ⟨hg, hp⟩, hvalue⟩

/-- Placeholders of one group have one type. -/
theorem Partitioned.value?_eq_of_linked (h : b.Partitioned) (hpq : b.Linked p q) :
    b.value? p = b.value? q := by
  obtain ⟨g, hg, hp, hq⟩ := hpq
  unfold value?
  rw [h.group?_eq_some_iff.mpr ⟨hg, hp⟩, h.group?_eq_some_iff.mpr ⟨hg, hq⟩]

/-- A placeholder that is inferred is in a group with itself. -/
theorem Partitioned.linked_self (h : b.Partitioned) (hp : p ∈ b.params) : b.Linked p p := by
  obtain ⟨g, hg, hmem⟩ := h.covers p hp
  exact ⟨g, hg, hmem, hmem⟩

/-- In the beginning every placeholder is alone. -/
theorem partitioned_ofParams (params : List TypeId) : (ofParams params).Partitioned where
  covers p hp := by
    refine ⟨⟨[p], none⟩, List.mem_map.mpr ⟨p, List.mem_eraseDups.mpr hp, rfl⟩, ?_⟩
    exact List.mem_singleton_self p
  disjoint g hg h hh p hpg hph := by
    obtain ⟨x, -, rfl⟩ := List.mem_map.mp hg
    obtain ⟨y, -, rfl⟩ := List.mem_map.mp hh
    rw [← List.mem_singleton.mp hpg, ← List.mem_singleton.mp hph]

/-! ## Growing -/

/-- The second bindings are the first ones with more types, and with groups joined. -/
structure Grows (b b' : Bindings) : Prop where
  /-- The same placeholders are inferred. -/
  params : b'.params = b.params
  /-- They are in groups as before. -/
  partitioned : b'.Partitioned
  /-- A placeholder keeps its type. -/
  values : ∀ {p ty}, b.value? p = some ty → b'.value? p = some ty
  /-- Placeholders of one group stay together. -/
  links : ∀ {p q}, b.Linked p q → b'.Linked p q

/-- Bindings that are left as they are have grown. -/
theorem Grows.refl (h : b.Partitioned) : b.Grows b := ⟨rfl, h, fun hv => hv, fun hl => hl⟩

/-- Growing goes on. -/
theorem Grows.trans (a : b.Grows b') (c : b'.Grows b'') : b.Grows b'' where
  params := c.params.trans a.params
  partitioned := c.partitioned
  values hv := c.values (a.values hv)
  links hl := c.links (a.links hl)

/-- Bindings in which every group is part of a larger one that has its type. -/
theorem Partitioned.grows (h : b.Partitioned) (params : b'.params = b.params)
    (disjoint : ∀ g ∈ b'.groups, ∀ k ∈ b'.groups, ∀ p ∈ g.members, p ∈ k.members → g = k)
    (larger : ∀ g ∈ b.groups, ∃ k ∈ b'.groups, g.members ⊆ k.members ∧
      ∀ ty, g.value = some ty → k.value = some ty) : b.Grows b' := by
  have hpartitioned : b'.Partitioned := by
    refine ⟨fun p hp => ?_, disjoint⟩
    obtain ⟨g, hg, hpg⟩ := h.covers p (params ▸ hp)
    obtain ⟨k, hk, hmembers, -⟩ := larger g hg
    exact ⟨k, hk, hmembers hpg⟩
  refine ⟨params, hpartitioned, fun {p ty} hv => ?_, fun {p q} hl => ?_⟩
  · obtain ⟨g, hg, hpg, hvalue⟩ := h.value?_eq_some_iff.mp hv
    obtain ⟨k, hk, hmembers, hvalues⟩ := larger g hg
    exact hpartitioned.value?_eq_some_iff.mpr ⟨k, hk, hmembers hpg, hvalues ty hvalue⟩
  · obtain ⟨g, hg, hpg, hqg⟩ := hl
    obtain ⟨k, hk, hmembers, -⟩ := larger g hg
    exact ⟨k, hk, hmembers hpg, hmembers hqg⟩

/-- Binding the group of a placeholder without a type. -/
theorem grows_bind (h : b.Partitioned) (hnone : b.value? p = none) (ty : TypeId) :
    b.Grows (b.bind p ty) := by
  -- What a group becomes has the same members.
  let bound (g : BindingGroup) := if g.members.contains p then { g with value := some ty } else g
  have hmembers (g : BindingGroup) : (bound g).members = g.members := by
    unfold bound
    split <;> rfl
  have hmem {g' : BindingGroup} : g' ∈ (b.bind p ty).groups ↔ ∃ g ∈ b.groups, bound g = g' :=
    List.mem_map
  refine h.grows rfl ?_ fun g hg => ⟨bound g, hmem.mpr ⟨g, hg, rfl⟩, ?_, fun v hv => ?_⟩
  · intro g' hg' k' hk' q hqg hqk
    obtain ⟨g, hg, rfl⟩ := hmem.mp hg'
    obtain ⟨k, hk, rfl⟩ := hmem.mp hk'
    rw [hmembers] at hqg hqk
    rw [h.disjoint g hg k hk q hqg hqk]
  · rw [hmembers]
    exact List.Subset.refl _
  · -- A group with a type is not the one that is bound.
    have hother : g.members.contains p = false := by
      refine Bool.eq_false_iff.mpr fun hp => ?_
      have hvalue := h.value?_eq_some_iff.mpr ⟨g, hg, List.contains_iff_mem.mp hp, hv⟩
      rw [hnone] at hvalue
      cases hvalue
    unfold bound
    rw [hother]
    exact hv

/-- Joining two groups that are not bound to different types. -/
theorem grows_join {k : BindingGroup} (h : b.Partitioned) (hg : g ∈ b.groups) (hk : k ∈ b.groups)
    (hagree : ∀ u v, g.value = some u → k.value = some v → u = v) :
    b.Grows { b with groups := ⟨g.members ++ k.members, g.value.or k.value⟩ ::
      b.groups.filter fun other => other != g && other != k } := by
  -- Whoever is in one of the two groups is in no other.
  have hapart : ∀ other ∈ b.groups.filter (fun other => other != g && other != k),
      ∀ q ∈ other.members, q ∉ g.members ++ k.members := by
    intro other hother q hq hjoined
    obtain ⟨hother, hneither⟩ := List.mem_filter.mp hother
    rw [Bool.and_eq_true, bne_iff_ne, bne_iff_ne] at hneither
    rcases List.mem_append.mp hjoined with hqg | hqk
    · exact hneither.1 (h.disjoint other hother g hg q hq hqg)
    · exact hneither.2 (h.disjoint other hother k hk q hq hqk)
  refine h.grows rfl ?_ fun x hx => ?_
  · intro x hx y hy q hqx hqy
    rcases List.mem_cons.mp hx with rfl | hx <;> rcases List.mem_cons.mp hy with rfl | hy
    · rfl
    · exact absurd hqx (hapart y hy q hqy)
    · exact absurd hqy (hapart x hx q hqx)
    · exact h.disjoint x (List.mem_of_mem_filter hx) y (List.mem_of_mem_filter hy) q hqx hqy
  · by_cases hxg : x = g
    · subst hxg
      refine ⟨_, List.mem_cons_self, List.subset_append_left _ _, fun v hv => ?_⟩
      rw [hv]
      rfl
    by_cases hxk : x = k
    · subst hxk
      refine ⟨_, List.mem_cons_self, List.subset_append_right _ _, fun v hv => ?_⟩
      cases hvalue : g.value with
      | none => exact hv
      | some u => rw [hagree u v hvalue hv]; rfl
    · have hneither : (x != g && x != k) = true := by
        rw [Bool.and_eq_true, bne_iff_ne, bne_iff_ne]
        exact ⟨hxg, hxk⟩
      exact ⟨x, List.mem_cons_of_mem _ (List.mem_filter.mpr ⟨hx, hneither⟩), List.Subset.refl _,
        fun _ => id⟩

/-- Linking two placeholders, whether or not their types differ. -/
theorem grows_link (h : b.Partitioned) (p q : TypeId) : b.Grows (b.link p q).2 := by
  unfold link
  split
  · rename_i g k hg hk
    split
    · exact .refl h
    split
    · exact .refl h
    · rename_i hdiffer
      refine grows_join h (mem_of_group? hg).1 (mem_of_group? hk).1 fun u v hu hv => ?_
      simpa [hu, hv] using hdiffer
  · exact .refl h

/-- Growing allows for comparisons. -/
theorem allows_grows : Allows Grows where
  keeps h := .refl h.partitioned
  trans := .trans
  link p q h := grows_link h.partitioned p q
  bind ty h hnone := grows_bind h.partitioned hnone ty

/-- Placeholders that have been linked are in one group. -/
theorem linked_of_link (h : (b.link p q).1 = true) : (b.link p q).2.Linked p q := by
  unfold link at h ⊢
  split at h
  · rename_i g k hg hk
    obtain ⟨hg, hpg⟩ := mem_of_group? hg
    obtain ⟨hk, hqk⟩ := mem_of_group? hk
    split at h
    · rename_i heq
      subst heq
      rw [if_pos rfl]
      exact ⟨g, hg, hpg, hqk⟩
    · rename_i hne
      rw [if_neg hne]
      split at h
      · cases h
      · rename_i hagree
        rw [if_neg hagree]
        exact ⟨_, List.mem_cons_self, List.mem_append_left _ hpg, List.mem_append_right _ hqk⟩
  · cases h

end Bindings

/-! ## Pairs -/

section Pairs

variable {test : TypeId → TypeId → Bindings → Bool × Bindings} {ss ts : List TypeId}
variable {b b' : Bindings}

/-- Pairs that are compared let the bindings grow if each comparison does. -/
theorem grows_allPairs (htest : ∀ s t (b : Bindings), b.Partitioned → b.Grows (test s t b).2)
    (h : b.Partitioned) : b.Grows (allPairs test ss ts b).2 :=
  Bindings.allows_grows.allPairs (fun s t b hb => htest s t b hb.partitioned) (.refl h)

/-- After pairs that are accepted the comparison goes on with the others. -/
theorem allPairs_append (h : allPairs test ss ts b = (true, b')) (ss' ts' : List TypeId) :
    allPairs test (ss ++ ss') (ts ++ ts') b = allPairs test ss' ts' b' := by
  induction ss generalizing ts b with
  | nil =>
    cases ts with
    | nil =>
      obtain rfl : b = b' := (Prod.mk.inj h).2
      rfl
    | cons t ts => cases h
  | cons s ss ih =>
    cases ts with
    | nil => cases h
    | cons t ts =>
      rw [allPairs] at h
      rw [List.cons_append, List.cons_append, allPairs]
      split at h
      · exact ih h
      · cases h

/-- What is left of a pair's bindings when the pairs after it have been compared. -/
theorem grows_rest (htest : ∀ s t (b : Bindings), b.Partitioned → b.Grows (test s t b).2)
    (h : b.Partitioned) (s t : TypeId) :
    (test s t b).2.Grows (allPairs test (s :: ss) (t :: ts) b).2 := by
  have hpartitioned := (htest s t b h).partitioned
  rw [allPairs]
  split
  · rename_i b₁ heq
    rw [heq] at hpartitioned ⊢
    exact grows_allPairs htest hpartitioned
  · rename_i b₁ heq
    rw [heq] at hpartitioned ⊢
    exact .refl hpartitioned

end Pairs

/-! ## Comparisons -/

namespace Registry

variable {r : Registry} {source target p q : TypeId} {b b' : Bindings}

/-- A comparison lets the bindings grow, wherever in it they are made and whether or not it is
accepted. -/
theorem grows_assignableWithin (r : Registry) (fuel : ℕ) (source target : TypeId) (b : Bindings)
    (h : b.Partitioned) : b.Grows (r.assignableWithin fuel source target b).2 :=
  Bindings.allows_grows.assignableWithin r fuel source target (.refl h)

/-- Placeholders that are accepted for each other are in one group. -/
theorem linked_assignableWithin {fuel : ℕ} (h : b.Partitioned) (hp : p ∈ b.params)
    (hq : q ∈ b.params) (hpkind : r.kind p = .placeholder) (hqkind : r.kind q = .placeholder)
    (hany : r.kind .any = .nominal) (haccepted : (r.assignableWithin fuel p q b).1 = true) :
    (r.assignableWithin fuel p q b).2.Linked p q := by
  -- Placeholders are accepted at once only if they are the same.
  have hnotany : q ≠ .any := by
    rintro rfl
    rw [hany] at hqkind
    cases hqkind
  have hpclean : r.isPoison p = false := by rw [isPoison, hpkind]; rfl
  have hqclean : r.isPoison q = false := by rw [isPoison, hqkind]; rfl
  have hpin : b.isInferable p = true := List.contains_iff_mem.mpr hp
  have hqin : b.isInferable q = true := List.contains_iff_mem.mpr hq
  cases fuel with
  | zero => cases haccepted
  | succ fuel =>
    rw [assignableWithin] at haccepted ⊢
    by_cases heq : p = q
    · subst heq
      rw [if_pos (by simp)]
      exact h.linked_self hp
    · simp only [heq, hpclean, hqclean, hnotany, decide_false, Bool.or_self, Bool.false_eq_true,
        if_false, hpin, hqin, if_true] at haccepted ⊢
      exact Bindings.linked_of_link haccepted

/-- What one call of the recursion is given. -/
structure Comparison where
  /-- How far it reaches. -/
  fuel : ℕ
  /-- What is to be used. -/
  source : TypeId
  /-- What it is to be used as. -/
  target : TypeId
  /-- The bindings that are shared with the calls before and after. -/
  bindings : Bindings

/-- What the call answers, and the bindings that follow from it. -/
def Comparison.run (r : Registry) (c : Comparison) : Bool × Bindings :=
  r.assignableWithin c.fuel c.source c.target c.bindings

/-- A call looks at its source: it does not accept the two at once, and its target is not one of the
placeholders that are inferred. -/
structure Comparison.Open (r : Registry) (source target : TypeId) (b : Bindings) : Prop where
  /-- They are different types without poison, and the target is not `any`. -/
  surface : (source = target || r.isPoison source || r.isPoison target || target = .any) = false
  /-- The target is an ordinary type. -/
  target : b.isInferable target = false

/-- The calls that a call makes with the bindings that it is given. A source that is compared with
the earlier binding of a target has bindings of its own, and is not among them. -/
inductive Comparison.Calls (r : Registry) : Comparison → Comparison → Prop
  /-- A source that is inferred is compared by its type. -/
  | value {fuel : ℕ} {source target bound : TypeId} {b : Bindings}
      (hopen : Open r source target b) (hsource : b.isInferable source = true)
      (hvalue : b.value? source = some bound) :
      Calls r ⟨fuel + 1, source, target, b⟩ ⟨fuel, bound, target, b⟩
  /-- Arrays are compared by their elements. -/
  | element {fuel : ℕ} {source target s t : TypeId} {b : Bindings}
      (hopen : Open r source target b) (hsource : b.isInferable source = false)
      (hs : r.kind source = .array s) (ht : r.kind target = .array t) :
      Calls r ⟨fuel + 1, source, target, b⟩ ⟨fuel, s, t, b⟩
  /-- A parameter of functions is compared when those before it have been accepted. -/
  | param {fuel : ℕ} {source target s t result result' : TypeId} {ss ss' ts ts' : List TypeId}
      {b b₁ : Bindings}
      (hopen : Open r source target b) (hsource : b.isInferable source = false)
      (hs : r.kind source = .function (ss ++ s :: ss') result)
      (ht : r.kind target = .function (ts ++ t :: ts') result')
      (hlength : (ss ++ s :: ss').length = (ts ++ t :: ts').length)
      (hbefore : allPairs (r.assignableWithin fuel) ss ts b = (true, b₁)) :
      Calls r ⟨fuel + 1, source, target, b⟩ ⟨fuel, s, t, b₁⟩
  /-- The results of functions are compared when all parameters have been accepted. -/
  | result {fuel : ℕ} {source target s t : TypeId} {ss ts : List TypeId} {b b₁ : Bindings}
      (hopen : Open r source target b) (hsource : b.isInferable source = false)
      (hs : r.kind source = .function ss s) (ht : r.kind target = .function ts t)
      (hlength : ss.length = ts.length)
      (hbefore : allPairs (r.assignableWithin fuel) ss ts b = (true, b₁)) :
      Calls r ⟨fuel + 1, source, target, b⟩ ⟨fuel, s, t, b₁⟩

/-- The calls that are made in the course of a call, itself included. -/
def Comparison.Makes (r : Registry) : Comparison → Comparison → Prop :=
  Relation.ReflTransGen (Comparison.Calls r)

namespace Comparison

variable {fuel : ℕ}

/-- A source that is inferred stands for its type. -/
theorem Open.run_value {bound : TypeId} (h : Open r source target b)
    (hsource : b.isInferable source = true) (hvalue : b.value? source = some bound) :
    run r ⟨fuel + 1, source, target, b⟩ = run r ⟨fuel, bound, target, b⟩ := by
  unfold run
  rw [assignableWithin, h.surface, h.target]
  simp only [Bool.false_eq_true, if_false, hsource, if_true, hvalue]

/-- Array types stand for their elements. -/
theorem Open.run_array {s t : TypeId} (h : Open r source target b)
    (hsource : b.isInferable source = false) (hs : r.kind source = .array s)
    (ht : r.kind target = .array t) :
    run r ⟨fuel + 1, source, target, b⟩ = run r ⟨fuel, s, t, b⟩ := by
  unfold run
  rw [assignableWithin, h.surface, h.target]
  simp only [Bool.false_eq_true, if_false, hsource, hs, ht]

/-- Function types stand for their parameters, and then for their results. -/
theorem Open.run_function {ss ts : List TypeId} {s t : TypeId} (h : Open r source target b)
    (hsource : b.isInferable source = false) (hs : r.kind source = .function ss s)
    (ht : r.kind target = .function ts t) (hlength : ss.length = ts.length) :
    run r ⟨fuel + 1, source, target, b⟩ =
      match allPairs (r.assignableWithin fuel) ss ts b with
      | (true, b') => run r ⟨fuel, s, t, b'⟩
      | (false, b') => (false, b') := by
  unfold run
  rw [assignableWithin, h.surface, h.target]
  rcases hall : allPairs (r.assignableWithin fuel) ss ts b with ⟨_ | _, b'⟩ <;>
    simp only [Bool.false_eq_true, if_false, hsource, hs, ht, hlength, ne_eq, not_true, hall]

/-- A call lets the bindings grow. -/
theorem grows_run (c : Comparison) (h : c.bindings.Partitioned) : c.bindings.Grows (c.run r).2 :=
  r.grows_assignableWithin c.fuel c.source c.target c.bindings h

/-- A call is given bindings that have grown since its caller's, and those that it leaves grow until
its caller is done. -/
theorem Calls.grows {outer inner : Comparison} (h : Calls r outer inner)
    (hb : outer.bindings.Partitioned) :
    outer.bindings.Grows inner.bindings ∧ (inner.run r).2.Grows (outer.run r).2 := by
  -- The caller may leave what the call does.
  have hlast (c : Comparison) (h : c.bindings.Partitioned) : (c.run r).2.Grows (c.run r).2 :=
    .refl (grows_run c h).partitioned
  have hbefore {fuel : ℕ} {ss ts : List TypeId} {b b₁ : Bindings} (hb : b.Partitioned)
      (h : allPairs (r.assignableWithin fuel) ss ts b = (true, b₁)) : b.Grows b₁ := by
    have hgrows : b.Grows (allPairs (r.assignableWithin fuel) ss ts b).2 :=
      grows_allPairs (r.grows_assignableWithin fuel) hb
    rw [h] at hgrows
    exact hgrows
  cases h with
  | value hopen hsource hvalue =>
    rw [hopen.run_value hsource hvalue]
    exact ⟨.refl hb, hlast _ hb⟩
  | element hopen hsource hs ht =>
    rw [hopen.run_array hsource hs ht]
    exact ⟨.refl hb, hlast _ hb⟩
  | @param fuel _ _ s t _ _ ss ss' ts ts' _ b₁ hopen hsource hs ht hlength haccepted =>
    have hgiven := hbefore hb haccepted
    refine ⟨hgiven, ?_⟩
    have hrest : (r.assignableWithin fuel s t b₁).2.Grows
        (allPairs (r.assignableWithin fuel) (s :: ss') (t :: ts') b₁).2 :=
      grows_rest (r.grows_assignableWithin fuel) hgiven.partitioned s t
    rw [hopen.run_function hsource hs ht hlength, allPairs_append haccepted]
    split
    · rename_i b₂ heq
      rw [heq] at hrest
      exact hrest.trans (grows_run ⟨fuel, _, _, b₂⟩ hrest.partitioned)
    · rename_i b₂ heq
      rw [heq] at hrest
      exact hrest
  | result hopen hsource hs ht hlength haccepted =>
    have hgiven := hbefore hb haccepted
    rw [hopen.run_function hsource hs ht hlength, haccepted]
    exact ⟨hgiven, hlast _ hgiven.partitioned⟩

/-- A call however deep is given bindings that have grown since the first call, and those that it
leaves grow until the first call is done. -/
theorem Makes.grows {outer inner : Comparison} (h : Makes r outer inner)
    (hb : outer.bindings.Partitioned) :
    outer.bindings.Grows inner.bindings ∧ (inner.run r).2.Grows (outer.run r).2 := by
  induction h with
  | refl => exact ⟨.refl hb, .refl (grows_run outer hb).partitioned⟩
  | tail _ hcall ih =>
    obtain ⟨hbefore, hafter⟩ := ih
    obtain ⟨hgiven, hleft⟩ := hcall.grows hbefore.partitioned
    exact ⟨hbefore.trans hgiven, hleft.trans hafter⟩

end Comparison

/-! ## One comparison after another -/

/-- The second bindings follow from the first ones by comparisons, each of them accepted or not. -/
def Compared (r : Registry) : Bindings → Bindings → Prop :=
  Relation.ReflTransGen fun b b' => ∃ source target, b' = (r.infer source target b).2

/-- Comparisons let the bindings grow. -/
theorem Compared.grows (h : r.Compared b b') (hb : b.Partitioned) : b.Grows b' := by
  induction h with
  | refl => exact .refl hb
  | tail _ hstep ih =>
    obtain ⟨source, target, rfl⟩ := hstep
    exact ih.trans (r.grows_assignableWithin _ source target _ ih.partitioned)

/-- **Bindings only grow.** Whatever has been compared, accepted or not: a placeholder that has a
type has this type after all comparisons to come, and two placeholders that have been accepted for
each other, anywhere in the course of a comparison, have the same type after it and after all
comparisons to come. -/
theorem bindings_only_grow {params : List TypeId} (h : r.Compared (.ofParams params) b) :
    (∀ p ty b', r.Compared b b' → b.value? p = some ty → b'.value? p = some ty) ∧
    ∀ source target, ∀ inner : Comparison,
      Comparison.Makes r ⟨3 * r.size + 3, source, target, b⟩ inner →
      inner.source ∈ params → r.kind inner.source = .placeholder →
      inner.target ∈ params → r.kind inner.target = .placeholder → r.kind .any = .nominal →
      (inner.run r).1 = true →
      ∀ b', r.Compared (r.infer source target b).2 b' →
        b'.value? inner.source = b'.value? inner.target := by
  have hb := h.grows (Bindings.partitioned_ofParams params)
  refine ⟨fun p ty b' hlater hvalue => (hlater.grows hb.partitioned).values hvalue, ?_⟩
  intro source target inner hmakes hp hpkind hq hqkind hany haccepted b' hlater
  obtain ⟨hgiven, hleft⟩ := hmakes.grows hb.partitioned
  have hinner : inner.bindings.params = params := hgiven.params.trans hb.params
  -- The two are linked at once, and stay so until the outermost call is done and ever after.
  have hlinked : (inner.run r).2.Linked inner.source inner.target :=
    linked_assignableWithin hgiven.partitioned (hinner ▸ hp) (hinner ▸ hq) hpkind hqkind hany
      haccepted
  have hgrown := hlater.grows hleft.partitioned
  exact hgrown.partitioned.value?_eq_of_linked (hgrown.links (hleft.links hlinked))

/-- Placeholders `T` and `U`, and the function types `(T, int) => int` and `(U, string) => int`
after them. -/
def withPlaceholders : Registry :=
  let r := (placeholder "Main.m" "U" (placeholder "Main.m" "T" initial).2).2
  (functionOf [⟨8⟩, .string] .int (functionOf [⟨7⟩, .int] .int r).2).2

/-- `(T, int) => int` is not assignable to `(U, string) => int`, but `T` and `U` are together when
this is known. Both are `bool` when `bool` has been used for `U`, and still are so when `string` has
been refused for `T`. -/
theorem bindings_only_grow_linked :
    let r := withPlaceholders
    let refused := r.infer ⟨9⟩ ⟨10⟩ (.ofParams [⟨7⟩, ⟨8⟩])
    let bound := r.infer .bool ⟨8⟩ refused.2
    let later := r.infer .string ⟨7⟩ bound.2
    refused.1 = false ∧ bound.2.value? ⟨8⟩ = some .bool ∧ later.1 = false ∧
      later.2.value? ⟨8⟩ = some .bool ∧ later.2.value? ⟨7⟩ = later.2.value? ⟨8⟩ := by
  intro r refused bound later
  have hfirst : r.Compared (.ofParams [⟨7⟩, ⟨8⟩]) (.ofParams [⟨7⟩, ⟨8⟩]) := .refl
  have hbound : r.Compared refused.2 bound.2 := .single ⟨.bool, ⟨8⟩, rfl⟩
  have hlater : r.Compared bound.2 later.2 := .single ⟨.string, ⟨7⟩, rfl⟩
  have hvalue : bound.2.value? ⟨8⟩ = some .bool := by decide +kernel
  refine ⟨by decide +kernel, hvalue, by decide +kernel, ?_, ?_⟩
  · exact (bindings_only_grow ((hfirst.tail ⟨⟨9⟩, ⟨10⟩, rfl⟩).trans hbound)).1 ⟨8⟩ .bool later.2
      hlater hvalue
  · -- The first parameters are compared with each other, and accepted.
    have hcalls : Comparison.Calls r ⟨3 * r.size + 3, ⟨9⟩, ⟨10⟩, .ofParams [⟨7⟩, ⟨8⟩]⟩
        ⟨3 * r.size + 2, ⟨7⟩, ⟨8⟩, .ofParams [⟨7⟩, ⟨8⟩]⟩ :=
      @Comparison.Calls.param r _ ⟨9⟩ ⟨10⟩ ⟨7⟩ ⟨8⟩ .int .int [] [.int] [] [.string] _ _
        ⟨by decide +kernel, by decide +kernel⟩ (by decide +kernel) (by decide +kernel)
        (by decide +kernel) rfl rfl
    exact (bindings_only_grow hfirst).2 ⟨9⟩ ⟨10⟩ _ (.single hcalls) (by decide +kernel)
      (by decide +kernel) (by decide +kernel) (by decide +kernel) (by decide +kernel)
      (by decide +kernel) later.2 (hbound.trans hlater)

end Registry

end ObjectGraph
