import ObjectGraph.Proofs.Types.Growth
import ObjectGraph.Proofs.Types.Substituting

/-!
# Types without placeholders

Evaluation adds no types but the array types and function types that it asks for
(`Registry.Formed`), and with types that mention no placeholder in the places of all placeholders,
what it asks for mentions none (`Coherent.substitute_concrete`). That takes a registry that answers
to such a request with such a type (`Registry.Faithful`), since types are found by their keys, and a
class might have been declared under the key of an array type. Where the names are plain there is
no danger of that: a placeholder's key has a point in it, and no other name has one
(`Legible.faithful`).
-/

namespace ObjectGraph.Registry

variable {names : Naming} {base r r' : Registry} {ty : TypeId}

/-! ## Looking through shapes -/

/-- A test that looks through a shape looks at the type and through its parts. -/
theorem shapeHasWithin_succ {test : TypeKind → Bool} {fuel : ℕ} :
    r.shapeHasWithin test (fuel + 1) ty = true ↔
      test (r.kind ty) = true ∨ ∃ p ∈ (r.kind ty).parts, r.shapeHasWithin test fuel p = true := by
  rw [shapeHasWithin]
  cases r.kind ty <;> simp [TypeKind.parts]

/-- What a test finds in the shape of a type depends on the type alone, once the fuel suffices, and
stays the same. -/
theorem Coherent.shapeHasWithin_iff (h : r.Coherent) (hr : r.Retains r') {test : TypeKind → Bool}
    {m n : ℕ} (hty : ty.index < r.size) (hm : ty.index < m) (hn : ty.index < n) :
    r'.shapeHasWithin test n ty = true ↔ r.shapeHasWithin test m ty = true := by
  induction m generalizing ty n with
  | zero => exact absurd hm (Nat.not_lt_zero _)
  | succ m ih =>
    obtain ⟨n, rfl⟩ := Nat.exists_eq_succ_of_ne_zero (Nat.ne_zero_of_lt hn)
    rw [shapeHasWithin_succ, shapeHasWithin_succ, hr.kind hty]
    refine or_congr_right (exists_congr fun p => and_congr_right fun hp => ?_)
    have hlt := h.parts hty p hp
    exact ih (Nat.lt_trans hlt hty) (by omega) (by omega)

/-- A type mentions a placeholder if it is one or one of its parts does. -/
theorem Coherent.containsPlaceholder_iff (h : r.Coherent) (hty : ty.index < r.size) :
    r.containsPlaceholder ty = true ↔
      r.kind ty = .placeholder ∨ ∃ p ∈ (r.kind ty).parts, r.containsPlaceholder p = true := by
  have hfuel : r.containsPlaceholder ty = true ↔
      r.shapeHasWithin (· == .placeholder) (r.size + 1) ty = true :=
    h.shapeHasWithin_iff Extends.refl.retains hty (Nat.lt_succ_of_lt hty) hty
  rw [hfuel, shapeHasWithin_succ, beq_iff_eq]
  rfl

/-- Types that mention a placeholder go on mentioning it, and others go on mentioning none. -/
theorem Coherent.containsPlaceholder_retained (h : r.Coherent) (hr : r.Retains r')
    (hty : ty.index < r.size) : r'.containsPlaceholder ty = r.containsPlaceholder ty :=
  Bool.eq_iff_iff.mpr (h.shapeHasWithin_iff hr hty hty (Nat.lt_of_lt_of_le hty hr.size))

/-! ## What occurs in a type -/

variable {g : TypeId}

/-- The first type is the second one or occurs in one of its parts. -/
inductive OccursIn (r : Registry) (other : TypeId) : TypeId → Prop
  | self : OccursIn r other other
  | part {ty p : TypeId} (hp : p ∈ (r.kind ty).parts) (h : OccursIn r other p) :
      OccursIn r other ty

/-- What occurs in a type is the type, or occurs in a part. -/
theorem OccursIn.eq_or_part (h : r.OccursIn g ty) :
    g = ty ∨ ∃ p ∈ (r.kind ty).parts, r.OccursIn g p := by
  cases h with
  | self => exact .inl rfl
  | part hp h => exact .inr ⟨_, hp, h⟩

/-- A type without parts occurs in a shape if it occurs in one of the shape's parts. -/
theorem occursIn_iff_parts {p : TypeId} (hg : (r.kind g).parts = []) (hp : p ∈ (r.kind ty).parts) :
    r.OccursIn g ty ↔ ∃ q ∈ (r.kind ty).parts, r.OccursIn g q := by
  constructor
  · intro h
    refine h.eq_or_part.resolve_left ?_
    rintro rfl
    rw [hg] at hp
    cases hp
  · rintro ⟨q, hq, h⟩
    exact .part hq h

/-- What a search through a shape finds occurs in the type. -/
theorem exists_of_shapeHasWithin {test : TypeKind → Bool} {fuel : ℕ}
    (h : r.shapeHasWithin test fuel ty = true) :
    ∃ p, r.OccursIn p ty ∧ test (r.kind p) = true := by
  induction fuel generalizing ty with
  | zero => cases h
  | succ fuel ih =>
    rcases shapeHasWithin_succ.mp h with hty | ⟨p, hp, h⟩
    · exact ⟨ty, .self, hty⟩
    · obtain ⟨q, hq, htest⟩ := ih h
      exact ⟨q, .part hp hq, htest⟩

/-- What occurs in a registered type is found, with fuel beyond its position. -/
theorem Coherent.shapeHasWithin_of_occursIn (hr : r.Coherent) {test : TypeKind → Bool}
    (h : r.OccursIn g ty) (htest : test (r.kind g) = true) (hty : ty.index < r.size) {fuel : ℕ}
    (hfuel : ty.index < fuel) : r.shapeHasWithin test fuel ty = true := by
  induction h generalizing fuel with
  | self =>
    obtain ⟨fuel, rfl⟩ := Nat.exists_eq_add_of_lt hfuel
    exact shapeHasWithin_succ.mpr (.inl htest)
  | @part ty p hp _ ih =>
    obtain ⟨fuel, rfl⟩ := Nat.exists_eq_add_of_lt hfuel
    have hlt : p.index < ty.index := hr.parts hty p hp
    refine shapeHasWithin_succ.mpr (.inr ⟨p, hp, ?_⟩)
    exact ih (Nat.lt_trans hlt hty) (by omega)

/-- A type contains poison if and only if some poison occurs in it. -/
theorem Coherent.containsPoison_iff (hr : r.Coherent) :
    r.containsPoison ty = true ↔ ∃ p, r.OccursIn p ty ∧ r.isPoison p = true := by
  constructor
  · exact exists_of_shapeHasWithin
  · rintro ⟨p, hp, hpoison⟩
    by_cases hty : ty.index < r.size
    · exact hr.shapeHasWithin_of_occursIn hp hpoison hty hty
    · -- A type that is not registered has no parts and is no poison.
      have hkind : r.kind ty = .nominal := by
        rw [kind, definition_of_le (Nat.le_of_not_lt hty)]
        rfl
      rcases hp.eq_or_part with rfl | ⟨q, hq, -⟩
      · rw [isPoison, hkind] at hpoison
        cases hpoison
      · rw [hkind] at hq
        cases hq

/-- A registered type mentions no placeholder if none occurs in it. -/
theorem Coherent.containsPlaceholder_eq_false_iff (h : r.Coherent) (hty : ty.index < r.size) :
    r.containsPlaceholder ty = false ↔ ∀ p, r.OccursIn p ty → r.kind p ≠ .placeholder := by
  rw [Bool.eq_false_iff]
  refine ⟨fun hfree p hp hk => hfree ?_, fun hnone hfound => ?_⟩
  · exact h.shapeHasWithin_of_occursIn hp (by rw [hk]; rfl) hty hty
  · obtain ⟨p, hp, hk⟩ := exists_of_shapeHasWithin hfound
    exact hnone p hp (beq_iff_eq.mp hk)

/-! ## Types without placeholders -/

/-- The type is registered, and nothing in it is a placeholder. -/
structure Concrete (r : Registry) (ty : TypeId) : Prop where
  /-- It is registered. -/
  registered : ty.index < r.size
  /-- It mentions no placeholder. -/
  free : r.containsPlaceholder ty = false

/-- What mentions no placeholder goes on mentioning none. -/
theorem Concrete.retained (hty : r.Concrete ty) (h : r.Coherent) (hr : r.Retains r') :
    r'.Concrete ty where
  registered := Nat.lt_of_lt_of_le hty.registered hr.size
  free := (h.containsPlaceholder_retained hr hty.registered).trans hty.free

/-- Names and poison mention nothing. -/
theorem Coherent.concrete_of_leaf (h : r.Coherent) (hty : ty.index < r.size)
    (hk : r.kind ty = .nominal ∨ r.kind ty = .poison) : r.Concrete ty where
  registered := hty
  free := by
    rw [Bool.eq_false_iff, ne_eq, h.containsPlaceholder_iff hty]
    rcases hk with hk | hk <;> simp [hk, TypeKind.parts]

/-! ## Requests of an evaluation -/

/-- A request does not give members to types. -/
theorem Formed.grows (h : r.Formed r') : r.Grows r' := by
  induction h with
  | refl => exact .refl
  | tail _ hf ih =>
    obtain ⟨q, hshape, -⟩ := hf
    rw [q.answer_eq]
    refine ih.trans (.findOrInsert ?_)
    cases q <;> rfl

/-- The registry answers types without placeholders to requests for such types, whatever has been
asked for before. -/
def Faithful (base : Registry) : Prop :=
  ∀ {r : Registry} {q : Request}, base.Formed r → q.kind.parts ≠ [] →
    (∀ p ∈ q.kind.parts, r.Concrete p) → (q.answer r).2.containsPlaceholder (q.answer r).1 = false

/-- With types without placeholders put in, nothing is left to replace. -/
theorem Coherent.rebuilds_concrete (h : base.Coherent) (hf : base.Faithful)
    (values : TypeId → TypeId) :
    Rebuilds (fun p => some (values p)) Formed
      (fun depth r ty => (base.Formed r ∧ ∀ p, r.Concrete (values p)) ∧ ty.index < depth ∧
        ty.index < r.size)
      fun r ty => base.Formed r ∧ r.Concrete ty := by
  have hcoherent {r : Registry} (hr : base.Formed r) : r.Coherent := h.formed hr
  have hretains {r r' : Registry} (hr : r.Formed r') : r.Retains r' := hr.grows.toExtends.retains
  exact {
    refl := fun _ => .refl
    trans := Relation.ReflTransGen.trans
    before_mono := fun hr hty => ⟨⟨hty.1.1.trans hr, fun p =>
      (hty.1.2 p).retained (hcoherent hty.1.1) (hretains hr)⟩, hty.2.1,
      Nat.lt_of_lt_of_le hty.2.2 (hretains hr).size⟩
    after_mono := fun hr hty => ⟨hty.1.trans hr, hty.2.retained (hcoherent hty.1) (hretains hr)⟩
    part := fun hty hp => by
      have hlt := (hcoherent hty.1.1).parts hty.2.2 _ hp
      exact ⟨hty.1, by omega, Nat.lt_trans hlt hty.2.2⟩
    bottom := fun hty => absurd hty.2.1 (Nat.not_lt_zero _)
    leaf := fun hty hk => ⟨hty.1.1, (hcoherent hty.1.1).concrete_of_leaf hty.2.2 hk⟩
    placeholder := fun hty _ => ⟨hty.1.1, hty.1.2 _⟩
    request := fun {q r} hshape hparts => by
      obtain ⟨p, hp⟩ := List.exists_mem_of_ne_nil _ hshape
      have hr : base.Formed r := (hparts p hp).1
      have hform : r.Formed (q.answer r).2 :=
        .single (.request q hshape fun p hp => (hparts p hp).2.registered)
      exact ⟨hform, hr.trans hform, ((hcoherent hr).answer_key q).1,
        hf hr hshape fun p hp => (hparts p hp).2⟩ }

/-- **Replacing all placeholders by types without placeholders gives a type without
placeholders.** -/
theorem Coherent.substitute_concrete (h : base.Coherent) (hf : base.Faithful)
    (hr : base.Formed r) {values : TypeId → TypeId} (hvalues : ∀ p, r.Concrete (values p))
    (hty : ty.index < r.size) :
    r.Formed (substitute (fun p => some (values p)) ty r).2 ∧
      (substitute (fun p => some (values p)) ty r).2.Concrete
        (substitute (fun p => some (values p)) ty r).1 := by
  obtain ⟨hformed, -, hconcrete⟩ :=
    (h.rebuilds_concrete hf values).substituteWithin ⟨⟨hr, hvalues⟩, hty, hty⟩
  exact ⟨hformed, hconcrete⟩

/-! ## What a substitution depends on -/

/-- Sequences of steps do the same if their first steps do, and the others from there on. -/
theorem bind_congr_at {α β : Type} {first first' : Registering α} {next next' : α → Registering β}
    (hfirst : first r = first' r)
    (hnext : next (first' r).1 (first' r).2 = next' (first' r).1 (first' r).2) :
    (first >>= next) r = (first' >>= next') r := by
  show next (first r).1 (first r).2 = _
  rw [hfirst, hnext]
  rfl

/-- Steps for the items of a list do the same if each step does, in whatever extension. -/
theorem Extends.mapM_congr {step step' : TypeId → Registering TypeId} {types : List TypeId}
    (hx : base.Extends r) (hgrow : ∀ ty (r : Registry), r.Extends (step' ty r).2)
    (hstep : ∀ ty ∈ types, ∀ r, base.Extends r → step ty r = step' ty r) :
    types.mapM step r = types.mapM step' r := by
  induction types generalizing r with
  | nil => rfl
  | cons ty types ih =>
    rw [List.mapM_cons, List.mapM_cons]
    refine bind_congr_at (hstep ty List.mem_cons_self r hx) (bind_congr_at ?_ rfl)
    exact ih (hx.trans (hgrow ty r)) fun t ht r hr => hstep t (List.mem_cons_of_mem _ ht) r hr

/-- **A substitution depends on the values of the placeholders that occur in the type**, and on
nothing else: neither on other values, nor on the depth that is allowed for, once it is beyond the
type's position. That is so in whatever extension of the registry. -/
theorem Coherent.substituteWithin_congr (h : base.Coherent) (hx : base.Extends r)
    (hty : ty.index < base.size) {values values' : TypeId → Option TypeId} {m n : ℕ}
    (hm : ty.index < m) (hn : ty.index < n)
    (hvalues : ∀ p, base.OccursIn p ty → base.kind p = .placeholder → values p = values' p) :
    substituteWithin values m ty r = substituteWithin values' n ty r := by
  induction m generalizing n ty r with
  | zero => exact absurd hm (Nat.not_lt_zero _)
  | succ m ih =>
    obtain ⟨n, rfl⟩ := Nat.exists_eq_succ_of_ne_zero (Nat.ne_zero_of_lt hn)
    have hkind := hx.kind hty
    -- The parts have smaller positions, so that one level less is enough for them.
    have hpart : ∀ p ∈ (base.kind ty).parts, ∀ r, base.Extends r →
        substituteWithin values m p r = substituteWithin values' n p r := by
      intro p hp r hx
      have hlt := h.parts hty p hp
      apply ih hx
      · exact Nat.lt_trans hlt hty
      · omega
      · omega
      · exact fun q hq => hvalues q (.part hp hq)
    cases hk : base.kind ty with
    | nominal =>
      rw [substituteWithin_of_closed (.inl (hkind.trans hk)),
        substituteWithin_of_closed (.inl (hkind.trans hk))]
    | poison =>
      rw [substituteWithin_of_closed (.inr (hkind.trans hk)),
        substituteWithin_of_closed (.inr (hkind.trans hk))]
    | placeholder =>
      rw [substituteWithin_of_placeholder (hkind.trans hk),
        substituteWithin_of_placeholder (hkind.trans hk), hvalues ty .self hk]
    | array element =>
      rw [hk] at hpart
      rw [substituteWithin_of_array (hkind.trans hk), substituteWithin_of_array (hkind.trans hk)]
      exact bind_congr_at (hpart element List.mem_cons_self r hx) rfl
    | function params result =>
      rw [hk] at hpart
      rw [substituteWithin_of_function (hkind.trans hk),
        substituteWithin_of_function (hkind.trans hk)]
      apply bind_congr_at (hpart result List.mem_cons_self r hx)
      refine bind_congr_at ?_ rfl
      refine (hx.trans (.substituteWithin values' n result)).mapM_congr
        (fun ty r => .substituteWithin values' n ty) fun p hp => ?_
      exact hpart p (List.mem_cons_of_mem _ hp)

/-! ## Plain names -/

/-- A character of a list of texts with separators is one of a text, if it is no separator. -/
theorem mem_intercalate {c : Char} {separator : List Char} (hc : c ∉ separator)
    {texts : List (List Char)} :
    c ∈ separator.intercalate texts ↔ ∃ text ∈ texts, c ∈ text := by
  induction texts with
  | nil => simp
  | cons text texts ih =>
    cases texts with
    | nil => simp
    | cons next texts =>
      rw [List.intercalate_cons_cons, List.mem_append, List.mem_append, ih,
        List.exists_mem_cons_iff _ text]
      simp only [hc, or_false]

/-- The key of a shape has a point in it if the key of a part has one. -/
theorem point_mem_shapeKey? {kind : TypeKind} {text : String} (h : r.shapeKey? kind = some text) :
    '.' ∈ text.toList ↔ ∃ p ∈ kind.parts, '.' ∈ (r.key p).toList := by
  cases kind with
  | nominal | placeholder | poison => cases h
  | array element =>
    obtain rfl := Option.some.inj h
    simp [TypeKind.parts]
  | function params result =>
    obtain rfl := Option.some.inj h
    have hparams : '.' ∈ [',', ' '].intercalate ((params.map r.key).map String.toList) ↔ _ :=
      mem_intercalate (by decide)
    simp only [toList_functionName, TypeKind.parts, List.mem_cons, List.mem_append, hparams]
    simp [or_comm]

/-- Where the names are plain, a type mentions a placeholder if there is a point in its key. -/
theorem Legible.containsPlaceholder_iff (h : r.Legible) (hty : ty.index < r.size) :
    r.containsPlaceholder ty = true ↔ '.' ∈ (r.key ty).toList := by
  induction ty, hty using h.toCoherent.induct with
  | step ty hty ih =>
    rw [h.toCoherent.containsPlaceholder_iff hty]
    have hparts : (∃ p ∈ (r.kind ty).parts, r.containsPlaceholder p = true) ↔
        ∃ p ∈ (r.kind ty).parts, '.' ∈ (r.key p).toList :=
      exists_congr fun p => and_congr_right fun hp => (ih p hp).2
    rcases h.key_cases hty with hshape | ⟨hshape, -⟩
    · -- The key is put together from those of the parts, without a point.
      rw [hparts, point_mem_shapeKey? hshape]
      refine or_iff_right fun hk => ?_
      rw [hk] at hshape
      cases hshape
    · have hlegible := h.legible hty
      cases hk : r.kind ty with
      | nominal =>
        rw [hk] at hlegible
        refine iff_of_false (by simp [TypeKind.parts]) fun hpoint => ?_
        exact PlainName.plain hlegible '.' hpoint (by decide)
      | poison =>
        rw [hk] at hlegible
        obtain ⟨count, -, htext⟩ := hlegible
        refine iff_of_false (by simp [TypeKind.parts]) fun hpoint => ?_
        rw [htext] at hpoint
        exact absurd (mem_poisonKey hpoint) (by decide)
      | placeholder =>
        rw [hk] at hlegible
        obtain ⟨owner, name, -, -, htext⟩ := hlegible
        exact iff_of_true (.inl rfl) (by simp [htext])
      | array element | function params result =>
        rw [hk] at hshape
        cases hshape

/-- **Where the names are plain, requests for types without placeholders are answered by such
types.** -/
theorem Legible.faithful (h : base.Legible) : base.Faithful := by
  intro r q hr hshape hparts
  have hlegible : r.Legible := h.later hr.later
  have hanswer : (q.answer r).2.Legible :=
    hlegible.later (.single (.request q
      (allowed_of_parts hshape fun p hp => (hparts p hp).registered)))
  obtain ⟨hlt, hkey⟩ := hlegible.answer_key q
  rw [Bool.eq_false_iff, ne_eq, hanswer.containsPlaceholder_iff hlt, hkey]
  -- The key of the request is that of its shape, and the parts' keys have no point in them.
  rcases request_cases q r with hrequest | ⟨owner, name, rfl⟩
  · rw [point_mem_shapeKey? hrequest]
    rintro ⟨p, hp, hpoint⟩
    have hfree := (hparts p hp).free
    rw [(hlegible.containsPlaceholder_iff (hparts p hp).registered).mpr hpoint] at hfree
    cases hfree
  · exact absurd rfl hshape

end ObjectGraph.Registry
