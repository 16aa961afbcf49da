import ObjectGraph.Proofs.Types.Requests

/-!
# Replacing placeholders

A type is rebuilt from the inside out, and each array type and function type on the way is asked
for. What is to be known of the types on the way, and of the registries, differs from use to use:
that they are registered, or that nothing in them is left to replace. `Rebuilds` says what such
knowledge has to provide, and `Rebuilds.substituteWithin` is the one induction on the depth of
shapes. So replacing is asking for types and nothing else (`Formed.substitute`).
-/

namespace ObjectGraph.Registry

variable {names : Naming} {r r' : Registry} {values : TypeId → Option TypeId} {ty : TypeId}

/-! ## What a step of a substitution does -/

section Steps

variable {fuel : ℕ}

/-- Names and poison are left alone. -/
theorem substituteWithin_of_closed (hk : r.kind ty = .nominal ∨ r.kind ty = .poison) :
    substituteWithin values (fuel + 1) ty r = (ty, r) := by
  rw [Registry.substituteWithin, get_bind_apply]
  rcases hk with hk | hk <;> rw [hk] <;> rfl

/-- Placeholders are replaced. -/
theorem substituteWithin_of_placeholder (hk : r.kind ty = .placeholder) :
    substituteWithin values (fuel + 1) ty r = ((values ty).getD ty, r) := by
  rw [Registry.substituteWithin, get_bind_apply, hk]
  rfl

/-- An array type is rebuilt around its element. -/
theorem substituteWithin_of_array {element : TypeId} (hk : r.kind ty = .array element) :
    substituteWithin values (fuel + 1) ty r =
      (substituteWithin values fuel element >>= arrayOf) r := by
  rw [Registry.substituteWithin, get_bind_apply, hk]

/-- A function type is rebuilt around its result and its parameters. -/
theorem substituteWithin_of_function {params : List TypeId} {result : TypeId}
    (hk : r.kind ty = .function params result) :
    substituteWithin values (fuel + 1) ty r =
      (substituteWithin values fuel result >>= fun result =>
        params.mapM (substituteWithin values fuel) >>= fun params =>
          functionOf params result) r := by
  rw [Registry.substituteWithin, get_bind_apply, hk]

end Steps

/-! ## What is known on the way -/

/-- What may be known of types while placeholders are replaced by `values`, before and after, and
of the registries, each of which `R` leads to from those before it. Depths are counted down. -/
structure Rebuilds (values : TypeId → Option TypeId) (R : Registry → Registry → Prop)
    (before : ℕ → Registry → TypeId → Prop) (after : Registry → TypeId → Prop) : Prop where
  /-- Nothing may be done. -/
  refl : ∀ r, R r r
  /-- One step may follow another. -/
  trans : ∀ {r r' r''}, R r r' → R r' r'' → R r r''
  /-- What holds before a type is rebuilt still holds later. -/
  before_mono : ∀ {depth r r' ty}, R r r' → before depth r ty → before depth r' ty
  /-- What holds of a rebuilt type still holds later. -/
  after_mono : ∀ {r r' ty}, R r r' → after r ty → after r' ty
  /-- It holds of the parts of a type, one level below. -/
  part : ∀ {depth r ty p}, before (depth + 1) r ty → p ∈ (r.kind ty).parts → before depth r p
  /-- A type below all levels is as it shall be. -/
  bottom : ∀ {r ty}, before 0 r ty → after r ty
  /-- So is one without parts, unless it is a placeholder. -/
  leaf : ∀ {depth r ty}, before (depth + 1) r ty →
    r.kind ty = .nominal ∨ r.kind ty = .poison → after r ty
  /-- So is what a placeholder is replaced by. -/
  placeholder : ∀ {depth r ty}, before (depth + 1) r ty → r.kind ty = .placeholder →
    after r ((values ty).getD ty)
  /-- So is the answer to a request for such parts. -/
  request : ∀ {q : Request} {r}, q.kind.parts ≠ [] → (∀ p ∈ q.kind.parts, after r p) →
    R r (q.answer r).2 ∧ after (q.answer r).2 (q.answer r).1

namespace Rebuilds

variable {R : Registry → Registry → Prop} {before : ℕ → Registry → TypeId → Prop}
variable {after : Registry → TypeId → Prop} (h : Rebuilds values R before after)

include h

/-- Types of a list may be rebuilt one after the other. -/
theorem mapM {step : TypeId → Registering TypeId} {types : List TypeId}
    (hstep : ∀ ty ∈ types, ∀ r', R r r' →
      R r' (step ty r').2 ∧ after (step ty r').2 (step ty r').1) :
    R r (types.mapM step r).2 ∧
      ∀ ty ∈ (types.mapM step r).1, after (types.mapM step r).2 ty := by
  induction types generalizing r with
  | nil => exact ⟨h.refl r, fun ty hty => by cases hty⟩
  | cons ty types ih =>
    obtain ⟨hfirst, hafter⟩ := hstep ty List.mem_cons_self r (h.refl r)
    obtain ⟨hrest, hall⟩ := ih fun t ht r' hr' =>
      hstep t (List.mem_cons_of_mem _ ht) r' (h.trans hfirst hr')
    rw [List.mapM_cons]
    refine ⟨h.trans hfirst hrest, fun t ht => ?_⟩
    rcases List.mem_cons.mp ht with rfl | ht
    · exact h.after_mono hrest hafter
    · exact hall t ht

/-- What is known before holds of the registries on the way and of the type at the end. -/
theorem substituteWithin {depth : ℕ} (hty : before depth r ty) :
    R r (Registry.substituteWithin values depth ty r).2 ∧
      after (Registry.substituteWithin values depth ty r).2
        (Registry.substituteWithin values depth ty r).1 := by
  induction depth generalizing ty r with
  | zero => exact ⟨h.refl r, h.bottom hty⟩
  | succ depth ih =>
    have hpart : ∀ p ∈ (r.kind ty).parts, ∀ r', R r r' → before depth r' p :=
      fun p hp r' hr' => h.before_mono hr' (h.part hty hp)
    cases hk : r.kind ty with
    | nominal =>
      rw [substituteWithin_of_closed (.inl hk)]
      exact ⟨h.refl r, h.leaf hty (.inl hk)⟩
    | poison =>
      rw [substituteWithin_of_closed (.inr hk)]
      exact ⟨h.refl r, h.leaf hty (.inr hk)⟩
    | placeholder =>
      rw [substituteWithin_of_placeholder hk]
      exact ⟨h.refl r, h.placeholder hty hk⟩
    | array element =>
      rw [hk] at hpart
      rw [substituteWithin_of_array hk]
      obtain ⟨hinner, helement⟩ := ih (hpart element List.mem_cons_self r (h.refl r))
      have hanswer := h.request (q := .array _) (List.cons_ne_nil _ _) fun p hp => by
        rw [List.mem_singleton.mp hp]
        exact helement
      exact ⟨h.trans hinner hanswer.1, hanswer.2⟩
    | function params result =>
      rw [hk] at hpart
      rw [substituteWithin_of_function hk]
      obtain ⟨hfirst, hresult⟩ := ih (hpart result List.mem_cons_self r (h.refl r))
      obtain ⟨hrest, hparams⟩ := h.mapM fun p hp r' hr' =>
        ih (hpart p (List.mem_cons_of_mem _ hp) r' (h.trans hfirst hr'))
      -- The result is rebuilt first, and the request is made when the parameters are there too.
      have hanswer := h.request (q := .function _ _) (List.cons_ne_nil _ _)
        (List.forall_mem_cons.mpr ⟨h.after_mono hrest hresult, hparams⟩)
      exact ⟨h.trans (h.trans hfirst hrest) hanswer.1, hanswer.2⟩

end Rebuilds

/-! ## Requests for shapes -/

/-- A request for parts is not one for a placeholder, and may be made if they are registered. -/
theorem allowed_of_parts {q : Request} (hshape : q.kind.parts ≠ [])
    (hparts : ∀ p ∈ q.kind.parts, p.index < r.size) : q.Allowed names r where
  parts := hparts
  names owner name heq := by
    subst heq
    exact absurd rfl hshape

/-- An array type or a function type is asked for, of registered types. -/
inductive Forms (r : Registry) : Registry → Prop
  | request (q : Request) (shape : q.kind.parts ≠ [])
    (parts : ∀ p ∈ q.kind.parts, p.index < r.size) : Forms r (q.answer r).2

/-- What becomes of a registry as evaluation asks for types. -/
abbrev Formed : Registry → Registry → Prop := Relation.ReflTransGen Forms

/-- Asking for types is a step of a registry, whatever names may be used. -/
theorem Formed.later (h : r.Formed r') : Later names r r' :=
  Relation.ReflTransGen.mono (fun _ _ hf => by
    obtain ⟨q, hshape, hparts⟩ := hf
    exact .request q (allowed_of_parts hshape hparts)) _ _ h

/-- Asking for types drops none. -/
theorem Formed.size_le (h : r.Formed r') : r.size ≤ r'.size :=
  (h.later : Later .free r r').retains.size

/-- Types fit together after such requests. -/
theorem Coherent.formed (h : r.Coherent) (hr : r.Formed r') : r'.Coherent :=
  h.later (hr.later : Later .free r r')

/-! ## Registered types -/

/-- Types stay registered while placeholders are replaced by registered types. -/
theorem rebuilds_registered (values : TypeId → Option TypeId) :
    Rebuilds values Formed
      (fun _ r ty => (r.Coherent ∧ ∀ p v, values p = some v → v.index < r.size) ∧ ty.index < r.size)
      fun r ty => r.Coherent ∧ ty.index < r.size where
  refl _ := .refl
  trans := Relation.ReflTransGen.trans
  before_mono hl h := ⟨⟨h.1.1.formed hl, fun p v hv =>
    Nat.lt_of_lt_of_le (h.1.2 p v hv) hl.size_le⟩, Nat.lt_of_lt_of_le h.2 hl.size_le⟩
  after_mono hl h := ⟨h.1.formed hl, Nat.lt_of_lt_of_le h.2 hl.size_le⟩
  part h hp := ⟨h.1, h.1.1.parts_registered hp⟩
  bottom h := ⟨h.1.1, h.2⟩
  leaf h _ := ⟨h.1.1, h.2⟩
  placeholder {_ _ ty} h _ := ⟨h.1.1, by
    cases hvalue : values ty with
    | none => exact h.2
    | some v => exact h.1.2 ty v hvalue⟩
  request {q r} hshape h := by
    obtain ⟨p, hp⟩ := List.exists_mem_of_ne_nil _ hshape
    have hform : r.Formed (q.answer r).2 := .single (.request q hshape fun p hp => (h p hp).2)
    exact ⟨hform, (h p hp).1.formed hform, ((h p hp).1.answer_key q).1⟩

/-- Substituting registered types asks for types, and gives a registered one. -/
theorem Formed.substitute (h : r.Coherent) (hvalues : ∀ p v, values p = some v → v.index < r.size)
    (hty : ty.index < r.size) :
    r.Formed (Registry.substitute values ty r).2 ∧
      (Registry.substitute values ty r).1.index < (Registry.substitute values ty r).2.size := by
  obtain ⟨hformed, hafter⟩ := (rebuilds_registered values).substituteWithin ⟨⟨h, hvalues⟩, hty⟩
  exact ⟨hformed, hafter.2⟩

/-- Substituting registered types gives a registered type of a later registry. -/
theorem Later.substitute (h : r.Coherent) (hvalues : ∀ p v, values p = some v → v.index < r.size)
    (hty : ty.index < r.size) :
    Later names r (Registry.substitute values ty r).2 ∧
      (Registry.substitute values ty r).1.index < (Registry.substitute values ty r).2.size := by
  obtain ⟨hformed, hlt⟩ := Formed.substitute h hvalues hty
  exact ⟨hformed.later, hlt⟩

/-- Substituting extends a registry. -/
theorem Extends.substitute (values : TypeId → Option TypeId) (ty : TypeId) :
    r.Extends (Registry.substitute values ty r).2 :=
  .substituteWithin values r.size ty

end ObjectGraph.Registry
