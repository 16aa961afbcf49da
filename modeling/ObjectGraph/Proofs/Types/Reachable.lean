import Mathlib.Logic.Relation
import ObjectGraph.Proofs.Construct
import ObjectGraph.Proofs.Types.Keys

/-!
# The registries that arise

A registry arises from the initial one by declaring and completing classes, by requests for
array types, function types and placeholders, and by new poison types (`Registry.Step`). Whatever
names the program uses, the parts of a structural type come before it, its key is put together
from theirs, and the key leads back to it (`Registry.Coherent`). Where the names are plain, every
key leads back to its type and shows what kind of type it belongs to (`Registry.Legible`).

Every step but completing a class adds at most one definition. So both facts are carried by what
an added definition has to satisfy (`Coherent.insert`, `Legible.insert`).
-/

namespace ObjectGraph

/-- Which names a program may use. -/
structure Naming where
  /-- For its classes. -/
  cls : String → Prop
  /-- For its placeholders, together with their owners. -/
  placeholder : String → String → Prop

/-- Any name may be used. -/
def Naming.free : Naming := ⟨fun _ => True, fun _ _ => True⟩

/-- Names are identifiers, and owners are identifiers with points between them. -/
def Naming.plain : Naming := ⟨PlainName, fun owner name => DottedName owner ∧ PlainName name⟩

/-- A type that the registry makes on demand and finds again. -/
inductive Request where
  /-- The array type of an element type. -/
  | array (element : TypeId)
  /-- A function type. -/
  | function (params : List TypeId) (result : TypeId)
  /-- The placeholder of a name and an owner. -/
  | placeholder (owner name : String)
deriving DecidableEq

/-- The types that a shape is built from. -/
def TypeKind.parts : TypeKind → List TypeId
  | .array element => [element]
  | .function params result => result :: params
  | .nominal | .placeholder | .poison => []

namespace Request

/-- The definition that is looked for, and added if there is none with its key. -/
def definition (r : Registry) : Request → TypeDef
  | .array element => r.arrayDef element
  | .function params result => r.functionDef params result
  | .placeholder owner name =>
    { key := owner ++ "." ++ name, display := name, kind := .placeholder, parent := some .any }

/-- What the registry answers. -/
def answer : Request → Registering TypeId
  | .array element => Registry.arrayOf element
  | .function params result => Registry.functionOf params result
  | .placeholder owner name => Registry.placeholder owner name

/-- The shape that is asked for. -/
def kind : Request → TypeKind
  | .array element => .array element
  | .function params result => .function params result
  | .placeholder _ _ => .placeholder

/-- The request is for registered parts and uses names that are allowed. -/
structure Allowed (names : Naming) (r : Registry) (q : Request) : Prop where
  /-- The parts of the shape are registered. -/
  parts : ∀ p ∈ q.kind.parts, p.index < r.size
  /-- A placeholder is named as is allowed. -/
  names : ∀ owner name, q = .placeholder owner name → names.placeholder owner name

/-- Every request is a look-up by key. -/
theorem answer_eq (q : Request) (r : Registry) :
    q.answer r = Registry.findOrInsert (q.definition r) r := by
  cases q <;> rfl

/-- The definition has the shape that is asked for. -/
theorem kind_definition (q : Request) (r : Registry) : (q.definition r).kind = q.kind := by
  cases q <;> rfl

end Request

namespace Registry

/-- The key of a type. -/
def key (r : Registry) (ty : TypeId) : String := (r.definition ty).key

/-- The key of a structural type, by its shape. -/
def shapeKey? (r : Registry) : TypeKind → Option String
  | .array element => some (r.key element ++ "[]")
  | .function params result => some (functionName (params.map r.key) (r.key result))
  | .nominal | .placeholder | .poison => none

/-! ## Steps -/

/-- What may be done to a registry. -/
inductive Step (names : Naming) (r : Registry) : Registry → Prop
  /-- A class is declared under a free key. -/
  | register {d : TypeDef} {ty : TypeId} {r' : Registry} (nominal : d.kind = .nominal)
      (named : names.cls d.key) (free : r.register d = .ok (ty, r')) : Step names r r'
  /-- A definition is completed, which leaves its key and its shape. -/
  | complete (ty : TypeId) (f : TypeDef → TypeDef) (hkey : ∀ d, (f d).key = d.key)
      (hkind : ∀ d, (f d).kind = d.kind) : Step names r (r.modifyDef ty f)
  /-- A request is answered. -/
  | request (q : Request) (allowed : q.Allowed names r) : Step names r (q.answer r).2
  /-- A poison type is made. -/
  | poison : Step names r (newPoison r).2

/-- What becomes of a registry in some steps. -/
abbrev Later (names : Naming) : Registry → Registry → Prop := Relation.ReflTransGen (Step names)

/-- The registry arises from the built-in types. -/
abbrev Reachable (names : Naming) (r : Registry) : Prop := Later names initial r

/-! ## What a registry keeps to -/

/-- Structural types are built from earlier types, and are found under the keys of their shapes. -/
structure Coherent (r : Registry) : Prop where
  /-- A key that is found leads to a type with that key. -/
  keyed : ∀ {text : String} {ty : TypeId}, r.find? text = some ty →
    ty.index < r.size ∧ r.key ty = text
  /-- The parts of a type are earlier types. -/
  parts : ∀ {ty : TypeId}, ty.index < r.size → ∀ p ∈ (r.kind ty).parts, p.index < ty.index
  /-- The key of a structural type is that of its shape, and leads to the type. -/
  shape : ∀ {ty : TypeId} {text : String}, ty.index < r.size →
    r.shapeKey? (r.kind ty) = some text → r.key ty = text ∧ r.find? text = some ty

/-- A key that says what kind of type it belongs to. -/
def KeyOfKind (poisons : ℕ) (text : String) : TypeKind → Prop
  | .nominal => PlainName text
  | .placeholder =>
    ∃ owner name, DottedName owner ∧ PlainName name ∧ text = owner ++ "." ++ name
  | .poison => ∃ count ≤ poisons, text = poisonKey count
  | .array _ | .function _ _ => True

/-- Every type is found under its key, and its key shows its kind. -/
structure Legible (r : Registry) : Prop extends Coherent r where
  /-- A type's key leads to it. -/
  found : ∀ {ty : TypeId}, ty.index < r.size → r.find? (r.key ty) = some ty
  /-- The key is one that types of its kind have. -/
  legible : ∀ {ty : TypeId}, ty.index < r.size → KeyOfKind r.poisons (r.key ty) (r.kind ty)

variable {names : Naming} {r : Registry}

/-! ## Parts -/

/-- A type with parts is registered. -/
theorem lt_size_of_parts {ty p : TypeId} (hp : p ∈ (r.kind ty).parts) : ty.index < r.size := by
  refine Nat.lt_of_not_le fun hle => ?_
  have hnone : r.defs[ty.index]? = none := Array.getElem?_eq_none hle
  rw [kind, definition, Array.getD_eq_getD_getElem?, hnone] at hp
  exact absurd hp (List.not_mem_nil)

/-- The element of an array type is a part of it. -/
theorem mem_parts_of_array {ty element : TypeId} (hk : r.kind ty = .array element) :
    element ∈ (r.kind ty).parts := by
  rw [hk]
  exact List.mem_cons_self

/-- The result and the parameters of a function type are parts of it. -/
theorem mem_parts_of_function {ty result : TypeId} {params : List TypeId}
    (hk : r.kind ty = .function params result) : ∀ p ∈ result :: params, p ∈ (r.kind ty).parts := by
  rw [hk]
  exact fun p hp => hp

/-- The parts of a registered type are registered. -/
theorem Coherent.parts_registered (h : r.Coherent) {ty p : TypeId} (hp : p ∈ (r.kind ty).parts) :
    p.index < r.size :=
  Nat.lt_trans (h.parts (lt_size_of_parts hp) p hp) (lt_size_of_parts hp)

/-! ## Adding a definition -/

/-- The size of a registry with one more definition. -/
theorem size_insert (d : TypeDef) : (insert d r).2.size = r.size + 1 := Array.size_push _

/-- The definitions of a registry with one more. -/
theorem definition_insert (d : TypeDef) (ty : TypeId) :
    (insert d r).2.definition ty = if ty.index = r.size then d else r.definition ty :=
  getD_push ..

/-- The keys of a registry with one more definition. -/
theorem find?_insert (d : TypeDef) (text : String) :
    (insert d r).2.find? text = if text = d.key then some ⟨r.size⟩ else r.find? text := by
  simp only [find?, insert, List.lookup_cons]
  split <;> rename_i h <;> simp_all

/-- The key of a shape is made from the keys of its parts. -/
theorem shapeKey?_congr {r' : Registry} {kind : TypeKind}
    (h : ∀ p ∈ kind.parts, r'.key p = r.key p) : r'.shapeKey? kind = r.shapeKey? kind := by
  cases kind with
  | nominal | placeholder | poison => rfl
  | array element => simp only [shapeKey?, h element List.mem_cons_self]
  | function params result =>
    have hparams : params.map r'.key = params.map r.key :=
      List.map_congr_left fun p hp => h p (List.mem_cons_of_mem _ hp)
    simp only [shapeKey?, h result List.mem_cons_self, hparams]

/-- An extension has the keys that were there. -/
theorem Extends.key {r' : Registry} (hx : r.Extends r') {ty : TypeId} (hty : ty.index < r.size) :
    r'.key ty = r.key ty := congrArg TypeDef.key (hx.definition hty)

/-- An extension has the kinds that were there. -/
theorem Extends.kind {r' : Registry} (hx : r.Extends r') {ty : TypeId} (hty : ty.index < r.size) :
    r'.kind ty = r.kind ty := congrArg TypeDef.kind (hx.definition hty)

/-- An extension has the keys of shapes of registered parts. -/
theorem Extends.shapeKey? {r' : Registry} (hx : r.Extends r') {kind : TypeKind}
    (h : ∀ p ∈ kind.parts, p.index < r.size) : r'.shapeKey? kind = r.shapeKey? kind :=
  shapeKey?_congr fun p hp => hx.key (h p hp)

/-- The last definition of a registry with one more. -/
theorem definition_insert_self (d : TypeDef) : (insert d r).2.definition ⟨r.size⟩ = d := by
  rw [definition_insert, if_pos rfl]

/-- A type of a registry with one more definition was there, or is the added one. -/
theorem lt_or_eq_of_lt_insert {d : TypeDef} {ty : TypeId}
    (hty : ty.index < (insert d r).2.size) : ty.index < r.size ∨ ty = ⟨r.size⟩ := by
  rw [size_insert] at hty
  rcases Nat.lt_succ_iff_lt_or_eq.mp hty with hlt | heq
  · exact .inl hlt
  · exact .inr (congrArg TypeId.mk heq)

/-- With one more definition a key that is found still leads to a type with that key. -/
theorem keyed_insert (h : ∀ {text : String} {ty : TypeId}, r.find? text = some ty →
    ty.index < r.size ∧ r.key ty = text) {d : TypeDef} {text : String} {ty : TypeId}
    (hfind : (insert d r).2.find? text = some ty) :
    ty.index < (insert d r).2.size ∧ (insert d r).2.key ty = text := by
  have hx : r.Extends (insert d r).2 := .insert d
  rw [find?_insert] at hfind
  split at hfind
  · rename_i heq
    obtain rfl := Option.some.inj hfind
    exact ⟨by rw [size_insert]; exact Nat.lt_succ_self _,
      (congrArg TypeDef.key (definition_insert_self d)).trans heq.symm⟩
  · obtain ⟨hlt, hkey⟩ := h hfind
    exact ⟨Nat.lt_of_lt_of_le hlt hx.size, (hx.key hlt).trans hkey⟩

/-- A definition may be added if its parts are registered, its key is that of its shape, and its
key is not that of a structural type. -/
theorem Coherent.insert (h : r.Coherent) {d : TypeDef}
    (hparts : ∀ p ∈ d.kind.parts, p.index < r.size)
    (hshape : ∀ text, r.shapeKey? d.kind = some text → d.key = text)
    (hnew : ∀ ty : TypeId, ty.index < r.size → r.shapeKey? (r.kind ty) ≠ some d.key) :
    (Registry.insert d r).2.Coherent := by
  have hx : r.Extends (Registry.insert d r).2 := .insert d
  have hlast := definition_insert_self (r := r) d
  refine ⟨keyed_insert h.keyed, fun {ty} hty p hp => ?_, fun {ty text} hty htext => ?_⟩
  · rcases lt_or_eq_of_lt_insert hty with hlt | rfl
    · exact h.parts hlt p (by rwa [hx.kind hlt] at hp)
    · rw [Registry.kind, hlast] at hp
      exact hparts p hp
  · rcases lt_or_eq_of_lt_insert hty with hlt | rfl
    · have hbefore : ∀ p ∈ (r.kind ty).parts, p.index < r.size :=
        fun p hp => Nat.lt_trans (h.parts hlt p hp) hlt
      rw [hx.kind hlt, hx.shapeKey? hbefore] at htext
      obtain ⟨hkey, hfind⟩ := h.shape hlt htext
      refine ⟨(hx.key hlt).trans hkey, ?_⟩
      have hne : text ≠ d.key := by
        rintro rfl
        exact hnew ty hlt htext
      rw [find?_insert, if_neg hne, hfind]
    · rw [Registry.kind, hlast, hx.shapeKey? hparts] at htext
      obtain rfl := hshape text htext
      exact ⟨congrArg TypeDef.key hlast, by rw [find?_insert, if_pos rfl]⟩

/-- A definition may be added under a free key. -/
theorem Coherent.insert_of_free (h : r.Coherent) {d : TypeDef}
    (hparts : ∀ p ∈ d.kind.parts, p.index < r.size)
    (hshape : ∀ text, r.shapeKey? d.kind = some text → d.key = text)
    (hfree : r.find? d.key = none) : (Registry.insert d r).2.Coherent := by
  refine h.insert hparts hshape fun ty hty heq => ?_
  rw [(h.shape hty heq).2] at hfree
  cases hfree

/-- Every type is found under its key. -/
def Indexed (r : Registry) : Prop :=
  ∀ ty : TypeId, ty.index < r.size → r.find? (r.key ty) = some ty

/-- A definition that is added under a free key is found, and hides no other. -/
theorem Indexed.insert (h : r.Indexed) {d : TypeDef} (hfree : r.find? d.key = none) :
    (Registry.insert d r).2.Indexed := by
  intro ty hty
  rcases lt_or_eq_of_lt_insert hty with hlt | rfl
  · have hfind := h ty hlt
    have hne : r.key ty ≠ d.key := by
      intro heq
      rw [heq, hfree] at hfind
      cases hfind
    rw [(Extends.insert d).key hlt, find?_insert, if_neg hne, hfind]
  · rw [key, definition_insert_self, find?_insert, if_pos rfl]

/-- A definition whose key shows its kind may be added under a free key. -/
theorem Legible.insert (h : r.Legible) {d : TypeDef}
    (hparts : ∀ p ∈ d.kind.parts, p.index < r.size)
    (hshape : ∀ text, r.shapeKey? d.kind = some text → d.key = text)
    (hkey : KeyOfKind r.poisons d.key d.kind) (hfree : r.find? d.key = none) :
    (Registry.insert d r).2.Legible := by
  have hx : r.Extends (Registry.insert d r).2 := .insert d
  have hlast := definition_insert_self (r := r) d
  have hfound : (Registry.insert d r).2.Indexed := Indexed.insert (fun _ => h.found) hfree
  refine ⟨h.toCoherent.insert_of_free hparts hshape hfree, hfound _, fun {ty} hty => ?_⟩
  rcases lt_or_eq_of_lt_insert hty with hlt | rfl
  · rw [hx.key hlt, hx.kind hlt]
    exact h.legible hlt
  · rw [key, Registry.kind, hlast]
    exact hkey

/-! ## The steps keep to it -/

/-- The key of a request is that of its shape. -/
theorem key_definition {q : Request} {text : String} (h : r.shapeKey? q.kind = some text) :
    (q.definition r).key = text := by
  cases q with
  | array element => exact Option.some.inj h
  | function params result => exact Option.some.inj h
  | placeholder owner name => cases h

/-- Keys of structural types begin with a parenthesis or end with a bracket, keys of poison types
do neither. -/
theorem shapeKey?_ne_poisonKey (kind : TypeKind) (count : ℕ) :
    r.shapeKey? kind ≠ some (poisonKey count) := by
  intro h
  cases kind with
  | nominal | placeholder | poison => cases h
  | array element =>
    have htexts := congrArg String.toList (Option.some.inj h)
    rw [toList_brackets, toList_poisonKey, ← List.append_assoc] at htexts
    have hend := congrArg List.getLast? htexts
    rw [List.getLast?_append, List.getLast?_append] at hend
    have hchars : ']' = '>' := Option.some.inj hend
    exact absurd hchars (by decide)
  | function params result =>
    have htexts := congrArg String.toList (Option.some.inj h)
    rw [toList_functionName, toList_poisonKey] at htexts
    exact absurd (List.head_eq_of_cons_eq htexts) (by decide)

/-- A new poison type is added to a registry that counts it. -/
theorem newPoison_apply (r : Registry) :
    newPoison r = insert
      { key := poisonKey (r.poisons + 1), display := "<error>", kind := .poison, parent := none }
      { r with poisons := r.poisons + 1 } := rfl

/-- Completing a definition changes no key. -/
theorem key_modifyDef {f : TypeDef → TypeDef} (hf : ∀ d, (f d).key = d.key) (ty ty' : TypeId) :
    (r.modifyDef ty f).key ty' = r.key ty' := by
  simp only [key, modifyDef, definition, getD_modify]
  split
  · exact hf _
  · rfl

/-- Completing a definition changes no kind. -/
theorem kind_modifyDef {f : TypeDef → TypeDef} (hf : ∀ d, (f d).kind = d.kind)
    (ty ty' : TypeId) : (r.modifyDef ty f).kind ty' = r.kind ty' := by
  simp only [Registry.kind, modifyDef, definition, getD_modify]
  split
  · exact hf _
  · rfl

/-- Completing a definition adds none. -/
theorem size_modifyDef (f : TypeDef → TypeDef) (ty : TypeId) :
    (r.modifyDef ty f).size = r.size := Array.size_modify

/-- A class that can be registered has a free key. -/
theorem register_eq_ok {d : TypeDef} {ty : TypeId} {r' : Registry}
    (h : r.register d = .ok (ty, r')) : r.find? d.key = none ∧ r' = (insert d r).2 := by
  unfold register at h
  cases hfind : r.find? d.key with
  | some _ =>
    rw [hfind] at h
    cases h
  | none =>
    rw [hfind] at h
    exact ⟨rfl, congrArg Prod.snd (Except.ok.inj h).symm⟩

/-- Every step leaves a coherent registry coherent. -/
theorem Coherent.step {r' : Registry} (h : r.Coherent) (hs : Step names r r') : r'.Coherent := by
  cases hs with
  | register nominal named free =>
    obtain ⟨hfree, rfl⟩ := register_eq_ok free
    exact h.insert_of_free (by simp [nominal, TypeKind.parts])
      (by simp [nominal, shapeKey?]) hfree
  | complete ty f hkey hkind =>
    -- Completing a class changes no key, and a shape's key depends on nothing else.
    have hshape : ∀ kind, (r.modifyDef ty f).shapeKey? kind = r.shapeKey? kind :=
      fun kind => shapeKey?_congr fun p _ => key_modifyDef hkey ty p
    refine ⟨fun hfind => ?_, fun hlt p hp => ?_, fun hlt htext => ?_⟩
    · rw [size_modifyDef, key_modifyDef hkey]
      exact h.keyed hfind
    · rw [size_modifyDef] at hlt
      rw [kind_modifyDef hkind] at hp
      exact h.parts hlt p hp
    · rw [size_modifyDef] at hlt
      rw [kind_modifyDef hkind, hshape] at htext
      rw [key_modifyDef hkey]
      exact h.shape hlt htext
  | request q allowed =>
    rw [q.answer_eq, findOrInsert]
    cases hfind : r.find? (q.definition r).key with
    | some ty => exact h
    | none =>
      refine h.insert_of_free ?_ ?_ hfind
      · rw [q.kind_definition]
        exact allowed.parts
      · rw [q.kind_definition]
        exact fun text => key_definition
  | poison =>
    rw [newPoison_apply]
    -- The count of poison types is no part of what coherence says.
    have hcounted : ({ r with poisons := r.poisons + 1 } : Registry).Coherent :=
      ⟨h.keyed, h.parts, h.shape⟩
    exact hcounted.insert (by simp [TypeKind.parts]) (by simp [shapeKey?])
      fun ty _ => shapeKey?_ne_poisonKey _ _

/-- In a legible registry the next poison type's key is free. -/
theorem Legible.find?_poisonKey (h : r.Legible) : r.find? (poisonKey (r.poisons + 1)) = none := by
  cases hfind : r.find? (poisonKey (r.poisons + 1)) with
  | none => rfl
  | some ty =>
    obtain ⟨hty, hkey⟩ := h.keyed hfind
    have hlegible := h.legible hty
    have hshape : ∀ text, r.shapeKey? (r.kind ty) = some text → text = poisonKey (r.poisons + 1) :=
      fun text htext => (h.shape hty htext).1.symm.trans hkey
    rw [hkey] at hlegible
    -- No other kind of type has such a key, and the number is new.
    cases hkind : r.kind ty with
    | nominal =>
      rw [hkind] at hlegible
      exact absurd (PlainName.dotted hlegible) (not_dottedName_poisonKey _)
    | placeholder =>
      rw [hkind] at hlegible
      obtain ⟨owner, name, ho, hn, htext⟩ := hlegible
      exact absurd (htext ▸ dottedName_placeholder ho hn) (not_dottedName_poisonKey _)
    | poison =>
      rw [hkind] at hlegible
      obtain ⟨count, hcount, htext⟩ := hlegible
      have := poisonKey_injective htext
      omega
    | array element =>
      exact absurd (congrArg some (hshape _ (by rw [hkind]; rfl)))
        (shapeKey?_ne_poisonKey (r := r) (.array element) _)
    | function params result =>
      exact absurd (congrArg some (hshape _ (by rw [hkind]; rfl)))
        (shapeKey?_ne_poisonKey (r := r) (.function params result) _)

/-- What a key shows is not changed by more poison types. -/
theorem KeyOfKind.mono {m n : ℕ} {text : String} {kind : TypeKind} (h : KeyOfKind m text kind)
    (hmn : m ≤ n) : KeyOfKind n text kind := by
  cases kind with
  | nominal | placeholder => exact h
  | array element => trivial
  | function params result => trivial
  | poison =>
    obtain ⟨count, hcount, htext⟩ := h
    exact ⟨count, Nat.le_trans hcount hmn, htext⟩

/-- The key of a request that uses plain names shows the kind of type that is asked for. -/
theorem keyOfKind_definition {q : Request} (allowed : q.Allowed .plain r) (poisons : ℕ) :
    KeyOfKind poisons (q.definition r).key q.kind := by
  cases q with
  | array element => trivial
  | function params result => trivial
  | placeholder owner name =>
    obtain ⟨ho, hn⟩ := allowed.names owner name rfl
    exact ⟨owner, name, ho, hn, rfl⟩

/-- Every step with plain names leaves a legible registry legible. -/
theorem Legible.step {r' : Registry} (h : r.Legible) (hs : Step .plain r r') : r'.Legible := by
  cases hs with
  | register nominal named free =>
    obtain ⟨hfree, rfl⟩ := register_eq_ok free
    refine h.insert (by simp [nominal, TypeKind.parts]) (by simp [nominal, shapeKey?]) ?_ hfree
    rw [nominal]
    exact named
  | complete ty f hkey hkind =>
    have hstep : Step .plain r (r.modifyDef ty f) := .complete ty f hkey hkind
    refine ⟨h.toCoherent.step hstep, fun hlt => ?_, fun hlt => ?_⟩
    · rw [size_modifyDef] at hlt
      rw [key_modifyDef hkey]
      exact h.found hlt
    · rw [size_modifyDef] at hlt
      rw [key_modifyDef hkey, kind_modifyDef hkind]
      exact h.legible hlt
  | request q allowed =>
    rw [q.answer_eq, findOrInsert]
    cases hfind : r.find? (q.definition r).key with
    | some ty => exact h
    | none =>
      refine h.insert ?_ ?_ ?_ hfind
      · rw [q.kind_definition]
        exact allowed.parts
      · rw [q.kind_definition]
        exact fun text => key_definition
      · rw [q.kind_definition]
        exact keyOfKind_definition allowed r.poisons
  | poison =>
    rw [newPoison_apply]
    -- With a higher count more keys are those of poison types.
    have hcounted : ({ r with poisons := r.poisons + 1 } : Registry).Legible :=
      ⟨⟨h.keyed, h.parts, h.shape⟩, h.found, fun hty => (h.legible hty).mono (Nat.le_succ _)⟩
    exact hcounted.insert (by simp [TypeKind.parts]) (by simp [shapeKey?])
      ⟨r.poisons + 1, Nat.le_refl _, rfl⟩ h.find?_poisonKey

/-! ## The built-in types -/

/-- The initial registry is legible. -/
theorem legible_initial : initial.Legible := by
  have hempty : empty.Legible :=
    ⟨⟨fun h => (nomatch h), fun h => (nomatch h), fun h => (nomatch h)⟩, fun h => (nomatch h),
      fun h => (nomatch h)⟩
  have hplain : ∀ {r : Registry} {d : TypeDef}, r.Legible → d.kind = .nominal → PlainName d.key →
      r.find? d.key = none → (insert d r).2.Legible := by
    intro r d h hkind hname hfree
    refine h.insert (by simp [hkind, TypeKind.parts]) (by simp [hkind, shapeKey?]) ?_ hfree
    rw [hkind]
    exact hname
  have hany := hplain (d := Builtin.defs[0]) hempty rfl ⟨by decide, forall_not_mem_of_all (by decide)⟩ rfl
  have hint := hplain (d := Builtin.defs[1]) hany rfl ⟨by decide, forall_not_mem_of_all (by decide)⟩ rfl
  have hfloat := hplain (d := Builtin.defs[2]) hint rfl ⟨by decide, forall_not_mem_of_all (by decide)⟩ rfl
  have hstring := hplain (d := Builtin.defs[3]) hfloat rfl ⟨by decide, forall_not_mem_of_all (by decide)⟩ rfl
  have hbool := hplain (d := Builtin.defs[4]) hstring rfl ⟨by decide, forall_not_mem_of_all (by decide)⟩ rfl
  have htype := hplain (d := Builtin.defs[5]) hbool rfl ⟨by decide, forall_not_mem_of_all (by decide)⟩ rfl
  exact htype.insert (d := Builtin.defs[6]) (by decide) (by decide) trivial rfl

/-! ## Runs -/

/-- The types of `r` are types of `r'`, with the same keys and kinds. -/
structure Retains (r r' : Registry) : Prop where
  /-- No type is dropped. -/
  size : r.size ≤ r'.size
  /-- Keys stay. -/
  key : ∀ {ty : TypeId}, ty.index < r.size → r'.key ty = r.key ty
  /-- Kinds stay. -/
  kind : ∀ {ty : TypeId}, ty.index < r.size → r'.kind ty = r.kind ty

/-- An extension retains what was there. -/
theorem Extends.retains {r' : Registry} (hx : r.Extends r') : r.Retains r' :=
  ⟨hx.size, hx.key, hx.kind⟩

/-- What is retained twice is retained. -/
theorem Retains.trans {r' r'' : Registry} (a : r.Retains r') (b : r'.Retains r'') :
    r.Retains r'' where
  size := Nat.le_trans a.size b.size
  key hty := (b.key (Nat.lt_of_lt_of_le hty a.size)).trans (a.key hty)
  kind hty := (b.kind (Nat.lt_of_lt_of_le hty a.size)).trans (a.kind hty)

/-- Making a poison type extends a registry. -/
theorem Extends.newPoison : r.Extends (Registry.newPoison r).2 where
  size := (Extends.insert (r := { r with poisons := r.poisons + 1 }) _).size
  definition := (Extends.insert (r := { r with poisons := r.poisons + 1 }) _).definition

/-- Every step retains the types that were there. -/
theorem Step.retains {r' : Registry} (hs : Step names r r') : r.Retains r' := by
  cases hs with
  | register _ _ free =>
    obtain ⟨-, rfl⟩ := register_eq_ok free
    exact (Extends.insert _).retains
  | complete ty f hkey hkind =>
    exact ⟨Nat.le_of_eq (size_modifyDef f ty).symm, fun _ => key_modifyDef hkey ty _,
      fun _ => kind_modifyDef hkind ty _⟩
  | request q _ =>
    rw [q.answer_eq]
    exact (Extends.findOrInsert _).retains
  | poison => exact Extends.newPoison.retains

/-- Later registries retain the types that were there. -/
theorem Later.retains {r' : Registry} (h : Later names r r') : r.Retains r' := by
  induction h with
  | refl => exact Extends.refl.retains
  | tail _ hs ih => exact ih.trans hs.retains

/-- What is later than a coherent registry is coherent. -/
theorem Coherent.later {r' : Registry} (h : r.Coherent) (hl : Later names r r') : r'.Coherent := by
  induction hl with
  | refl => exact h
  | tail _ hs ih => exact ih.step hs

/-- What is later than a legible registry is legible, if the names are plain. -/
theorem Legible.later {r' : Registry} (h : r.Legible) (hl : Later .plain r r') : r'.Legible := by
  induction hl with
  | refl => exact h
  | tail _ hs ih => exact ih.step hs

/-- Every registry that arises is coherent, whatever names are used. -/
theorem Reachable.coherent (h : Reachable names r) : r.Coherent :=
  legible_initial.toCoherent.later h

/-- Every registry that arises with plain names is legible. -/
theorem Reachable.legible (h : Reachable .plain r) : r.Legible := legible_initial.later h

end Registry

end ObjectGraph
