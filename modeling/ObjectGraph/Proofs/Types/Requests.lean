import ObjectGraph.Proofs.Types.Reachable

/-!
# What a request identifies

The registry finds array types, function types and placeholders by a text. The question is
whether the text says as much as the shape, so that a request is answered by a type of the very
shape, and two requests by one type only if they are the same.

A text says everything about a shape but one thing. Brackets at its end may belong to the whole or
to the result of a function, as in `(int) => int[]`. So the answer to a request for an array of
functions may be a function type whose result is an array, and the other way round, whichever of
the two was made first (`Registry.Rivals`). Apart from such pairs requests are told apart at any
depth (`answer_identifies`).
-/

namespace ObjectGraph.Registry

/-- The text of the type begins with parameters: it is a function type, or an array of such
types. -/
inductive OverFunction (r : Registry) : TypeId → Prop
  | function {ty result : TypeId} {params : List TypeId}
      (kind : r.kind ty = .function params result) : OverFunction r ty
  | array {ty element : TypeId} (kind : r.kind ty = .array element)
      (inner : OverFunction r element) : OverFunction r ty

/-- The text of the type ends with brackets: it is an array type, or a function type whose result
is one. -/
inductive EndsInArray (r : Registry) : TypeId → Prop
  | array {ty element : TypeId} (kind : r.kind ty = .array element) : EndsInArray r ty
  | function {ty result : TypeId} {params : List TypeId}
      (kind : r.kind ty = .function params result) (inner : EndsInArray r result) :
      EndsInArray r ty

/-- Two shapes that may have the same text: an array of functions, and a function to arrays. -/
def Rivals (r : Registry) : TypeKind → TypeKind → Prop
  | .array element, .function _ result => r.OverFunction element ∧ r.EndsInArray result
  | .function _ result, .array element => r.OverFunction element ∧ r.EndsInArray result
  | _, _ => False

variable {r : Registry}

/-! ## Reading keys -/

/-- What holds of a type whenever it holds of its parts holds of all types. -/
theorem Coherent.induct (h : r.Coherent) {motive : (ty : TypeId) → ty.index < r.size → Prop}
    (step : ∀ (ty : TypeId) (hty : ty.index < r.size),
      (∀ p ∈ (r.kind ty).parts, ∃ hp : p.index < r.size, motive p hp) → motive ty hty)
    (ty : TypeId) (hty : ty.index < r.size) : motive ty hty := by
  obtain ⟨i⟩ := ty
  induction i using Nat.strongRecOn with
  | ind i ih =>
    refine step ⟨i⟩ hty fun p hp => ?_
    have hlt : p.index < i := h.parts hty p hp
    exact ⟨Nat.lt_trans hlt hty, ih p.index hlt _⟩

/-- The key of a type that is not structural is a word. -/
theorem KeyOfKind.word {poisons : ℕ} {text : String} {kind : TypeKind}
    (h : KeyOfKind poisons text kind) (hshape : r.shapeKey? kind = none) : Word text := by
  cases kind with
  | nominal => exact PlainName.word h
  | placeholder =>
    obtain ⟨owner, name, ho, hn, rfl⟩ := h
    exact word_placeholder ho hn
  | poison =>
    obtain ⟨count, -, rfl⟩ := h
    exact word_poisonKey count
  | array element => cases hshape
  | function params result => cases hshape

/-- The key of a structural type is not a word. -/
theorem shapeKey?_ne_word {kind : TypeKind} {text : String} (h : Word text) :
    r.shapeKey? kind ≠ some text := by
  intro hshape
  cases kind with
  | nominal | placeholder | poison => cases hshape
  | array element =>
    obtain rfl := Option.some.inj hshape
    refine h ']' ?_ (by decide)
    rw [toList_brackets]
    exact List.mem_append_right _ (by decide)
  | function params result =>
    obtain rfl := Option.some.inj hshape
    refine h '(' ?_ (by decide)
    rw [toList_functionName]
    exact List.mem_cons_self

/-- The key of a function type ends as the key of its result. -/
theorem getLast?_functionName (params : List String) {result : String}
    (hresult : result.toList ≠ []) :
    (functionName params result).toList.getLast? = result.toList.getLast? := by
  rw [functionName, String.toList_append, List.getLast?_append_of_ne_nil _ hresult]

namespace Legible

variable (h : r.Legible)

include h

/-- The key of a structural type is that of its shape; other keys are words. -/
theorem key_cases {ty : TypeId} (hty : ty.index < r.size) :
    r.shapeKey? (r.kind ty) = some (r.key ty) ∨
      (r.shapeKey? (r.kind ty) = none ∧ Word (r.key ty)) := by
  cases hshape : r.shapeKey? (r.kind ty) with
  | none => exact .inr ⟨rfl, (h.legible hty).word hshape⟩
  | some text => exact .inl (congrArg some (h.shape hty hshape).1.symm)

/-- Every key has a character, and reading goes past it. -/
theorem key_reads {ty : TypeId} (hty : ty.index < r.size) :
    (r.key ty).toList ≠ [] ∧ Skipped 0 (r.key ty).toList := by
  induction ty, hty using h.toCoherent.induct with
  | step ty hty ih =>
    -- Structural types read as their parts do. Other keys are words, and need only have a character.
    rcases h.key_cases hty with hshape | ⟨hshape, hword⟩
    · cases hkind : r.kind ty with
      | nominal | placeholder | poison =>
        rw [hkind] at hshape
        cases hshape
      | array element =>
        rw [hkind] at hshape ih
        rw [← Option.some.inj hshape]
        obtain ⟨-, -, hskip⟩ := ih element List.mem_cons_self
        exact ⟨by simp, skipped_brackets hskip⟩
      | function params result =>
        rw [hkind] at hshape ih
        rw [← Option.some.inj hshape]
        obtain ⟨-, -, hresult⟩ := ih result List.mem_cons_self
        refine ⟨by simp [toList_functionName], skipped_functionName (fun text htext => ?_) hresult⟩
        obtain ⟨p, hp, rfl⟩ := List.mem_map.mp htext
        obtain ⟨-, -, hskip⟩ := ih p (List.mem_cons_of_mem _ hp)
        exact hskip
    · refine ⟨?_, .of_word hword⟩
      have hlegible := h.legible hty
      cases hkind : r.kind ty with
      | nominal =>
        rw [hkind] at hlegible
        exact PlainName.nonempty hlegible
      | placeholder =>
        rw [hkind] at hlegible
        obtain ⟨owner, name, -, -, htext⟩ := hlegible
        simp [htext]
      | poison =>
        rw [hkind] at hlegible
        obtain ⟨count, -, htext⟩ := hlegible
        simp [htext, toList_poisonKey]
      | array element =>
        rw [hkind] at hshape
        cases hshape
      | function params result =>
        rw [hkind] at hshape
        cases hshape

/-- A key that begins with a parenthesis belongs to a function type, or to arrays of one. -/
theorem overFunction_of_head {ty : TypeId} (hty : ty.index < r.size)
    (hhead : (r.key ty).toList.head? = some '(') : r.OverFunction ty := by
  induction ty, hty using h.toCoherent.induct with
  | step ty hty ih =>
    cases hkind : r.kind ty with
    | function params result => exact .function hkind
    | array element =>
      rw [hkind] at ih
      obtain ⟨helement, ih⟩ := ih element List.mem_cons_self
      refine .array hkind (ih ?_)
      rw [(h.shape hty (by rw [hkind]; rfl)).1, toList_brackets,
        List.head?_append_of_ne_nil _ (h.key_reads helement).1] at hhead
      exact hhead
    | nominal | placeholder | poison =>
      have hword := (h.legible hty).word (r := r) (by rw [hkind]; rfl)
      exact absurd (by decide) (hword '(' (List.mem_of_head? hhead))

/-- A key that ends with a bracket belongs to an array type, or to a function type whose result
ends in an array. -/
theorem endsInArray_of_getLast {ty : TypeId} (hty : ty.index < r.size)
    (hlast : (r.key ty).toList.getLast? = some ']') : r.EndsInArray ty := by
  induction ty, hty using h.toCoherent.induct with
  | step ty hty ih =>
    cases hkind : r.kind ty with
    | array element => exact .array hkind
    | function params result =>
      rw [hkind] at ih
      obtain ⟨hresult, ih⟩ := ih result List.mem_cons_self
      refine .function hkind (ih ?_)
      rw [(h.shape hty (by rw [hkind]; rfl)).1,
        getLast?_functionName _ (h.key_reads hresult).1] at hlast
      exact hlast
    | nominal | placeholder | poison =>
      have hword := (h.legible hty).word (r := r) (by rw [hkind]; rfl)
      exact absurd (by decide) (hword ']' (List.mem_of_getLast? hlast))

/-- Registered types with the same key are the same. -/
theorem eq_of_key_eq {s t : TypeId} (hs : s.index < r.size) (ht : t.index < r.size)
    (hkey : r.key s = r.key t) : s = t := by
  have hfind := h.found hs
  rw [hkey, h.found ht] at hfind
  exact (Option.some.inj hfind).symm

/-- Lists of registered types with the same keys are the same. -/
theorem eq_of_keys_eq {ss ts : List TypeId} (hs : ∀ s ∈ ss, s.index < r.size)
    (ht : ∀ t ∈ ts, t.index < r.size) (hkeys : ss.map r.key = ts.map r.key) : ss = ts := by
  induction ss generalizing ts with
  | nil => exact (List.map_eq_nil_iff.mp hkeys.symm).symm
  | cons s ss ih =>
    cases ts with
    | nil => cases hkeys
    | cons t ts =>
      obtain ⟨hkey, hkeys⟩ := List.cons.inj hkeys
      rw [h.eq_of_key_eq (hs s List.mem_cons_self) (ht t List.mem_cons_self) hkey,
        ih (fun x hx => hs x (List.mem_cons_of_mem s hx))
          (fun x hx => ht x (List.mem_cons_of_mem t hx)) hkeys]

/-- An array of functions and a function to arrays, if they have the same text. -/
theorem rivals_of_key_eq {element result : TypeId} {params : List TypeId}
    (helement : element.index < r.size) (hresult : result.index < r.size)
    (hkey : r.key element ++ "[]" = functionName (params.map r.key) (r.key result)) :
    r.OverFunction element ∧ r.EndsInArray result := by
  have htexts := congrArg String.toList hkey
  rw [toList_brackets, toList_functionName] at htexts
  constructor
  · have hhead := congrArg List.head? htexts
    rw [List.head?_append_of_ne_nil _ (h.key_reads helement).1] at hhead
    exact h.overFunction_of_head helement hhead
  · have hlast := congrArg List.getLast? htexts
    rw [← toList_functionName, getLast?_functionName _ (h.key_reads hresult).1,
      List.getLast?_append] at hlast
    exact h.endsInArray_of_getLast hresult hlast.symm

/-- Shapes of registered parts with the same key are the same, or rivals. -/
theorem eq_or_rivals {k k' : TypeKind} {text : String}
    (hk : ∀ p ∈ k.parts, p.index < r.size) (hk' : ∀ p ∈ k'.parts, p.index < r.size)
    (htext : r.shapeKey? k = some text) (htext' : r.shapeKey? k' = some text) :
    k' = k ∨ r.Rivals k k' := by
  cases k with
  | nominal | placeholder | poison => cases htext
  | array element =>
    obtain rfl := Option.some.inj htext
    have helement := hk element List.mem_cons_self
    cases k' with
    | nominal | placeholder | poison => cases htext'
    | array element' =>
      have hsame := h.eq_of_key_eq (hk' element' List.mem_cons_self) helement
        (brackets_inj (Option.some.inj htext'))
      exact .inl (congrArg TypeKind.array hsame)
    | function params result =>
      -- The key can be read as an array of functions and as a function with an array for its
      -- result.
      exact .inr (h.rivals_of_key_eq helement (hk' result List.mem_cons_self)
        (Option.some.inj htext').symm)
  | function params result =>
    obtain rfl := Option.some.inj htext
    have hresult := hk result List.mem_cons_self
    cases k' with
    | nominal | placeholder | poison => cases htext'
    | array element =>
      exact .inr (h.rivals_of_key_eq (hk' element List.mem_cons_self) hresult
        (Option.some.inj htext'))
    | function params' result' =>
      -- The keys of the parameters can be told apart in the list, since commas are inside of
      -- brackets.
      have hreads : ∀ {ps : List TypeId}, (∀ p ∈ ps, p.index < r.size) →
          ∀ text ∈ ps.map r.key, text.toList ≠ [] ∧ Skipped 0 text.toList := by
        intro ps hps text htext
        obtain ⟨p, hp, rfl⟩ := List.mem_map.mp htext
        exact h.key_reads (hps p hp)
      have hparams := fun p hp => hk p (List.mem_cons_of_mem _ hp)
      have hparams' := fun p hp => hk' p (List.mem_cons_of_mem _ hp)
      obtain ⟨hkeys, hkey⟩ := functionName_injective (hreads hparams') (hreads hparams)
        (Option.some.inj htext')
      rw [h.eq_of_keys_eq hparams' hparams hkeys,
        h.eq_of_key_eq (hk' result' List.mem_cons_self) hresult hkey]
      exact .inl rfl

end Legible

/-! ## Requests -/

/-- A request is for a structural type, with the key of its shape, or for a placeholder. -/
theorem request_cases (q : Request) (r : Registry) :
    r.shapeKey? q.kind = some (q.definition r).key ∨
      ∃ owner name, q = .placeholder owner name := by
  cases q with
  | array element => exact .inl rfl
  | function params result => exact .inl rfl
  | placeholder owner name => exact .inr ⟨owner, name, rfl⟩

/-- A request for a structural type is determined by the shape. -/
theorem request_eq_of_kind {q q' : Request} {text : String} (hq : r.shapeKey? q.kind = some text)
    (hkind : q'.kind = q.kind) : q' = q := by
  cases q with
  | placeholder owner name => cases hq
  | array element =>
    cases q' with
    | array element' => exact congrArg Request.array (TypeKind.array.inj hkind)
    | function params result => cases hkind
    | placeholder owner name => cases hkind
  | function params result =>
    cases q' with
    | function params' result' =>
      obtain ⟨rfl, rfl⟩ := TypeKind.function.inj hkind
      rfl
    | array element => cases hkind
    | placeholder owner name => cases hkind

/-- What may be asked for may still be asked for later. -/
theorem allowed_retained {names : Naming} {r' : Registry} {q : Request} (hq : q.Allowed names r)
    (hr : r.Retains r') : q.Allowed names r' :=
  ⟨fun p hp => Nat.lt_of_lt_of_le (hq.parts p hp) hr.size, hq.names⟩

/-- A request has the same key later. -/
theorem key_definition_retained {names : Naming} {r' : Registry} {q : Request}
    (hq : q.Allowed names r) (hr : r.Retains r') : (q.definition r').key = (q.definition r).key := by
  rcases request_cases q r with hshape | ⟨owner, name, rfl⟩
  · rw [← shapeKey?_congr fun p hp => hr.key (hq.parts p hp)] at hshape
    exact key_definition hshape
  · rfl

namespace Legible

variable (h : r.Legible)

include h

/-- Requests with the same key are the same, or rivals. -/
theorem request_eq_or_rivals {q q' : Request} (hq : q.Allowed .plain r)
    (hq' : q'.Allowed .plain r) (hkey : (q.definition r).key = (q'.definition r).key) :
    q' = q ∨ r.Rivals q.kind q'.kind := by
  rcases request_cases q r with hshape | ⟨owner, name, rfl⟩
  · rcases request_cases q' r with hshape' | ⟨owner, name, rfl⟩
    · rw [← hkey] at hshape'
      exact (h.eq_or_rivals hq.parts hq'.parts hshape hshape').imp_left (request_eq_of_kind hshape)
    · obtain ⟨ho, hn⟩ := hq'.names owner name rfl
      rw [hkey] at hshape
      exact absurd hshape (shapeKey?_ne_word (word_placeholder ho hn))
  · obtain ⟨ho, hn⟩ := hq.names owner name rfl
    rcases request_cases q' r with hshape' | ⟨owner', name', rfl⟩
    · rw [← hkey] at hshape'
      exact absurd hshape' (shapeKey?_ne_word (word_placeholder ho hn))
    · obtain ⟨-, hn'⟩ := hq'.names owner' name' rfl
      obtain ⟨rfl, rfl⟩ := placeholder_injective hn hn' hkey
      exact .inl rfl

/-- A type that is found for a request has the shape that is asked for, or a rival one. -/
theorem kind_of_find {q : Request} (hq : q.Allowed .plain r) {ty : TypeId}
    (hfind : r.find? (q.definition r).key = some ty) :
    r.kind ty = q.kind ∨ r.Rivals q.kind (r.kind ty) := by
  obtain ⟨hty, hkey⟩ := h.keyed hfind
  have hparts : ∀ p ∈ (r.kind ty).parts, p.index < r.size :=
    fun p hp => Nat.lt_trans (h.parts hty p hp) hty
  rcases request_cases q r with hshape | ⟨owner, name, rfl⟩
  · rcases h.key_cases hty with hshape' | ⟨-, hword⟩
    · rw [hkey] at hshape'
      exact h.eq_or_rivals hq.parts hparts hshape hshape'
    · rw [hkey] at hword
      exact absurd hshape (shapeKey?_ne_word hword)
  · -- Among the keys of placeholders, classes and poison only a placeholder's has a point.
    obtain ⟨ho, hn⟩ := hq.names owner name rfl
    have hlegible := h.legible hty
    have hplaceholder : r.key ty = owner ++ "." ++ name := hkey
    have hword := word_placeholder ho hn
    have hshape : ∀ text, r.shapeKey? (r.kind ty) = some text → text = owner ++ "." ++ name :=
      fun text htext => (h.shape hty htext).1.symm.trans hplaceholder
    rw [hplaceholder] at hlegible
    cases hkind : r.kind ty with
    | placeholder => exact .inl rfl
    | nominal =>
      rw [hkind] at hlegible
      exact absurd (by decide) (PlainName.plain hlegible '.' (by simp))
    | poison =>
      rw [hkind] at hlegible
      obtain ⟨count, -, htext⟩ := hlegible
      exact absurd (htext ▸ dottedName_placeholder ho hn) (not_dottedName_poisonKey count)
    | array element =>
      have hne : r.shapeKey? (.array element) ≠ some _ := shapeKey?_ne_word hword
      exact absurd (congrArg some (hshape _ (by rw [hkind]; rfl))) hne
    | function params result =>
      have hne : r.shapeKey? (.function params result) ≠ some _ := shapeKey?_ne_word hword
      exact absurd (congrArg some (hshape _ (by rw [hkind]; rfl))) hne

end Legible

/-- The answer to a request is a registered type with the key of the request. -/
theorem Coherent.answer_key (h : r.Coherent) (q : Request) :
    (q.answer r).1.index < (q.answer r).2.size ∧
      (q.answer r).2.key (q.answer r).1 = (q.definition r).key := by
  rw [q.answer_eq, findOrInsert]
  cases hfind : r.find? (q.definition r).key with
  | some ty => exact h.keyed hfind
  | none =>
    refine ⟨?_, congrArg TypeDef.key (definition_insert_self _)⟩
    rw [size_insert]
    exact Nat.lt_succ_self _

/-- The answer to a request has the shape that is asked for, or a rival one that was there. -/
theorem Legible.answer_kind (h : r.Legible) {q : Request} (hq : q.Allowed .plain r) :
    (q.answer r).2.kind (q.answer r).1 = q.kind ∨
      r.Rivals q.kind ((q.answer r).2.kind (q.answer r).1) := by
  rw [q.answer_eq, findOrInsert]
  cases hfind : r.find? (q.definition r).key with
  | some ty => exact h.kind_of_find hq hfind
  | none =>
    left
    rw [← q.kind_definition r]
    exact congrArg TypeDef.kind (definition_insert_self _)

/-- In every registry that arises with plain names, the answer to a request has exactly the shape
that is asked for, and later requests that have the same answer ask for the same, at any depth.
The one exception is that an array of functions and a function to arrays with the same text are
taken for each other. -/
theorem answer_identifies (hr : Reachable .plain r) {q : Request} (hq : q.Allowed .plain r) :
    ((q.answer r).2.kind (q.answer r).1 = q.kind ∨
      r.Rivals q.kind ((q.answer r).2.kind (q.answer r).1)) ∧
    ∀ {r' : Registry} {q' : Request}, Later .plain (q.answer r).2 r' → q'.Allowed .plain r' →
      (q'.answer r').1 = (q.answer r).1 → q' = q ∨ r'.Rivals q.kind q'.kind := by
  refine ⟨hr.legible.answer_kind hq, fun {r' q'} hlater hq' hsame => ?_⟩
  have hstep : Step .plain r (q.answer r).2 := .request q hq
  have hr' : Reachable .plain r' := (Relation.ReflTransGen.tail hr hstep).trans hlater
  have hretains : r.Retains r' := hstep.retains.trans hlater.retains
  -- The answer carries the key of either request, and both keys can be compared in `r'`.
  obtain ⟨hlt, hkey⟩ := hr.coherent.answer_key q
  obtain ⟨-, hkey'⟩ := hr'.coherent.answer_key q'
  have hstep' : Step .plain r' (q'.answer r').2 := .request q' hq'
  have hsteps' : (q.answer r).2.Retains (q'.answer r').2 := hlater.retains.trans hstep'.retains
  rw [hsame, hsteps'.key hlt, hkey] at hkey'
  refine hr'.legible.request_eq_or_rivals (allowed_retained hq hretains) hq' ?_
  rw [key_definition_retained hq hretains]
  exact hkey'

/-- The registry in which arrays of integers have been asked for. -/
def withInts : Registry := (arrayOf .int initial).2

/-- The registry arises with plain names. -/
theorem reachable_withInts : Reachable .plain withInts :=
  .single (.request (.array .int) ⟨by decide, by rintro _ _ ⟨⟩⟩)

/-- The text of an array of integers does not begin with parameters. -/
theorem not_overFunction {element : TypeId} (hkind : r.kind element = .array .int)
    (hint : r.kind .int = .nominal) : ¬ r.OverFunction element := by
  intro h
  cases h with
  | function hk => rw [hkind] at hk; cases hk
  | array hk inner =>
    obtain rfl := TypeKind.array.inj (hkind.symm.trans hk)
    cases inner with
    | function hk => rw [hint] at hk; cases hk
    | array hk => rw [hint] at hk; cases hk

/-- Arrays of arrays of integers are asked for, and no other request has their answer. -/
theorem answer_identifies_ints :
    let q : Request := .array ⟨7⟩
    let later := (q.answer withInts).2
    withInts.kind ⟨7⟩ = .array .int ∧ later.kind (q.answer withInts).1 = .array ⟨7⟩ ∧
      ∀ q' : Request, q'.Allowed .plain later →
        (q'.answer later).1 = (q.answer withInts).1 → q' = q := by
  intro q later
  have hidentifies := answer_identifies (q := .array ⟨7⟩) reachable_withInts
    ⟨by decide +kernel, by rintro _ _ ⟨⟩⟩
  refine ⟨by decide +kernel, by decide +kernel, fun q' hq' hsame => ?_⟩
  refine (hidentifies.2 .refl hq' hsame).resolve_right fun hrivals => ?_
  have hinner : ¬ later.OverFunction ⟨7⟩ := not_overFunction (by decide +kernel) (by decide +kernel)
  cases hkind : q'.kind with
  | function params result =>
    rw [hkind] at hrivals
    exact hinner hrivals.1
  | array element | placeholder | nominal | poison =>
    rw [hkind] at hrivals
    exact hrivals

/-- The registry in which functions from integers to arrays of integers have been asked for, and
then functions from integers to integers. -/
def withFunctions : Registry :=
  let (ints, r) := arrayOf .int initial
  (functionOf [.int] .int (functionOf [.int] ints r).2).2

/-- The registry arises with plain names. -/
theorem reachable_withFunctions : Reachable .plain withFunctions :=
  (reachable_withInts.tail (.request (.function [.int] ⟨7⟩) ⟨by decide, by rintro _ _ ⟨⟩⟩)).tail
    (.request (.function [.int] .int) ⟨by decide, by rintro _ _ ⟨⟩⟩)

/-- There the array type of functions from integers to integers is a function type: it is not an
array type, and it answers the request for functions to arrays as well. -/
theorem array_of_functions_misread :
    Reachable .plain withFunctions ∧
      withFunctions.kind ⟨9⟩ = .function [.int] .int ∧
      (arrayOf ⟨9⟩ withFunctions).2.kind (arrayOf ⟨9⟩ withFunctions).1 = .function [.int] ⟨7⟩ ∧
      (functionOf [.int] ⟨7⟩ withFunctions).1 = (arrayOf ⟨9⟩ withFunctions).1 :=
  ⟨reachable_withFunctions, by decide +kernel, by decide +kernel, by decide +kernel⟩

end ObjectGraph.Registry
