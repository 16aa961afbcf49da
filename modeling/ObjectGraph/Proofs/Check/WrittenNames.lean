import ObjectGraph.Proofs.Check.Reports

/-!
# Written names and keys

A key is looked up as a whole. A written name is read from its end: brackets there stand for an
array type around what is written before them (`Checker.resolveTypeName_brackets`). So a registered
type is found under its key when that is written as a name, with nothing reported and nothing
registered, if and only if a type is found for each text that is left as brackets are taken off the
key (`Checker.resolveTypeName_eq_iff`).

The brackets of array types are taken off in this way, and what they are around is a part of the
type. A key has no parentheses around a function type though, and the brackets of its result are
taken off as well: `(int) => int[]` is read as the array type of `(int) => int`, which may not be
registered (`Checker.key_misread`). Other types are found under their keys
(`Checker.resolveTypeName_key`). Where the names are plain, the exceptions are the functions that
give arrays and the array types around them (`Registry.Legible.bracketsInside_iff`).
-/

namespace ObjectGraph

/-! ## Brackets at the end of a text -/

/-- There are brackets at the end of the text. -/
def EndsInBrackets (text : String) : Prop := ['[', ']'] <:+ text.toList

variable {name : String}

/-- A text with brackets behind it has them at its end. -/
theorem endsInBrackets_brackets (name : String) : EndsInBrackets (name ++ "[]") :=
  ⟨name.toList, (toList_brackets name).symm⟩

/-- A text is built from one without brackets at its end, pair by pair. -/
theorem brackets_induction {motive : String → Prop}
    (base : ∀ name, ¬ EndsInBrackets name → motive name)
    (step : ∀ name, motive name → motive (name ++ "[]")) (name : String) : motive name := by
  obtain ⟨hname, hend⟩ := splitBrackets_spec name
  rw [← toList_bracketed, String.toList_inj] at hname
  rw [hname]
  induction (splitBrackets name).2 with
  | zero => exact base _ hend
  | succ depth ih => exact step _ ih

/-- A name without brackets at its end is not split. -/
theorem splitBrackets_of_not_endsInBrackets (h : ¬ EndsInBrackets name) :
    splitBrackets name = (name, 0) := by
  obtain ⟨hname, -⟩ := splitBrackets_spec name
  rw [← toList_bracketed, String.toList_inj] at hname
  cases hdepth : (splitBrackets name).2 with
  | zero =>
    rw [hdepth] at hname
    exact Prod.ext hname.symm hdepth
  | succ depth =>
    rw [hdepth] at hname
    refine absurd ?_ h
    rw [hname]
    exact endsInBrackets_brackets _

/-- One more pair of brackets is counted. -/
theorem splitBrackets_brackets (name : String) :
    splitBrackets (name ++ "[]") = ((splitBrackets name).1, (splitBrackets name).2 + 1) := by
  rw [splitBrackets, toList_brackets, List.reverse_append]
  rfl

namespace Registry

variable {r : Registry} {ty : TypeId}

/-! ## Texts that are left -/

/-- A type is found for the text, and for each text that is left as brackets are taken off it. -/
def Known (r : Registry) (name : String) : Prop :=
  ∀ text depth, name = bracketed text depth → ∃ ty, r.find? text = some ty

/-- Nothing is taken off a text without brackets at its end. -/
theorem known_of_not_endsInBrackets (hname : ¬ EndsInBrackets name)
    (hfind : r.find? name = some ty) : r.Known name := by
  intro text depth heq
  cases depth with
  | zero =>
    obtain rfl : name = text := heq
    exact ⟨ty, hfind⟩
  | succ depth => exact absurd (heq ▸ endsInBrackets_brackets _) hname

/-- Brackets are taken off one pair at a time. -/
theorem known_brackets_iff :
    r.Known (name ++ "[]") ↔ (∃ ty, r.find? (name ++ "[]") = some ty) ∧ r.Known name := by
  refine ⟨fun h => ⟨h _ 0 rfl, fun text depth heq => h text (depth + 1) ?_⟩, fun ⟨hfind, h⟩ => ?_⟩
  · rw [heq, bracketed]
  · intro text depth heq
    cases depth with
    | zero =>
      obtain rfl : name ++ "[]" = text := heq
      exact hfind
    | succ depth => exact h text depth (brackets_inj heq)

end Registry

namespace Checker

variable {c : Checker} {ty : TypeId}

/-! ## Reading a name -/

/-- The last array type may be made at the end. -/
theorem nestArrays_succ (depth : ℕ) (ty : TypeId) :
    nestArrays (depth + 1) ty =
      nestArrays depth ty >>= fun element => registering (Registry.arrayOf element) := by
  induction depth generalizing ty with
  | zero => rfl
  | succ depth ih =>
    calc nestArrays (depth + 1 + 1) ty
        = registering (Registry.arrayOf ty) >>= nestArrays (depth + 1) := rfl
      _ = registering (Registry.arrayOf ty) >>= fun ty => nestArrays depth ty >>= fun element =>
            registering (Registry.arrayOf element) := congrArg _ (funext ih)
      _ = nestArrays (depth + 1) ty >>= fun element => registering (Registry.arrayOf element) :=
          (bind_assoc ..).symm

/-- **Brackets at the end of a name stand for an array type** around what is written before them. -/
theorem resolveTypeName_brackets (name : String) (loc : Location) :
    resolveTypeName (name ++ "[]") loc =
      resolveTypeName name loc >>= fun element => registering (Registry.arrayOf element) := by
  unfold resolveTypeName
  rw [splitBrackets_brackets]
  simp only [bind_assoc, nestArrays_succ]
  refine congrArg _ (funext fun c => ?_)
  cases c.types.find? (splitBrackets name).1 with
  | some ty => rfl
  | none => exact bind_assoc ..

/-- A name without brackets at its end is looked up. -/
theorem resolveTypeName_of_found (hname : ¬ EndsInBrackets name) (loc : Location)
    (hfind : c.types.find? name = some ty) : resolveTypeName name loc c = (ty, c) := by
  unfold resolveTypeName
  rw [splitBrackets_of_not_endsInBrackets hname]
  simp only [bind, StateT.bind, get, getThe, MonadStateOf.get, StateT.get, pure, hfind]
  rfl

/-- If there is no type for it, that is reported. -/
theorem resolveTypeName_of_unknown (hname : ¬ EndsInBrackets name) (loc : Location)
    (hfind : c.types.find? name = none) :
    resolveTypeName name loc c = report (.unknownType name loc) c := by
  unfold resolveTypeName
  rw [splitBrackets_of_not_endsInBrackets hname]
  simp only [bind, StateT.bind, get, getThe, MonadStateOf.get, StateT.get, pure, hfind]
  rfl

/-- No type is dropped while a name is read. -/
theorem size_le_resolveTypeName (name : String) (loc : Location) (c : Checker) :
    c.types.size ≤ (resolveTypeName name loc c).2.types.size := by
  induction name using brackets_induction generalizing c with
  | base name hname =>
    cases hfind : c.types.find? name with
    | some ty =>
      have hread := resolveTypeName_of_found hname loc hfind
      exact Nat.le_of_eq (congrArg (·.2.types.size) hread.symm)
    | none =>
      rw [resolveTypeName_of_unknown hname loc hfind]
      exact Registry.Extends.newPoison.size
  | step name ih =>
    rw [resolveTypeName_brackets]
    exact Nat.le_trans (ih c) (Registry.Extends.findOrInsert _).size

/-- After some steps, asking for an array type ends where the steps began if and only if they did
nothing and the array type is found. -/
theorem registering_arrayOf_eq_iff {c' : Checker} {element : TypeId}
    (hsize : c.types.size ≤ c'.types.size) :
    registering (Registry.arrayOf element) c' = (ty, c) ↔
      c' = c ∧ c.types.find? (c.types.key element ++ "[]") = some ty := by
  change ((Registry.findOrInsert (c'.types.arrayDef element) c'.types).1,
    { c' with types := (Registry.findOrInsert (c'.types.arrayDef element) c'.types).2 }) = _ ↔ _
  rw [Registry.findOrInsert]
  constructor
  · intro heq
    cases hfind : c'.types.find? (c'.types.arrayDef element).key with
    | some t =>
      rw [hfind] at heq
      obtain ⟨rfl, rfl⟩ := Prod.mk.inj heq
      exact ⟨rfl, hfind⟩
    | none =>
      -- The array type would be one type more than there were.
      rw [hfind] at heq
      have hinserted : (Registry.insert (c'.types.arrayDef element) c'.types).2.size =
          c.types.size := congrArg (·.2.types.size) heq
      rw [Registry.size_insert] at hinserted
      omega
  · rintro ⟨rfl, hfind⟩
    have harray : c'.types.find? (c'.types.arrayDef element).key = some ty := hfind
    rw [harray]

/-- **A name means a registered type, with nothing reported and nothing registered**, if and only
if it is the type's key and a type is found for each text that is left as brackets are taken off
it. -/
theorem resolveTypeName_eq_iff (hc : c.types.Coherent) (name : String) (loc : Location)
    (ty : TypeId) :
    resolveTypeName name loc c = (ty, c) ↔ c.types.find? name = some ty ∧ c.types.Known name := by
  induction name using brackets_induction generalizing ty with
  | base name hname =>
    cases hfind : c.types.find? name with
    | some t =>
      rw [resolveTypeName_of_found hname loc hfind, Prod.mk.injEq, Option.some.injEq]
      exact and_congr_right fun _ =>
        iff_of_true rfl (Registry.known_of_not_endsInBrackets hname hfind)
    | none =>
      -- The error is recorded, so that the checker is not the same.
      rw [resolveTypeName_of_unknown hname loc hfind]
      refine iff_of_false (fun heq => ?_) (by simp)
      have herrors : c.errors ++ [.unknownType name loc] = c.errors := congrArg (·.2.errors) heq
      simp at herrors
  | step name ih =>
    have hstep : resolveTypeName (name ++ "[]") loc c = (ty, c) ↔
        (resolveTypeName name loc c).2 = c ∧
          c.types.find? (c.types.key (resolveTypeName name loc c).1 ++ "[]") = some ty := by
      rw [resolveTypeName_brackets]
      exact registering_arrayOf_eq_iff (size_le_resolveTypeName name loc c)
    rw [hstep, Registry.known_brackets_iff]
    -- What is before the brackets has to mean a type, whose key it then is.
    constructor
    · rintro ⟨hsame, hfind⟩
      obtain ⟨hname, hknown⟩ := (ih (resolveTypeName name loc c).1).mp (Prod.ext rfl hsame)
      rw [(hc.keyed hname).2] at hfind
      exact ⟨hfind, ⟨ty, hfind⟩, hknown⟩
    · rintro ⟨hfind, -, hknown⟩
      obtain ⟨element, hname⟩ := hknown name 0 rfl
      rw [(ih element).mpr ⟨hname, hknown⟩]
      refine ⟨rfl, ?_⟩
      rw [(hc.keyed hname).2]
      exact hfind

end Checker

namespace Registry

variable {r r' : Registry} {ty : TypeId}

/-! ## Keys -/

/-- What may be done to a registry leaves every type to be found under its key. -/
theorem Indexed.step (h : r.Indexed) (hreserved : r.Reserved) (hs : Step .noPoison r r') :
    r'.Indexed := by
  cases hs with
  | register nominal named free =>
    obtain ⟨hfree, rfl⟩ := register_eq_ok free
    exact h.insert hfree
  | complete ty f hkey hkind =>
    intro ty' hlt
    rw [size_modifyDef] at hlt
    rw [key_modifyDef hkey]
    exact h ty' hlt
  | request q allowed =>
    rw [q.answer_eq, findOrInsert]
    cases hfind : r.find? (q.definition r).key with
    | some ty => exact h
    | none => exact h.insert hfind
  | poison =>
    rw [newPoison_apply]
    have hcounted : ({ r with poisons := r.poisons + 1 } : Registry).Indexed := h
    -- The key is not looked up first, and is free because it was reserved.
    refine hcounted.insert (Option.eq_none_iff_forall_ne_some.mpr fun ty hfind => ?_)
    exact hreserved.reserved ty 0 (Nat.lt_succ_self _) (hreserved.keyed hfind).2

/-- In every registry that arises without class names that begin as the keys of poison types do,
every type is found under its key. -/
theorem Reachable.indexed (h : Reachable .noPoison r) : r.Indexed := by
  induction h with
  | refl => exact fun _ => legible_initial.found
  | tail hl hs ih => exact ih.step (Reachable.reserved hl) hs

/-- There are brackets at the end of the type's key that no array type around something stands
for. -/
def BracketsInside (r : Registry) (ty : TypeId) : Prop :=
  ∃ inner depth, r.ArraysAround inner depth ty ∧ (∀ element, r.kind inner ≠ .array element) ∧
    EndsInBrackets (r.key inner)

/-- Without such brackets a type is found for each text that is left of the key. -/
theorem Coherent.known_key (h : r.Coherent) (hindexed : r.Indexed) (hty : ty.index < r.size)
    (hinside : ¬ r.BracketsInside ty) : r.Known (r.key ty) := by
  induction ty, hty using h.induct with
  | step ty hty ih =>
    by_cases harray : ∃ element, r.kind ty = .array element
    · -- What is left of an array type's key is the key of the element.
      obtain ⟨element, hk⟩ := harray
      rw [hk] at ih
      obtain ⟨-, ih⟩ := ih element List.mem_cons_self
      obtain ⟨hkey, hfind⟩ := h.shape hty (show r.shapeKey? (r.kind ty) = some _ by rw [hk]; rfl)
      rw [hkey, known_brackets_iff]
      refine ⟨⟨ty, hfind⟩, ih fun ⟨inner, depth, haround, hinner⟩ => hinside ?_⟩
      exact ⟨inner, depth + 1, .array hk haround, hinner⟩
    · refine known_of_not_endsInBrackets (fun hends => hinside ?_) (hindexed ty hty)
      exact ⟨ty, 0, .none, fun element hk => harray ⟨element, hk⟩, hends⟩

/-- A type whose text ends with brackets by its shape has them at the end of its key. -/
theorem Coherent.endsInBrackets_key (h : r.Coherent) (hty : ty.index < r.size)
    (hends : r.EndsInArray ty) : EndsInBrackets (r.key ty) := by
  induction hends with
  | array hk =>
    rw [(h.shape hty (by rw [hk]; rfl)).1]
    exact endsInBrackets_brackets _
  | @function ty result params hk _ ih =>
    have hresult : result.index < r.size :=
      h.parts_registered (mem_parts_of_function hk result List.mem_cons_self)
    rw [(h.shape hty (by rw [hk]; rfl)).1, EndsInBrackets, functionName, String.toList_append]
    exact (ih hresult).trans (List.suffix_append _ _)

/-- What arrays are around is registered if they are. -/
theorem Coherent.arraysAround_registered {inner : TypeId} {depth : ℕ} (h : r.Coherent)
    (haround : r.ArraysAround inner depth ty) (hty : ty.index < r.size) :
    inner.index < r.size := by
  induction haround with
  | none => exact hty
  | array hk _ ih => exact ih (h.parts_registered (mem_parts_of_array hk))

/-- Where the names are plain, such brackets are those of a function that gives an array. -/
theorem Legible.bracketsInside_iff (h : r.Legible) (hty : ty.index < r.size) :
    r.BracketsInside ty ↔ ∃ inner depth params result, r.ArraysAround inner depth ty ∧
      r.kind inner = .function params result ∧ r.EndsInArray result := by
  constructor
  · rintro ⟨inner, depth, haround, hinner, before, hkey⟩
    have hlast : (r.key inner).toList.getLast? = some ']' := by
      rw [← hkey, List.getLast?_append]
      rfl
    cases h.endsInArray_of_getLast (h.toCoherent.arraysAround_registered haround hty) hlast with
    | array hk => exact absurd hk (hinner _)
    | function hk hresult => exact ⟨inner, depth, _, _, haround, hk, hresult⟩
  · rintro ⟨inner, depth, params, result, haround, hk, hresult⟩
    refine ⟨inner, depth, haround, fun element heq => ?_, ?_⟩
    · rw [hk] at heq
      cases heq
    · exact h.toCoherent.endsInBrackets_key (h.toCoherent.arraysAround_registered haround hty)
        (.function hk hresult)

/-- What may be done with plain names may be done without class names that begin as the keys of
poison types do. -/
theorem Step.noPoison (hs : Step .plain r r') : Step .noPoison r r' := by
  cases hs with
  | register nominal named free =>
    refine .register nominal (fun hstart => ?_) free
    exact PlainName.plain named '<' (hstart.subset (by decide)) (by decide)
  | complete ty f hkey hkind => exact .complete ty f hkey hkind
  | request q allowed => exact .request q ⟨allowed.parts, fun _ _ _ => trivial⟩
  | poison => exact .poison

/-- A registry that arises with plain names arises so. -/
theorem Reachable.noPoison (h : Reachable .plain r) : Reachable .noPoison r :=
  Relation.ReflTransGen.mono (fun _ _ => Step.noPoison) _ _ h

end Registry

namespace Checker

variable {c : Checker} {ty : TypeId}

/-- **A key that is written as a name means its type**, with nothing reported and nothing
registered, if and only if a type is found for each text that is left as brackets are taken off it.
That is so unless there are brackets at its end that are inside of the type. -/
theorem resolveTypeName_key (hr : Registry.Reachable .noPoison c.types)
    (hty : ty.index < c.types.size) (loc : Location) :
    (resolveTypeName (c.types.key ty) loc c = (ty, c) ↔
        ∀ text depth, c.types.key ty = bracketed text depth → ∃ t, c.types.find? text = some t) ∧
      (¬ c.types.BracketsInside ty → resolveTypeName (c.types.key ty) loc c = (ty, c)) := by
  have hc := Registry.Reachable.coherent hr
  have hindexed := Registry.Reachable.indexed hr
  have hread := resolveTypeName_eq_iff hc (c.types.key ty) loc ty
  refine ⟨hread.trans (and_iff_right (hindexed ty hty)), fun hinside => hread.mpr ?_⟩
  exact ⟨hindexed ty hty, hc.known_key hindexed hty hinside⟩

/-- Next to `(int) => int`, both types are found under their keys, and `(int) => int[]` means the
function type. -/
theorem resolveTypeName_key_functions :
    let c := ofTypes .withFunctions
    let loc : Location := ⟨none, ⟨0, 14⟩⟩
    Registry.Reachable .noPoison c.types ∧
      resolveTypeName "(int) => int[]" loc c = (⟨8⟩, c) ∧
      resolveTypeName "(int) => int" loc c = (⟨9⟩, c) := by
  intro c loc
  have hr : Registry.Reachable .noPoison c.types := Registry.reachable_withFunctions.noPoison
  have hend : ¬ EndsInBrackets "(int) => int" := by
    unfold EndsInBrackets
    decide +kernel
  have hfind : c.types.find? "(int) => int" = some ⟨9⟩ := by decide +kernel
  have hkey8 : c.types.key ⟨8⟩ = "(int) => int" ++ "[]" := by decide +kernel
  have hkey9 : c.types.key ⟨9⟩ = "(int) => int" := by decide +kernel
  have hkind9 : c.types.kind ⟨9⟩ = .function [.int] .int := by decide +kernel
  refine ⟨hr, ?_, ?_⟩
  · -- What is left of the key is the key of the other type, which has no brackets at its end.
    have hlt : (⟨8⟩ : TypeId).index < c.types.size := by decide +kernel
    have hread := (resolveTypeName_key hr hlt loc).1
    rw [hkey8] at hread
    exact hread.mpr (Registry.known_brackets_iff.mpr
      ⟨⟨⟨8⟩, by decide +kernel⟩, Registry.known_of_not_endsInBrackets hend hfind⟩)
  · have hlt : (⟨9⟩ : TypeId).index < c.types.size := by decide +kernel
    have hread := (resolveTypeName_key hr hlt loc).2
    rw [hkey9] at hread
    refine hread ?_
    rintro ⟨inner, depth, haround, -, hends⟩
    cases haround with
    | none => exact hend (hkey9 ▸ hends)
    | array hk _ =>
      rw [hkind9] at hk
      cases hk

/-- Without it the function type is not found under its key: the written key is read as an array
type, and what is left of the key is reported as unknown. -/
theorem key_misread :
    let c := ofTypes (Registry.functionOf [.int] ⟨7⟩ .withInts).2
    let loc : Location := ⟨none, ⟨0, 14⟩⟩
    let read := resolveTypeName (c.types.key ⟨8⟩) loc c
    Registry.Reachable .plain c.types ∧ c.types.kind ⟨8⟩ = .function [.int] ⟨7⟩ ∧
      c.types.find? (c.types.key ⟨8⟩) = some ⟨8⟩ ∧ read.1 ≠ ⟨8⟩ ∧
      read.2.errors = [.unknownType "(int) => int" loc] ∧ read.2.types.size = c.types.size + 2 :=
  ⟨Registry.reachable_withInts.tail
      (.request (.function [.int] ⟨7⟩) ⟨by decide, by rintro _ _ ⟨⟩⟩),
    by decide +kernel, by decide +kernel, by decide +kernel, by decide +kernel, by decide +kernel⟩

end Checker

end ObjectGraph
