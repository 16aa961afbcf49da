import ObjectGraph.Proofs.Check.Inference
import ObjectGraph.Proofs.Types.Growth

/-!
# One report, one poison type

A check that fails records one error and answers with a poison type that it has just made, so that
an error and the type that keeps further checks silent always come together (`reports_paired`). The
rest of what a check does to the registry is adding types.

A name with brackets behind it gets array types around the new poison type. They are the ones for
this poison type only if no type is found under their keys. The keys of poison types to come, with
brackets behind them or not, are reserved in this sense (`Registry.Reserved`) as long as no class
is declared under a name that begins as the keys of poison types do.
-/

namespace ObjectGraph

/-! ## Reserved keys -/

/-- The key of a poison type, with brackets behind it. -/
def nestedPoisonKey (count : ℕ) : ℕ → String
  | 0 => poisonKey count
  | depth + 1 => nestedPoisonKey count depth ++ "[]"

/-- The characters of such a key. -/
theorem toList_nestedPoisonKey (count depth : ℕ) :
    (nestedPoisonKey count depth).toList =
      (poisonKey count).toList ++ (List.replicate depth ['[', ']']).flatten := by
  have hbracketed : nestedPoisonKey count depth = bracketed (poisonKey count) depth := by
    induction depth with
    | zero => rfl
    | succ depth ih => rw [nestedPoisonKey, bracketed, ih]
  rw [hbracketed, toList_bracketed]

/-- It begins with an angle bracket. -/
theorem head?_nestedPoisonKey (count depth : ℕ) :
    (nestedPoisonKey count depth).toList.head? = some '<' := by
  rw [toList_nestedPoisonKey, toList_poisonKey]
  rfl

/-- It begins as the key of a poison type does. -/
theorem isPrefix_nestedPoisonKey (count depth : ℕ) :
    "<poison#".toList <+: (nestedPoisonKey count depth).toList := by
  rw [toList_nestedPoisonKey, toList_poisonKey, List.append_assoc]
  exact List.prefix_append _ _

/-- There is no point in it. -/
theorem not_mem_nestedPoisonKey (count depth : ℕ) :
    '.' ∉ (nestedPoisonKey count depth).toList := by
  rw [toList_nestedPoisonKey, toList_poisonKey, Nat.toList_repr]
  simp only [List.mem_append, not_or]
  refine ⟨⟨by decide, fun hdigit => ?_, by decide⟩, fun hbrackets => ?_⟩
  · exact absurd (Nat.isDigit_of_mem_toDigits (by decide) (by decide) hdigit) (by decide)
  · obtain ⟨text, htext, hmem⟩ := List.mem_flatten.mp hbrackets
    rw [List.eq_of_mem_replicate htext] at hmem
    exact absurd hmem (by decide)

/-- A key with brackets behind it is that of a poison type with brackets behind it only if the key
without them is. -/
theorem eq_nestedPoisonKey_of_brackets {key : String} {count depth : ℕ}
    (h : key ++ "[]" = nestedPoisonKey count depth) :
    ∃ inner, depth = inner + 1 ∧ key = nestedPoisonKey count inner := by
  cases depth with
  | zero =>
    have htexts := congrArg String.toList h
    rw [nestedPoisonKey, toList_brackets, toList_poisonKey, ← List.append_assoc] at htexts
    have hend := congrArg List.getLast? htexts
    rw [List.getLast?_append, List.getLast?_append] at hend
    have hchars : ']' = '>' := Option.some.inj hend
    exact absurd hchars (by decide)
  | succ inner => exact ⟨inner, rfl, brackets_inj h⟩

/-- Number and depth can be read off such a key. -/
theorem nestedPoisonKey_inj {count count' depth depth' : ℕ}
    (h : nestedPoisonKey count depth = nestedPoisonKey count' depth') :
    count = count' ∧ depth = depth' := by
  induction depth generalizing depth' with
  | zero =>
    cases depth' with
    | zero => exact ⟨poisonKey_injective h, rfl⟩
    | succ depth' =>
      obtain ⟨inner, hinner, -⟩ := eq_nestedPoisonKey_of_brackets h.symm
      cases hinner
  | succ depth ih =>
    obtain ⟨inner, rfl, hkey⟩ := eq_nestedPoisonKey_of_brackets h
    obtain ⟨hcount, rfl⟩ := ih hkey
    exact ⟨hcount, rfl⟩

/-- No class has a name that begins as the keys of poison types do. -/
def Naming.noPoison : Naming :=
  ⟨fun name => ¬ "<poison#".toList <+: name.toList, fun _ _ => True⟩

namespace Registry

variable {r r' : Registry}

/-- No type has the key of a poison type to come, with brackets behind it or not. -/
structure Reserved (r : Registry) : Prop where
  /-- A key that is found leads to a type with that key. -/
  keyed : ∀ {text : String} {ty : TypeId}, r.find? text = some ty →
    ty.index < r.size ∧ r.key ty = text
  /-- The keys are free. -/
  reserved : ∀ {count : ℕ} (ty : TypeId) (depth : ℕ), r.poisons < count →
    r.key ty ≠ nestedPoisonKey count depth

/-- The types of `r` are types of `r'`, no poison type is dropped from the count, and keys that are
reserved stay so. -/
structure Advances (r r' : Registry) : Prop extends r.Extends r' where
  /-- The count of poison types does not go down. -/
  poisons : r.poisons ≤ r'.poisons
  /-- Keys stay reserved. -/
  reserved : r.Reserved → r'.Reserved

/-- A definition may be added if its key is not reserved. -/
theorem Reserved.insert (h : r.Reserved) {d : TypeDef}
    (hkey : ∀ {count : ℕ} (depth : ℕ), r.poisons < count → d.key ≠ nestedPoisonKey count depth) :
    (Registry.insert d r).2.Reserved where
  keyed := keyed_insert h.keyed
  reserved {count} ty depth hcount := by
    rw [key, definition_insert]
    split
    · exact hkey depth hcount
    · exact h.reserved ty depth hcount

namespace Advances

/-- Nothing may be done. -/
theorem refl : r.Advances r := ⟨.refl, Nat.le_refl _, id⟩

/-- One step may follow another. -/
theorem trans {r'' : Registry} (a : r.Advances r') (b : r'.Advances r'') : r.Advances r'' :=
  ⟨a.toExtends.trans b.toExtends, Nat.le_trans a.poisons b.poisons, b.reserved ∘ a.reserved⟩

/-- A type may be looked up, and added if its key is not reserved. -/
theorem findOrInsert {d : TypeDef} (hkey : r.Reserved → ∀ {count : ℕ} (depth : ℕ),
    r.poisons < count → d.key ≠ nestedPoisonKey count depth) :
    r.Advances (Registry.findOrInsert d r).2 := by
  refine ⟨.findOrInsert d, ?_, fun h => ?_⟩ <;> unfold Registry.findOrInsert <;>
    cases r.find? d.key with
    | some ty => first | exact Nat.le_refl _ | exact h
    | none => first | exact Nat.le_refl _ | exact h.insert (hkey h)

/-- Array types and function types may be asked for. -/
theorem allows : Allows Advances where
  refl _ := .refl
  trans := .trans
  arrayOf element r := by
    refine .findOrInsert (d := r.arrayDef element) fun h {count} depth hcount heq => ?_
    obtain ⟨inner, -, hkey⟩ := eq_nestedPoisonKey_of_brackets heq
    exact h.reserved element inner hcount hkey
  functionOf params result r := by
    refine .findOrInsert (d := r.functionDef params result) fun _ {count} depth _ heq => ?_
    have hhead := head?_nestedPoisonKey count depth
    rw [← heq, functionDef, toList_functionName] at hhead
    exact absurd (Option.some.inj hhead) (by decide)

/-- A poison type may be made. -/
theorem newPoison : r.Advances (Registry.newPoison r).2 := by
  refine ⟨.newPoison, Nat.le_succ _, fun h => ?_⟩
  rw [newPoison_apply]
  have hcounted : ({ r with poisons := r.poisons + 1 } : Registry).Reserved :=
    ⟨h.keyed, fun ty depth hcount => h.reserved ty depth (Nat.lt_of_succ_lt hcount)⟩
  refine hcounted.insert fun {count} depth hcount heq => ?_
  have hsame : nestedPoisonKey (r.poisons + 1) 0 = nestedPoisonKey count depth := heq
  obtain ⟨rfl, -⟩ := nestedPoisonKey_inj hsame
  exact Nat.lt_irrefl _ hcount

end Advances

/-- What may be done to a registry leaves the keys reserved. -/
theorem Reserved.step (h : r.Reserved) (hs : Step .noPoison r r') : r'.Reserved := by
  cases hs with
  | @register d ty r' nominal named free =>
    obtain ⟨-, rfl⟩ := register_eq_ok free
    exact h.insert fun {count} depth _ heq => named (heq ▸ isPrefix_nestedPoisonKey count depth)
  | complete ty f hkey hkind =>
    refine ⟨fun hfind => ?_, fun ty' depth hcount => ?_⟩
    · rw [size_modifyDef, key_modifyDef hkey]
      exact h.keyed hfind
    · rw [key_modifyDef hkey]
      exact h.reserved ty' depth hcount
  | request q allowed =>
    cases q with
    | array element => exact (Advances.allows.arrayOf element r).reserved h
    | function params result => exact (Advances.allows.functionOf params result r).reserved h
    | placeholder owner name =>
      refine (Advances.findOrInsert fun _ {count} depth _ heq => ?_).reserved h
      refine not_mem_nestedPoisonKey count depth ?_
      rw [← heq, String.toList_append, String.toList_append]
      exact List.mem_append_left _ (List.mem_append_right _ List.mem_cons_self)
  | poison => exact Advances.newPoison.reserved h

/-- No step lowers the count of poison types. -/
theorem Step.poisons_le {names : Naming} (hs : Step names r r') : r.poisons ≤ r'.poisons := by
  cases hs with
  | register nominal named free =>
    obtain ⟨-, rfl⟩ := register_eq_ok free
    exact Nat.le_refl _
  | complete ty f hkey hkind => exact Nat.le_refl _
  | request q allowed =>
    rw [q.answer_eq, findOrInsert]
    split <;> exact Nat.le_refl _
  | poison => exact Nat.le_succ _

/-- Among the built-in types the keys are reserved. -/
theorem reserved_initial : initial.Reserved where
  keyed := legible_initial.keyed
  reserved {count} ty depth _ heq := by
    have hhead := head?_nestedPoisonKey count depth
    rw [← heq] at hhead
    by_cases hlt : ty.index < 7
    · have hall : ∀ i < 7, (initial.key ⟨i⟩).toList.head? ≠ some '<' := by decide +kernel
      exact hall ty.index hlt hhead
    · have hle : initial.size ≤ ty.index := Nat.le_of_not_lt hlt
      rw [key, definition_of_le hle] at hhead
      cases hhead

/-- In every registry that arises without such class names the keys are reserved. -/
theorem Reachable.reserved (h : Reachable .noPoison r) : r.Reserved := by
  induction h with
  | refl => exact reserved_initial
  | tail _ hs ih => exact ih.step hs

/-! ## Arrays of poison -/

/-- The type is `depth` array types around another. -/
inductive ArraysAround (r : Registry) (inner : TypeId) : ℕ → TypeId → Prop
  /-- There is nothing around it. -/
  | none : ArraysAround r inner 0 inner
  /-- An array type is around what there is. -/
  | array {depth : ℕ} {ty element : TypeId} (hkind : r.kind ty = .array element)
      (h : ArraysAround r inner depth element) : ArraysAround r inner (depth + 1) ty

/-- Arrays stay around a type. -/
theorem ArraysAround.extend {inner ty : TypeId} {depth : ℕ} (h : r.ArraysAround inner depth ty)
    (hx : r.Extends r') : r'.ArraysAround inner depth ty := by
  induction h with
  | none => exact .none
  | array hkind _ ih =>
    refine .array ?_ ih
    rw [hx.kind (lt_size_of_parts (mem_parts_of_array hkind))]
    exact hkind

/-- A poison type is registered. -/
theorem lt_size_of_isPoison {ty : TypeId} (h : r.isPoison ty = true) : ty.index < r.size := by
  refine Nat.lt_of_not_le fun hle => ?_
  rw [isPoison, kind, definition_of_le hle] at h
  exact absurd h (by decide)

/-- A poison type that has just been made. No type is found under its key with brackets behind
it. -/
structure JustMade (r : Registry) (poison : TypeId) : Prop where
  /-- It is a poison type. -/
  isPoison : r.isPoison poison = true
  /-- It has the last number. -/
  key : r.key poison = poisonKey r.poisons
  /-- There are no array types around it. -/
  bare : ∀ depth, r.find? (nestedPoisonKey r.poisons (depth + 1)) = none

/-- A new poison type has just been made. -/
theorem justMade_newPoison (h : r.Reserved) :
    (newPoison r).2.JustMade ⟨r.size⟩ := by
  have hlast : (newPoison r).2.definition ⟨r.size⟩ =
      { key := poisonKey (r.poisons + 1), display := "<error>", kind := .poison, parent := none } :=
    definition_insert_self (r := { r with poisons := r.poisons + 1 }) _
  refine ⟨decide_eq_true (congrArg TypeDef.kind hlast), congrArg TypeDef.key hlast,
    fun depth => ?_⟩
  have hne : nestedPoisonKey (r.poisons + 1) (depth + 1) ≠ nestedPoisonKey (r.poisons + 1) 0 :=
    fun heq => Nat.succ_ne_zero depth (nestedPoisonKey_inj heq).2
  change (newPoison r).2.find? (nestedPoisonKey (r.poisons + 1) (depth + 1)) = none
  rw [newPoison_apply, find?_insert]
  refine (if_neg hne).trans ?_
  refine Option.eq_none_iff_forall_ne_some.mpr fun ty hfind => ?_
  exact h.reserved ty _ (Nat.lt_succ_self _) (h.keyed hfind).2

end Registry

namespace Checker

variable {c : Checker} {α β : Type}

/-! ## Steps without a report -/

/-- Types may have been added, and nothing has been reported. -/
structure Calm (c c' : Checker) : Prop where
  /-- Types may have been added. -/
  types : c.types.Advances c'.types
  /-- The errors are the same. -/
  errors : c'.errors = c.errors

/-- The step does not report. -/
def Quiet (step : Checking α) : Prop := ∀ c : Checker, c.Calm (step c).2

namespace Quiet

/-- Answering is quiet. -/
theorem pure (a : α) : Quiet (Pure.pure a : Checking α) := fun _ => ⟨.refl, rfl⟩

/-- Looking is quiet. -/
theorem get : Quiet (MonadState.get : Checking Checker) := fun _ => ⟨.refl, rfl⟩

/-- Quiet steps one after the other are quiet. -/
theorem bind {first : Checking α} {next : α → Checking β} (hfirst : Quiet first)
    (hnext : ∀ a, Quiet (next a)) : Quiet (first >>= next) := fun c =>
  ⟨(hfirst c).types.trans (hnext _ _).types, (hnext _ _).errors.trans (hfirst c).errors⟩

/-- Adding types is quiet. -/
theorem registering {step : Registering α} (h : ∀ r : Registry, r.Advances (step r).2) :
    Quiet (Checker.registering step) := fun c => ⟨h c.types, rfl⟩

/-- Passing poison on is quiet. -/
theorem propagate (inputs : List TypeId) : Quiet (Checker.propagate inputs) := by
  unfold Checker.propagate
  refine .bind .get fun c => ?_
  dsimp only
  split
  · exact .pure _
  · split
    · exact .bind (.registering fun _ => .newPoison) fun _ => .pure _
    · exact .pure _

/-- Making array types is quiet. -/
theorem nestArrays (depth : ℕ) (ty : TypeId) : Quiet (Checker.nestArrays depth ty) := by
  induction depth generalizing ty with
  | zero => exact .pure ty
  | succ depth ih => exact .bind (.registering (Registry.Advances.allows.arrayOf ty)) ih

end Quiet

/-! ## How a check ends -/

/-- How a check that started with `c` ended: with no error, or with one and with a new poison type,
which the result is made of. -/
inductive Verdict (depth : ℕ) (c : Checker) (result : TypeId) (c' : Checker) : Prop
  /-- No error has been recorded. -/
  | quiet (types : c.types.Extends c'.types) (poisons : c.types.poisons ≤ c'.types.poisons)
      (errors : c'.errors = c.errors)
  /-- One error has been recorded. -/
  | reported {error : TypeError} {poison : TypeId} (types : c.types.Extends c'.types)
      (poisons : c.types.poisons < c'.types.poisons) (errors : c'.errors = c.errors ++ [error])
      (new : c.types.size ≤ poison.index) (isPoison : c'.types.isPoison poison = true)
      (around : c'.types.ArraysAround poison depth result)

/-- The check has such an end from every state, and leaves keys reserved. -/
def Checks (depth : ℕ) (result : α → TypeId) (step : Checking α) : Prop :=
  ∀ c, c.types.Reserved →
    Verdict depth c (result (step c).1) (step c).2 ∧ (step c).2.types.Reserved

/-- A report ends a check. -/
theorem verdict_report (error : TypeError) (c : Checker) :
    Verdict 0 c (report error c).1 (report error c).2 := by
  have hlast : (Registry.newPoison c.types).2.definition ⟨c.types.size⟩ = _ :=
    Registry.definition_insert_self (r := { c.types with poisons := c.types.poisons + 1 }) _
  exact .reported .newPoison (Nat.lt_succ_self _) rfl (Nat.le_refl _)
    (decide_eq_true (congrArg TypeDef.kind hlast)) .none

namespace Checks

variable {depth : ℕ} {result : α → TypeId}

/-- A check may end without a report. -/
theorem of_quiet {step : Checking α} (h : Quiet step) : Checks depth result step := fun c hc =>
  ⟨.quiet (h c).types.toExtends (h c).types.poisons (h c).errors, (h c).types.reserved hc⟩

/-- A check may begin with a step that does not report. -/
theorem bind {first : Checking β} {next : β → Checking α} (hfirst : Quiet first)
    (hnext : ∀ b, Checks depth result (next b)) : Checks depth result (first >>= next) := by
  intro c hc
  have hcalm := hfirst c
  obtain ⟨hverdict, hreserved⟩ := hnext (first c).1 (first c).2 (hcalm.types.reserved hc)
  refine ⟨?_, hreserved⟩
  cases hverdict with
  | quiet types poisons errors =>
    exact .quiet (hcalm.types.toExtends.trans types) (Nat.le_trans hcalm.types.poisons poisons)
      (errors.trans hcalm.errors)
  | reported types poisons errors new isPoison around =>
    exact .reported (hcalm.types.toExtends.trans types)
      (Nat.lt_of_le_of_lt hcalm.types.poisons poisons)
      (errors.trans (congrArg (· ++ [_]) hcalm.errors))
      (Nat.le_trans hcalm.types.size new) isPoison around

/-- A check may report, and then go on without a report from the new poison type to something made
of it. -/
theorem report_bind (error : TypeError) {next : TypeId → Checking α}
    (hquiet : ∀ poison, Quiet (next poison))
    (haround : ∀ {poison c}, Registry.JustMade c.types poison →
      (next poison c).2.types.ArraysAround poison depth (result (next poison c).1)) :
    Checks depth result (report error >>= next) := by
  intro c hc
  have hcalm := hquiet ⟨c.types.size⟩ (report error c).2
  have hmade : (report error c).2.types.JustMade ⟨c.types.size⟩ :=
    Registry.justMade_newPoison hc
  refine ⟨?_, hcalm.types.reserved (Registry.Advances.newPoison.reserved hc)⟩
  have hpoison : (next ⟨c.types.size⟩ (report error c).2).2.types.isPoison ⟨c.types.size⟩ := by
    rw [Registry.isPoison,
      hcalm.types.toExtends.kind (Registry.lt_size_of_isPoison hmade.isPoison)]
    exact hmade.isPoison
  exact .reported (Registry.Extends.newPoison.trans hcalm.types.toExtends)
    (Nat.lt_of_lt_of_le (Nat.lt_succ_self _) hcalm.types.poisons) hcalm.errors (Nat.le_refl _)
    hpoison (haround hmade)

/-- A check may end with a report. -/
theorem report (error : TypeError) : Checks 0 id (Checker.report error) := fun c hc =>
  ⟨verdict_report error c, Registry.Advances.newPoison.reserved hc⟩

end Checks

/-! ## The checks -/

/-- Array types are made around a poison type that has just been made. -/
theorem arraysAround_nestArrays {poison ty : TypeId} {count inner : ℕ}
    (hkey : c.types.key ty = nestedPoisonKey count inner)
    (hbare : ∀ depth, c.types.find? (nestedPoisonKey count (inner + depth + 1)) = none)
    (haround : c.types.ArraysAround poison inner ty) (depth : ℕ) :
    (nestArrays depth ty c).2.types.ArraysAround poison (inner + depth)
      (nestArrays depth ty c).1 := by
  induction depth generalizing c ty inner with
  | zero => exact haround
  | succ depth ih =>
    have hkey' : (c.types.arrayDef ty).key = nestedPoisonKey count (inner + 1) :=
      congrArg (· ++ "[]") hkey
    -- Nothing is found for the key of the array type, so that it is made.
    have hfind : c.types.find? (c.types.arrayDef ty).key = none := hkey'.symm ▸ hbare 0
    have hstep : Registry.arrayOf ty c.types =
        Registry.insert (c.types.arrayDef ty) c.types := by
      change Registry.findOrInsert (c.types.arrayDef ty) c.types = _
      rw [Registry.findOrInsert, hfind]
    have hnest : nestArrays (depth + 1) ty c = nestArrays depth ⟨c.types.size⟩
        { c with types := (Registry.insert (c.types.arrayDef ty) c.types).2 } := by
      change nestArrays depth (Registry.arrayOf ty c.types).1
        { c with types := (Registry.arrayOf ty c.types).2 } = _
      rw [hstep]
      rfl
    rw [hnest, ← Nat.succ_add_eq_add_succ]
    have hlast := Registry.definition_insert_self (r := c.types) (c.types.arrayDef ty)
    refine ih ((congrArg TypeDef.key hlast).trans hkey') (fun more => ?_) ?_
    · have hne : nestedPoisonKey count (inner + 1 + more + 1) ≠ (c.types.arrayDef ty).key := by
        rw [hkey']
        intro heq
        have := (nestedPoisonKey_inj heq).2
        omega
      rw [Registry.find?_insert, if_neg hne, show inner + 1 + more + 1 = inner + (more + 1) + 1 by
        omega]
      exact hbare (more + 1)
    · exact .array (congrArg TypeDef.kind hlast) (haround.extend (.insert _))

/-- Resolving a name. -/
theorem checks_resolveTypeName (name : String) (loc : Location) :
    Checks (splitBrackets name).2 id (resolveTypeName name loc) := by
  unfold resolveTypeName
  refine .bind .get fun c => ?_
  split
  · exact .of_quiet (.nestArrays _ _)
  · refine .report_bind _ (fun poison => .nestArrays _ poison) fun {poison c} hmade => ?_
    have hkey : c.types.key poison = nestedPoisonKey c.types.poisons 0 := hmade.key
    have hbare : ∀ depth,
        c.types.find? (nestedPoisonKey c.types.poisons (0 + depth + 1)) = none := by
      intro depth
      rw [Nat.zero_add]
      exact hmade.bare depth
    have haround := arraysAround_nestArrays hkey hbare .none (splitBrackets name).2
    rwa [Nat.zero_add] at haround

/-- Checking an assignment. -/
theorem checks_checkAssignment (value target : TypeId) (origin : Origin) :
    Checks 0 id (checkAssignment value target origin) := by
  unfold checkAssignment
  refine .bind (.propagate _) fun poison => ?_
  split
  · exact .of_quiet (.pure target)
  · refine .bind .get fun c => ?_
    dsimp only
    split
    · exact .of_quiet (.pure target)
    · exact .report _

/-- Checking a call. -/
theorem checks_checkCall (m : MethodRef) (args : List TypeId) (loc : Location) :
    Checks 0 CallCheck.result (checkCall m args loc) := by
  have hsubstitute : ∀ values ty (r : Registry), r.Advances (Registry.substitute values ty r).2 :=
    fun values ty r => Registry.Advances.allows.substituteWithin values r.size ty
  unfold checkCall
  refine .bind .get fun c => ?_
  dsimp only
  split
  · exact .report_bind _ (fun _ => .pure _) fun _ => .none
  · split
    · exact .of_quiet (.bind (.registering (hsubstitute _ _)) fun _ => .pure _)
    · refine .bind (.registering (hsubstitute _ _)) fun expected => .bind .get fun c => ?_
      exact .report_bind _ (fun _ => .pure _) fun _ => .none

/-- Checking a member. -/
theorem checks_checkMember (object : TypeId) (member : String) (loc : Location) :
    Checks 0 id (checkMember object member loc) := by
  unfold checkMember
  refine .bind .get fun c => ?_
  dsimp only
  split
  · exact .of_quiet (.pure object)
  split
  · exact .of_quiet (.pure _)
  split
  · exact .of_quiet (.registering fun _ => Registry.Advances.allows.methodType _)
  refine .bind (.propagate _) fun poison => ?_
  split
  · exact .of_quiet (.pure _)
  · exact .report _

/-- Checking a binary operation. -/
theorem checks_checkBinary (op : BinaryOp) (lhs rhs : TypeId) (loc : Location) :
    Checks 0 id (checkBinary op lhs rhs loc) := by
  unfold checkBinary
  refine .bind (.propagate _) fun poison => ?_
  split
  · exact .of_quiet (.pure _)
  split
  · split
    · exact .of_quiet (.pure _)
    · exact .bind .get fun c => .report _
  · exact .bind .get fun c => .report _

/-- Checking a unary operation. -/
theorem checks_checkUnary (op : UnaryOp) (operand : TypeId) (loc : Location) :
    Checks 0 id (checkUnary op operand loc) := by
  unfold checkUnary
  split
  · exact .of_quiet (.pure _)
  refine .bind (.propagate _) fun poison => ?_
  split
  · exact .of_quiet (.pure _)
  split
  · exact .of_quiet (.pure _)
  · exact .bind .get fun c => .report _

/-- Declaring a class, whatever its name is. -/
theorem verdict_declareClass (name : String) (parent : Option TypeId) (loc : Location)
    (c : Checker) : Verdict 0 c (declareClass name parent loc c).1
      (declareClass name parent loc c).2 := by
  unfold declareClass
  simp only [bind, StateT.bind, get, getThe, MonadStateOf.get, StateT.get, pure]
  cases hdeclare : c.types.declareClass name parent with
  | ok declared =>
    obtain ⟨ty, types⟩ := declared
    obtain ⟨-, rfl⟩ := Registry.register_eq_ok hdeclare
    exact .quiet (.insert _) (Nat.le_refl _) rfl
  | error e =>
    cases e with
    | duplicate name => exact verdict_report _ c
    | notFound name => exact verdict_report _ c

/-- Declaring a class whose name does not begin as the keys of poison types do leaves keys
reserved. -/
theorem reserved_declareClass {name : String} (hname : Naming.noPoison.cls name)
    (parent : Option TypeId) (loc : Location) (hc : c.types.Reserved) :
    (declareClass name parent loc c).2.types.Reserved := by
  unfold declareClass
  simp only [bind, StateT.bind, get, getThe, MonadStateOf.get, StateT.get, pure]
  cases hdeclare : c.types.declareClass name parent with
  | ok declared =>
    obtain ⟨ty, types⟩ := declared
    exact hc.step (.register rfl hname hdeclare)
  | error e =>
    cases e with
    | duplicate name => exact Registry.Advances.newPoison.reserved hc
    | notFound name => exact Registry.Advances.newPoison.reserved hc

end Checker

/-! ## Sites -/

/-- What is checked. -/
inductive Site where
  /-- A written type name. -/
  | typeName (name : String) (loc : Location)
  /-- The declaration of a class. -/
  | declaration (name : String) (parent : Option TypeId) (loc : Location)
  /-- A value that flows into a slot. -/
  | assignment (value target : TypeId) (origin : Origin)
  /-- A result, and the type declared for it. -/
  | result (value declared : TypeId) (loc : Location)
  /-- A call. -/
  | call (m : MethodRef) (args : List TypeId) (loc : Location)
  /-- The use of a member. -/
  | member (object : TypeId) (name : String) (loc : Location)
  /-- A binary operation. -/
  | binary (op : BinaryOp) (lhs rhs : TypeId) (loc : Location)
  /-- A unary operation. -/
  | unary (op : UnaryOp) (operand : TypeId) (loc : Location)

namespace Site

/-- The check of a site, which answers the site's type. -/
def check : Site → Checking TypeId
  | typeName name loc => Checker.resolveTypeName name loc
  | declaration name parent loc => Checker.declareClass name parent loc
  | assignment value target origin => Checker.checkAssignment value target origin
  | result value declared loc => Checker.checkResult value declared loc
  | call m args loc => return (← Checker.checkCall m args loc).result
  | member object name loc => Checker.checkMember object name loc
  | binary op lhs rhs loc => Checker.checkBinary op lhs rhs loc
  | unary op operand loc => Checker.checkUnary op operand loc

/-- The number of array types that are written around a site's type. -/
def brackets : Site → ℕ
  | typeName name _ => (splitBrackets name).2
  | _ => 0

/-- A class that is declared has a name that does not begin as the keys of poison types do. -/
def Named : Site → Prop
  | declaration name _ _ => Naming.noPoison.cls name
  | _ => True

end Site

/-- A written name is its base with as many pairs of brackets behind it as are counted, and the
base has no pair at its end. -/
theorem splitBrackets_spec (name : String) :
    name.toList = (splitBrackets name).1.toList ++
        (List.replicate (splitBrackets name).2 ['[', ']']).flatten ∧
      ¬ ['[', ']'] <:+ (splitBrackets name).1.toList := by
  have hgo : ∀ text : List Char, text.reverse = (splitBrackets.go text).1.toList ++
        (List.replicate (splitBrackets.go text).2 ['[', ']']).flatten ∧
      ¬ ['[', ']'] <:+ (splitBrackets.go text).1.toList := by
    intro text
    fun_induction splitBrackets.go text with
    | case1 rest ih =>
      refine ⟨?_, ih.2⟩
      rw [List.replicate_succ', List.flatten_append, ← List.append_assoc, ← ih.1]
      simp
    | case2 text hend =>
      refine ⟨by simp, ?_⟩
      rintro ⟨before, hbefore⟩
      have htext : text = ']' :: '[' :: before.reverse := by
        simpa using (congrArg List.reverse hbefore).symm
      exact hend _ htext
  have hname := hgo name.toList.reverse
  rwa [List.reverse_reverse] at hname

namespace Checker

variable {c : Checker}

/-- The checkers that arise: one that has found nothing yet, and what becomes of it when the
registry is changed or a site is checked. No class is declared under a name that begins as the keys
of poison types do. -/
inductive Arises : Checker → Prop
  /-- Nothing has been checked. -/
  | start {r : Registry} (h : Registry.Reachable .noPoison r) : Arises (ofTypes r)
  /-- Something is done to the registry. -/
  | step {c : Checker} {r : Registry} (h : Arises c) (hs : Registry.Step .noPoison c.types r) :
      Arises { c with types := r }
  /-- A site is checked. -/
  | check {c : Checker} (h : Arises c) (site : Site) (named : site.Named) :
      Arises (site.check c).2

/-- Every check has one of the two ends. It leaves keys reserved if it declares no class that begins
as they do. -/
theorem verdict_check (hc : c.types.Reserved) (site : Site) :
    Verdict site.brackets c (site.check c).1 (site.check c).2 ∧
      (site.Named → (site.check c).2.types.Reserved) := by
  cases site with
  | typeName name loc => exact (checks_resolveTypeName name loc c hc).imp_right fun h _ => h
  | declaration name parent loc =>
    exact ⟨verdict_declareClass name parent loc c,
      fun named => reserved_declareClass named parent loc hc⟩
  | assignment value target origin =>
    exact (checks_checkAssignment value target origin c hc).imp_right fun h _ => h
  | result value declared loc =>
    exact (checks_checkAssignment value declared _ c hc).imp_right fun h _ => h
  | call m args loc => exact (checks_checkCall m args loc c hc).imp_right fun h _ => h
  | member object name loc => exact (checks_checkMember object name loc c hc).imp_right fun h _ => h
  | binary op lhs rhs loc => exact (checks_checkBinary op lhs rhs loc c hc).imp_right fun h _ => h
  | unary op operand loc => exact (checks_checkUnary op operand loc c hc).imp_right fun h _ => h

/-- However a check ends, there are no more errors than poison types if there were no more
before. -/
theorem Verdict.errors_le {depth : ℕ} {result : TypeId} {c' : Checker}
    (h : Verdict depth c result c') (hc : c.errors.length ≤ c.types.poisons) :
    c'.errors.length ≤ c'.types.poisons := by
  cases h with
  | quiet _ poisons errors =>
    rw [errors]
    exact Nat.le_trans hc poisons
  | reported _ poisons errors _ _ _ =>
    rw [errors, List.length_append]
    exact Nat.le_trans (Nat.succ_le_succ hc) poisons

/-- In every checker that arises the keys are reserved, and there are no more errors than poison
types. -/
theorem Arises.sound (h : Arises c) : c.types.Reserved ∧ c.errors.length ≤ c.types.poisons := by
  induction h with
  | start h => exact ⟨h.reserved, Nat.zero_le _⟩
  | step _ hs ih => exact ⟨ih.1.step hs, Nat.le_trans ih.2 hs.poisons_le⟩
  | check _ site named ih =>
    obtain ⟨hverdict, hreserved⟩ := verdict_check ih.1 site
    exact ⟨hreserved named, hverdict.errors_le ih.2⟩

/-- **One report, one poison type.** A check leaves the types that are there as they are. It records
no error, or one, and then its result is a poison type that it has registered itself; for a name
with brackets behind it, the array types that are written around such a poison type. There are never
more errors than poison types. -/
theorem reports_paired (h : Arises c) (site : Site) :
    c.types.Extends (site.check c).2.types ∧
      ((site.check c).2.errors = c.errors ∨
        ∃ error poison, (site.check c).2.errors = c.errors ++ [error] ∧
          c.types.size ≤ poison.index ∧ poison.index < (site.check c).2.types.size ∧
          (site.check c).2.types.isPoison poison = true ∧
          (site.check c).2.types.ArraysAround poison site.brackets (site.check c).1) ∧
      (site.check c).2.errors.length ≤ (site.check c).2.types.poisons := by
  obtain ⟨hreserved, hle⟩ := h.sound
  have hverdict := (verdict_check hreserved site).1
  refine ⟨?_, ?_, hverdict.errors_le hle⟩
  · cases hverdict with
    | quiet types | reported types => exact types
  · cases hverdict with
    | quiet _ _ errors => exact .inl errors
    | reported _ _ errors new isPoison around =>
      exact .inr ⟨_, _, errors, new, Registry.lt_size_of_isPoison isPoison, isPoison, around⟩

/-- The second of two unknown names is reported with a poison type of its own, and its brackets are
two array types around it. -/
theorem reports_paired_unknown :
    let c := (Site.check (.typeName "Nope" ⟨none, ⟨0, 4⟩⟩) (ofTypes .initial)).2
    let site := Site.typeName "Nada[][]" ⟨none, ⟨6, 14⟩⟩
    Arises c ∧ (site.check c).2.errors = c.errors ++ [.unknownType "Nada" ⟨none, ⟨6, 14⟩⟩] ∧
      ∃ poison, c.types.size ≤ poison.index ∧ (site.check c).2.types.isPoison poison = true ∧
        (site.check c).2.types.ArraysAround poison 2 (site.check c).1 := by
  intro c site
  have harises : Arises c := .check (.start .refl) _ trivial
  have herrors : (site.check c).2.errors = c.errors ++ [.unknownType "Nada" ⟨none, ⟨6, 14⟩⟩] := by
    decide +kernel
  obtain ⟨-, hreport, -⟩ := reports_paired harises site
  rcases hreport with hsame | ⟨error, poison, -, hnew, -, hpoison, haround⟩
  · rw [hsame] at herrors
    simp at herrors
  · exact ⟨harises, herrors, poison, hnew, hpoison, haround⟩

end Checker

end ObjectGraph
