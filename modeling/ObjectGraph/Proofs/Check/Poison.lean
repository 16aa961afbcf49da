import ObjectGraph.Proofs.Check.Inference

/-!
# Poison keeps checks silent

Poison stands for a type whose cause of failure has been reported, so that nothing more is to be
said where it occurs. A check that looks for poison among its inputs first says nothing if there is
some at any depth (`propagate_eq`). A call looks for it in the arguments only. An argument without
poison is compared with its parameter, and poison in the parameter's type is met where the
comparison comes to it: two types that are equal up to poison are accepted
(`Coherent.infer_of_sameUpToPoison`), whereas one whose form is another than the parameter's is
reported (`poisoned_parameter_reported`).

What this comes to for all checks is `poison_contained`.
-/

namespace ObjectGraph

namespace Registry

/-- At each position of their shapes, the types are equal or one of them is poison. -/
inductive SameUpToPoison (r : Registry) : TypeId → TypeId → Prop
  | refl {ty : TypeId} : SameUpToPoison r ty ty
  | poison {source target : TypeId} (h : r.isPoison source = true ∨ r.isPoison target = true) :
      SameUpToPoison r source target
  | array {source target s t : TypeId} (hs : r.kind source = .array s)
      (ht : r.kind target = .array t) (h : SameUpToPoison r s t) : SameUpToPoison r source target
  | function {source target s t : TypeId} {ss ts : List TypeId}
      (hs : r.kind source = .function ss s) (ht : r.kind target = .function ts t)
      (length : ss.length = ts.length)
      (params : ∀ pair ∈ ss.zip ts, SameUpToPoison r pair.1 pair.2)
      (result : SameUpToPoison r s t) : SameUpToPoison r source target

variable {r : Registry} {source target : TypeId} {b : Bindings}

/-! ## Comparing -/

/-- Equal types and poison are accepted at once, whatever is inferred. -/
theorem assignableWithin_of_poison {fuel : ℕ}
    (h : source = target ∨ r.isPoison source = true ∨ r.isPoison target = true) :
    r.assignableWithin (fuel + 1) source target b = (true, b) := by
  rw [assignableWithin, if_pos]
  simp only [Bool.or_eq_true, decide_eq_true_eq]
  rcases h with h | h | h
  · exact .inl (.inl (.inl h))
  · exact .inl (.inl (.inr h))
  · exact .inl (.inr h)

/-- What is built from parts is none of the placeholders that are inferred. -/
theorem isInferable_of_parts {p : TypeId} (hb : ∀ g ∈ b.params, r.kind g = .placeholder)
    (hp : p ∈ (r.kind source).parts) : b.isInferable source = false := by
  refine Bool.eq_false_iff.mpr fun hmem => ?_
  rw [hb source (List.contains_iff_mem.mp hmem)] at hp
  cases hp

/-- Types that are equal up to poison are accepted, and nothing is inferred from them. -/
theorem Coherent.assignableWithin_of_sameUpToPoison (hr : r.Coherent)
    (hb : ∀ g ∈ b.params, r.kind g = .placeholder) (h : r.SameUpToPoison source target)
    (hs : source.index < r.size) {fuel : ℕ} (hfuel : source.index < fuel) :
    r.assignableWithin fuel source target b = (true, b) := by
  induction h generalizing fuel with
  | refl =>
    obtain ⟨fuel, rfl⟩ := Nat.exists_eq_add_of_lt hfuel
    exact assignableWithin_of_poison (.inl rfl)
  | poison h =>
    obtain ⟨fuel, rfl⟩ := Nat.exists_eq_add_of_lt hfuel
    exact assignableWithin_of_poison (.inr h)
  | @array source target s t hkind hkind' _ ih =>
    obtain ⟨fuel, rfl⟩ := Nat.exists_eq_add_of_lt hfuel
    have hmem := mem_parts_of_array hkind
    have hmem' := mem_parts_of_array hkind'
    have hpart : s.index < source.index := hr.parts hs s hmem
    rw [assignableWithin]
    split
    · rfl
    · -- A type with parts is no placeholder to be inferred, so that the parts are compared.
      simp only [isInferable_of_parts hb hmem, isInferable_of_parts hb hmem', Bool.false_eq_true,
        if_false, hkind, hkind']
      exact ih (Nat.lt_trans hpart hs) (by omega)
  | @function source target s t ss ts hkind hkind' length _ _ ihparams ihresult =>
    obtain ⟨fuel, rfl⟩ := Nat.exists_eq_add_of_lt hfuel
    have hmem := mem_parts_of_function hkind s List.mem_cons_self
    have hmem' := mem_parts_of_function hkind' t List.mem_cons_self
    have hparts : ∀ p ∈ s :: ss, p.index < source.index :=
      fun p hp => hr.parts hs p (mem_parts_of_function hkind p hp)
    have hall : allPairs (r.assignableWithin (source.index + fuel)) ss ts b = (true, b) := by
      refine allPairs_eq length fun pair hpair => ?_
      have hpart := hparts _ (List.mem_cons_of_mem _ (List.of_mem_zip hpair).1)
      exact ihparams pair hpair (Nat.lt_trans hpart hs) (by omega)
    have hresult := hparts s List.mem_cons_self
    rw [assignableWithin]
    split
    · rfl
    · simp only [isInferable_of_parts hb hmem, isInferable_of_parts hb hmem', Bool.false_eq_true,
        if_false, hkind, hkind', length, ne_eq, not_true, hall]
      exact ihresult (Nat.lt_trans hresult hs) (by omega)

/-- Inference accepts types that are equal up to poison. -/
theorem Coherent.infer_of_sameUpToPoison (hr : r.Coherent)
    (hb : ∀ g ∈ b.params, r.kind g = .placeholder) (h : r.SameUpToPoison source target)
    (hs : source.index < r.size) : r.infer source target b = (true, b) := by
  rw [infer]
  exact hr.assignableWithin_of_sameUpToPoison hb h hs (by omega)

end Registry

/-! ## What comparisons do to bindings -/

namespace Bindings

/-- A relation of bindings that allows for comparisons: it holds of steps one after the other, and
of what linking and binding make of bindings that are related to themselves. -/
structure Allows (R : Bindings → Bindings → Prop) : Prop where
  /-- Whatever has been arrived at is related to itself. -/
  keeps : ∀ {b b'}, R b b' → R b' b'
  /-- One step may follow another. -/
  trans : ∀ {b b' b''}, R b b' → R b' b'' → R b b''
  /-- Two placeholders may be linked. -/
  link : ∀ {b} p q, R b b → R b (b.link p q).2
  /-- A placeholder without a type may be bound. -/
  bind : ∀ {b p} ty, R b b → b.value? p = none → R b (b.bind p ty)

namespace Allows

variable {R : Bindings → Bindings → Prop} (hR : Allows R) {b : Bindings}

include hR

/-- Pairs may be compared if each comparison is allowed. -/
theorem allPairs {test : TypeId → TypeId → Bindings → Bool × Bindings}
    (htest : ∀ s t b, R b b → R b (test s t b).2) {ss ts : List TypeId} (h : R b b) :
    R b (ObjectGraph.allPairs test ss ts b).2 := by
  induction ss generalizing ts b with
  | nil => cases ts <;> exact h
  | cons s ss ih =>
    cases ts with
    | nil => exact h
    | cons t ts =>
      -- The other pairs are compared only if the first one is accepted.
      have hfirst := htest s t b h
      rw [ObjectGraph.allPairs]
      rcases hstep : test s t b with ⟨accepted, b'⟩
      rw [hstep] at hfirst
      cases accepted with
      | false => exact hfirst
      | true => exact hR.trans hfirst (ih (hR.keeps hfirst))

/-- Types may be compared, whether or not they are accepted. -/
theorem assignableWithin (r : Registry) (fuel : ℕ) (source target : TypeId) (h : R b b) :
    R b (r.assignableWithin fuel source target b).2 := by
  induction fuel generalizing source target b with
  | zero => exact h
  | succ fuel ih =>
    rw [Registry.assignableWithin]
    split
    · exact h
    split
    · -- A target that is inferred is linked, is compared by its type, or is bound.
      split
      · exact hR.link source target h
      cases hvalue : b.value? target with
      | some bound => exact h
      | none => exact hR.bind source h hvalue
    split
    · cases b.value? source with
      | some bound => exact ih bound target h
      | none => exact h
    split
    · exact ih _ _ h
    case h_2 ss s ts t _ _ =>
      split
      · exact h
      -- The results are compared only if the parameters are accepted.
      have hparams : R b (ObjectGraph.allPairs (r.assignableWithin fuel) ss ts b).2 :=
        hR.allPairs (fun s t _ h => ih s t h) h
      rcases hstep : ObjectGraph.allPairs (r.assignableWithin fuel) ss ts b with ⟨accepted, b'⟩
      rw [hstep] at hparams
      cases accepted with
      | false => exact hparams
      | true => exact hR.trans hparams (ih s t (hR.keeps hparams))
    · exact h

end Allows

/-- Linking placeholders leaves those to be inferred that are. -/
theorem params_link (b : Bindings) (p q : TypeId) : (b.link p q).2.params = b.params := by
  unfold Bindings.link
  split
  · split
    · rfl
    · split <;> rfl
  · rfl

/-- Comparisons leave those placeholders to be inferred that are. -/
theorem allows_sameParams : Allows fun b b' => b'.params = b.params where
  keeps _ := rfl
  trans h h' := h'.trans h
  link p q _ := params_link _ p q
  bind _ _ _ := rfl

end Bindings

namespace Registry

variable {r : Registry}

/-- The argument that a call fails at is without poison, and its comparison with its parameter has
failed. -/
theorem exists_of_inferArgs_error {index : ℕ} {pairs : List (TypeId × TypeId)} {b : Bindings}
    {fault : ArgumentFault} (h : r.inferArgs index pairs b = .error fault) :
    ∃ i, fault.index = index + i ∧ pairs[i]? = some (fault.arg, fault.param) ∧
      r.containsPoison fault.arg = false ∧
      ∃ b', b'.params = b.params ∧ (r.infer fault.arg fault.param b').1 = false := by
  induction pairs generalizing index b with
  | nil => cases h
  | cons pair pairs ih =>
    obtain ⟨arg, param⟩ := pair
    have hlater {b₁} (hb₁ : b₁.params = b.params)
        (h : r.inferArgs (index + 1) pairs b₁ = .error fault) :
        ∃ i, fault.index = index + i ∧ ((arg, param) :: pairs)[i]? = some (fault.arg, fault.param) ∧
          r.containsPoison fault.arg = false ∧
          ∃ b', b'.params = b.params ∧ (r.infer fault.arg fault.param b').1 = false := by
      obtain ⟨i, hindex, hpair, hclean, b', hb', hinfer⟩ := ih h
      exact ⟨i + 1, by omega, hpair, hclean, b', hb'.trans hb₁, hinfer⟩
    rw [inferArgs] at h
    split at h
    · exact hlater rfl h
    · rename_i hclean
      have hparams : (r.assignableWithin (3 * r.size + 3) arg param b).2.params = b.params :=
        Bindings.allows_sameParams.assignableWithin r _ arg param rfl
      split at h
      · rename_i b' hinfer
        rw [← infer, hinfer] at hparams
        exact hlater hparams h
      · rename_i b' hinfer
        obtain rfl := Except.error.inj h
        exact ⟨0, rfl, rfl, Bool.eq_false_iff.mpr hclean, b, rfl, by rw [hinfer]⟩

end Registry

namespace Checker

variable {c : Checker}

/-! ## Checks that look for poison first -/

/-- The step finds no error. -/
def Silent {α : Type} (step : Checking α) (c : Checker) : Prop := (step c).2.errors = c.errors

instance {α : Type} {step : Checking α} {c : Checker} : Decidable (Silent step c) :=
  inferInstanceAs (Decidable ((step c).2.errors = c.errors))

/-- A site with poison among its inputs, at any depth, gets a poison type. -/
theorem propagate_eq {inputs : List TypeId}
    (h : ∃ ty ∈ inputs, c.types.containsPoison ty = true) :
    ∃ poison c', propagate inputs c = (some poison, c') ∧ c'.errors = c.errors := by
  have hany : inputs.any c.types.containsPoison = true := List.any_eq_true.mpr h
  unfold propagate
  simp only [bind, StateT.bind, get, getThe, MonadStateOf.get, StateT.get, pure, hany, if_true]
  cases inputs.find? c.types.isPoison with
  | some poison => exact ⟨poison, c, rfl, rfl⟩
  | none => exact ⟨_, _, rfl, rfl⟩

/-- An assignment with poison in it. -/
theorem silent_checkAssignment {value target : TypeId} (origin : Origin)
    (h : c.types.containsPoison value = true ∨ c.types.containsPoison target = true) :
    Silent (checkAssignment value target origin) c := by
  have hin : ∃ ty ∈ [value, target], c.types.containsPoison ty = true := by simpa using h
  obtain ⟨poison, c', hpropagate, herrors⟩ := propagate_eq hin
  unfold Silent checkAssignment
  simp only [bind, StateT.bind, hpropagate]
  exact herrors

/-- A member of a type with poison in it. -/
theorem silent_checkMember {object : TypeId} (member : String) (loc : Location)
    (h : c.types.containsPoison object = true) : Silent (checkMember object member loc) c := by
  have hin : ∃ ty ∈ [object], c.types.containsPoison ty = true := by simpa using h
  obtain ⟨poison, c', hpropagate, herrors⟩ := propagate_eq hin
  unfold Silent checkMember
  simp only [bind, StateT.bind, get, getThe, MonadStateOf.get, StateT.get, pure]
  by_cases hpoison : c.types.isPoison object = true
  · rw [if_pos hpoison]
    rfl
  · rw [if_neg hpoison]
    cases c.types.findProperty object member with
    | some found => rfl
    | none =>
      cases c.types.findMethod object member with
      | some method => rfl
      | none =>
        simp only [StateT.bind, hpropagate]
        exact herrors

/-- A binary operation on a type with poison in it. -/
theorem silent_checkBinary {lhs rhs : TypeId} (op : BinaryOp) (loc : Location)
    (h : c.types.containsPoison lhs = true ∨ c.types.containsPoison rhs = true) :
    Silent (checkBinary op lhs rhs loc) c := by
  have hin : ∃ ty ∈ [lhs, rhs], c.types.containsPoison ty = true := by simpa using h
  obtain ⟨poison, c', hpropagate, herrors⟩ := propagate_eq hin
  unfold Silent checkBinary
  simp only [bind, StateT.bind, hpropagate]
  exact herrors

/-- A unary operation on a type with poison in it. -/
theorem silent_checkUnary {operand : TypeId} (op : UnaryOp) (loc : Location)
    (h : c.types.containsPoison operand = true) : Silent (checkUnary op operand loc) c := by
  have hin : ∃ ty ∈ [operand], c.types.containsPoison ty = true := by simpa using h
  obtain ⟨poison, c', hpropagate, herrors⟩ := propagate_eq hin
  unfold Silent checkUnary
  split
  · rfl
  · simp only [bind, StateT.bind, hpropagate]
    exact herrors

/-! ## Calls -/

/-- The argument at a position has no poison in it, and differs from its parameter by more than
poison. -/
def Misfit (r : Registry) (params : List Param) (args : List TypeId) (i : ℕ) : Prop :=
  ∃ arg param, args[i]? = some arg ∧ params[i]? = some param ∧ r.containsPoison arg = false ∧
    ¬ r.SameUpToPoison arg param.ty

/-- A call with as many arguments as parameters finds no error, or reports an argument that differs
from its parameter by more than poison. -/
theorem errors_checkCall {m : MethodRef} {args : List TypeId} (loc : Location)
    (hcoherent : c.types.Coherent) (hsignature : (c.types.method m).Signature c.types)
    (hargs : ∀ arg ∈ args, arg.index < c.types.size)
    (hlength : (c.types.method m).params.length = args.length) :
    Silent (checkCall m args loc) c ∨
      ∃ i expected found, Misfit c.types (c.types.method m).params args i ∧
        (checkCall m args loc c).2.errors =
          c.errors ++ [.mismatch expected found (.argument loc i)] := by
  have hlength' : ((c.types.method m).params.map (·.ty)).length = args.length := by
    rw [List.length_map, hlength]
  unfold Silent checkCall
  simp only [bind, StateT.bind, get, getThe, MonadStateOf.get, StateT.get, pure, hlength',
    ne_eq, not_true, if_false]
  cases hinfer : c.types.inferArgs 0 (args.zip ((c.types.method m).params.map (·.ty)))
      (.ofParams (c.types.method m).generics) with
  | ok b => exact .inl rfl
  | error fault =>
    obtain ⟨i, hindex, hpair, hclean, b, hb, hfails⟩ := Registry.exists_of_inferArgs_error hinfer
    obtain ⟨harg, hparam⟩ := List.getElem?_zip_eq_some.mp hpair
    rw [List.getElem?_map] at hparam
    obtain ⟨param, hparam, htype⟩ := Option.map_eq_some_iff.mp hparam
    obtain rfl : fault.index = i := hindex.trans (Nat.zero_add i)
    refine .inr ⟨fault.index, _, _, ⟨fault.arg, param, harg, hparam, hclean, fun hsame => ?_⟩, rfl⟩
    -- Inference would have accepted the argument.
    have hgenerics : ∀ g ∈ b.params, c.types.kind g = .placeholder := by
      rw [hb]
      exact hsignature.generics
    have hinfers := hcoherent.infer_of_sameUpToPoison hgenerics hsame
      (hargs _ (List.mem_of_getElem? harg))
    rw [htype] at hinfers
    rw [hinfers] at hfails
    cases hfails

/-- **Poison keeps checks silent.** An assignment, a result, a member, a binary or a unary operation
with poison at any depth of any input finds no error. A call with as many arguments as parameters
reports one argument at most, and that one has no poison in it and differs from its parameter by
more than poison. -/
theorem poison_contained (hreachable : Registry.Reachable .free c.types) (loc : Location) :
    (∀ value target origin,
      c.types.containsPoison value = true ∨ c.types.containsPoison target = true →
      Silent (checkAssignment value target origin) c) ∧
    (∀ value declared,
      c.types.containsPoison value = true ∨ c.types.containsPoison declared = true →
      Silent (checkResult value declared loc) c) ∧
    (∀ object member, c.types.containsPoison object = true →
      Silent (checkMember object member loc) c) ∧
    (∀ op lhs rhs, c.types.containsPoison lhs = true ∨ c.types.containsPoison rhs = true →
      Silent (checkBinary op lhs rhs loc) c) ∧
    (∀ op operand, c.types.containsPoison operand = true →
      Silent (checkUnary op operand loc) c) ∧
    ∀ m args, (c.types.method m).Signature c.types → (∀ arg ∈ args, arg.index < c.types.size) →
      (c.types.method m).params.length = args.length →
      Silent (checkCall m args loc) c ∨
        ∃ i expected found, Misfit c.types (c.types.method m).params args i ∧
          (checkCall m args loc c).2.errors =
            c.errors ++ [.mismatch expected found (.argument loc i)] :=
  ⟨fun _ _ origin => silent_checkAssignment origin, fun _ _ => silent_checkAssignment _,
    fun _ member => silent_checkMember member loc, fun op _ _ => silent_checkBinary op loc,
    fun op _ => silent_checkUnary op loc,
    fun _ _ => errors_checkCall loc hreachable.coherent⟩

end Checker

/-! ## A parameter with poison in it -/

namespace Registry

/-- A class `Main` with a method `m(x: <error>[])`. The poison type, the array type of it and
`int[]` are the types after the class. -/
def withPoisoned : Registry :=
  let r := (insert (.plain "Main" .nominal (some .any)) initial).2
  let r := (arrayOf .int (arrayOf ⟨8⟩ (newPoison r).2).2).2
  r.defineClass .main { methods := [{
    name := "m"
    params := [⟨"x", ⟨9⟩⟩]
    generics := []
    result := .int
    body := none
    declaring := .main }] }

/-- The registry arises. -/
theorem reachable_withPoisoned : Reachable .free withPoisoned :=
  ((((Relation.ReflTransGen.refl.tail
    (.register (d := .plain "Main" .nominal (some .any)) rfl trivial rfl)).tail
    .poison).tail
    (.request (.array ⟨8⟩) ⟨by decide, by rintro _ _ ⟨⟩⟩)).tail
    (.request (.array .int) ⟨by decide, by rintro _ _ ⟨⟩⟩)).tail
    (.complete .main _ (fun _ => rfl) (fun _ => rfl))

end Registry

namespace Checker

/-- Assigning an integer to `<error>[]` finds no error, nor does passing `int[]` for it. -/
theorem poison_contained_array :
    let c := ofTypes Registry.withPoisoned
    Silent (checkAssignment .int ⟨9⟩ (.assignment ⟨none, ⟨0, 1⟩⟩)) c ∧
      Silent (checkCall ⟨.main, 0⟩ [⟨10⟩] ⟨none, ⟨0, 1⟩⟩) c := by
  obtain ⟨hassign, -, -, -, -, hcall⟩ := @poison_contained (ofTypes Registry.withPoisoned)
    Registry.reachable_withPoisoned ⟨none, ⟨0, 1⟩⟩
  refine ⟨hassign .int ⟨9⟩ _ (.inr (by decide +kernel)), ?_⟩
  refine (hcall ⟨.main, 0⟩ [⟨10⟩] ⟨by decide +kernel, by decide +kernel, by decide +kernel⟩
    (by decide +kernel) (by decide +kernel)).resolve_right ?_
  rintro ⟨i, expected, found, ⟨arg, param, harg, hparam, -, hdiffers⟩, -⟩
  have hparams : (Registry.withPoisoned.method ⟨.main, 0⟩).params = [⟨"x", ⟨9⟩⟩] := by
    decide +kernel
  rw [ofTypes, hparams] at hparam
  cases i with
  | succ i => cases harg
  | zero =>
    obtain rfl := Option.some.inj harg
    obtain rfl := Option.some.inj hparam
    exact hdiffers (.array (show _ = TypeKind.array .int by decide +kernel)
      (show _ = TypeKind.array ⟨8⟩ by decide +kernel) (.poison (.inr (by decide +kernel))))

/-- Passing an integer for `<error>[]` is reported, although the parameter's type has poison in
it. -/
theorem poisoned_parameter_reported :
    let c := ofTypes Registry.withPoisoned
    let call := checkCall ⟨.main, 0⟩ [.int] ⟨none, ⟨0, 1⟩⟩ c
    Registry.Reachable .free c.types ∧
      (c.types.method ⟨.main, 0⟩).params = [⟨"x", ⟨9⟩⟩] ∧ c.types.containsPoison ⟨9⟩ = true ∧
      call.2.errors = [.mismatch "<error>[]" "int" (.argument ⟨none, ⟨0, 1⟩⟩ 0)] :=
  ⟨Registry.reachable_withPoisoned, by decide +kernel, by decide +kernel, by decide +kernel⟩

end Checker

end ObjectGraph
