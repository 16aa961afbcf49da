import ObjectGraph.Proofs.Check.WrittenNames
import ObjectGraph.Proofs.Types.Placeholders

/-!
# Names, positions and definitions

A registry holds the same types twice: in the list of definitions, and in the table from keys to
positions. Whatever is called on it, the two are inverse to each other, what a definition mentions
is registered, and the parts of a shape come before it (`Registry.Consistent`). An action answers a
registered type, or it fails since its key is taken, and changes nothing (`Registry.Answers`). A type
that has been answered keeps its key and its shape (`Registry.representation`).

Not every action looks its key up before it adds a definition. A new poison type does not, and it
hides no other type because no class may have such a name. Requests do, and whatever a substitution
does is a sequence of requests (`Formed.substitute`). That sequence ends because parts come first: a
shape has no more levels than its position (`Coherent.substituteWithin_congr`).
-/

namespace ObjectGraph

/-- The types that a method mentions as its result and its parameters. -/
def Method.mentioned (m : Method) : List TypeId := m.result :: m.params.map (·.ty)

/-- The types that a definition mentions as parent, elements, parameters and results. -/
def TypeDef.mentioned (d : TypeDef) : List TypeId :=
  d.parent.toList ++ d.kind.parts ++ d.params.map (·.ty) ++ d.methods.flatMap Method.mentioned

/-- The types that the members of a class mention as parent, parameters and results. -/
def ClassBody.mentioned (body : ClassBody) : List TypeId :=
  body.parent.toList ++ body.params.map (·.ty) ++ body.methods.flatMap Method.mentioned

namespace Registry

/-! ## Actions -/

/-- What can be called on a registry. -/
inductive Action where
  /-- A complete definition is registered. -/
  | register (d : TypeDef)
  /-- A class is declared, to be completed later. -/
  | declareClass (key : String) (parent : Option TypeId)
  /-- A declared class is completed. -/
  | defineClass (cls : TypeId) (body : ClassBody)
  /-- An array type, a function type or a placeholder is asked for. -/
  | request (q : Request)
  /-- A new poison type is made. -/
  | newPoison
  /-- The function type of a method is asked for. -/
  | methodType (m : MethodRef)
  /-- Placeholders are replaced. -/
  | substitute (values : TypeId → Option TypeId) (ty : TypeId)

/-- The key that an action has to find free. -/
def Action.key? : Action → Option String
  | .register d => some d.key
  | .declareClass key _ => some key
  | .defineClass .. | .request _ | .newPoison | .methodType _ | .substitute .. => none

variable {r r' : Registry} {ty : TypeId}

/-- What comes of an attempt to register a type. A failure leaves the registry as it was. -/
def attempt (r : Registry) :
    Except RegistryError (TypeId × Registry) → Except RegistryError TypeId × Registry
  | .ok (ty, r') => (.ok ty, r')
  | .error e => (.error e, r)

/-- What an action answers, and the registry after it. -/
def run (r : Registry) : Action → Except RegistryError TypeId × Registry
  | .register d => r.attempt (r.register d)
  | .declareClass key parent => r.attempt (r.declareClass key parent)
  | .defineClass cls body => (.ok cls, r.defineClass cls body)
  | .request q => r.attempt (.ok (q.answer r))
  | .newPoison => r.attempt (.ok (Registry.newPoison r))
  | .methodType m => r.attempt (.ok (Registry.methodType m r))
  | .substitute values ty => r.attempt (.ok (Registry.substitute values ty r))

/-- The action is called on registered types, and if it is to register a type, then a class whose
name does not begin as the keys of poison types do. -/
def Proper (r : Registry) : Action → Prop
  | .register d =>
    d.kind = .nominal ∧ Naming.noPoison.cls d.key ∧ ∀ t ∈ d.mentioned, t.index < r.size
  | .declareClass key parent => Naming.noPoison.cls key ∧ ∀ p ∈ parent, p.index < r.size
  | .defineClass cls body => cls.index < r.size ∧ ∀ t ∈ body.mentioned, t.index < r.size
  | .request q => ∀ p ∈ q.kind.parts, p.index < r.size
  | .newPoison => True
  | .methodType m =>
    m.owner.index < r.size ∧ m.index < (r.definition m.owner).methods.length
  | .substitute values ty =>
    (∀ p v, values p = some v → v.index < r.size) ∧ ty.index < r.size

/-- The registry after actions, one after the other. -/
def runAll (r : Registry) : List Action → Registry
  | [] => r
  | action :: actions => (r.run action).2.runAll actions

/-- Each of the actions is proper where it is called. -/
def AllProper (r : Registry) : List Action → Prop
  | [] => True
  | action :: actions => r.Proper action ∧ (r.run action).2.AllProper actions

/-! ## What they keep to -/

/-- Every type that a definition mentions is registered. Parents are among them, and what expressions
record is not, as it is in `Registry.Linked`. -/
def Closed (r : Registry) : Prop := ∀ ty, ∀ t ∈ (r.definition ty).mentioned, t.index < r.size

/-- The table and the list of definitions agree, and definitions mention registered types. -/
structure Consistent (r : Registry) : Prop where
  /-- A key leads to a type if and only if it is the key of that registered type. -/
  inverse : ∀ {text : String} {ty : TypeId},
    r.find? text = some ty ↔ ty.index < r.size ∧ r.key ty = text
  /-- Parents, elements, parameters and results are registered. -/
  mentioned : ∀ {ty t : TypeId}, t ∈ (r.definition ty).mentioned → t.index < r.size
  /-- The parts of an array type or a function type are earlier types. -/
  parts : ∀ {ty p : TypeId}, p ∈ (r.kind ty).parts → p.index < ty.index

/-- The action answers a registered type, or it fails since its key is taken, and changes nothing. -/
def Answers (r : Registry) (action : Action) : Prop :=
  (∃ ty, (r.run action).1 = .ok ty ∧ ty.index < (r.run action).2.size) ∨
    ∃ key ∈ action.key?, (r.find? key).isSome ∧ r.run action = (.error (.duplicate key), r)

/-! ## What definitions mention -/

/-- The definition of a request mentions a built-in parent and the parts that are asked for. -/
theorem mentioned_definition (q : Request) (r : Registry) :
    ∃ parent : TypeId, parent.index < TypeId.builtinCount ∧
      (q.definition r).mentioned = parent :: q.kind.parts := by
  cases q with
  | array element => exact ⟨.anyArray, by decide, rfl⟩
  | function params result =>
    exact ⟨.any, by decide, (List.append_nil _).trans (List.append_nil _)⟩
  | placeholder owner name => exact ⟨.any, by decide, rfl⟩

/-- A class that is completed mentions what it did, and what its members do. -/
theorem mem_mentioned_complete {d : TypeDef} {body : ClassBody} {t : TypeId}
    (ht : t ∈ TypeDef.mentioned { d with
      parent := body.parent.or d.parent, parentArgs := body.parentArgs, params := body.params
      properties := body.properties, methods := body.methods }) :
    t ∈ d.mentioned ∨ t ∈ body.mentioned := by
  simp only [TypeDef.mentioned, ClassBody.mentioned, List.mem_append, Option.mem_toList] at ht ⊢
  rcases ht with ((hparent | hpart) | hparam) | hmethod
  · rcases Option.or_eq_some_iff.mp hparent with hbody | ⟨-, hold⟩
    · exact .inr (.inl (.inl hbody))
    · exact .inl (.inl (.inl (.inl hold)))
  · exact .inl (.inl (.inl (.inr hpart)))
  · exact .inr (.inl (.inr hparam))
  · exact .inr (.inr hmethod)

/-- A definition may be added if what it mentions is registered. -/
theorem Closed.insert (h : r.Closed) {d : TypeDef} (hd : ∀ t ∈ d.mentioned, t.index < r.size) :
    (Registry.insert d r).2.Closed := by
  have hsize : r.size ≤ (Registry.insert d r).2.size := (Extends.insert d).size
  intro ty t ht
  refine Nat.lt_of_lt_of_le ?_ hsize
  rw [definition_insert] at ht
  split at ht
  · exact hd t ht
  · exact h ty t ht

/-- A request may be answered. -/
theorem Closed.answer (h : r.Closed) (hsize : TypeId.builtinCount ≤ r.size) {q : Request}
    (hparts : ∀ p ∈ q.kind.parts, p.index < r.size) : (q.answer r).2.Closed := by
  rw [q.answer_eq, findOrInsert]
  cases r.find? (q.definition r).key with
  | some ty => exact h
  | none =>
    obtain ⟨parent, hparent, hmentioned⟩ := mentioned_definition q r
    apply h.insert
    rw [hmentioned]
    exact List.forall_mem_cons.mpr ⟨Nat.lt_of_lt_of_le hparent hsize, hparts⟩

/-- So may requests one after the other. -/
theorem Closed.formed (h : r.Closed) (hsize : TypeId.builtinCount ≤ r.size)
    (hf : r.Formed r') : r'.Closed := by
  induction hf with
  | refl => exact h
  | tail hf hs ih =>
    obtain ⟨q, -, hparts⟩ := hs
    exact ih.answer (Nat.le_trans hsize (Formed.size_le hf)) hparts

/-- A poison type may be made, which mentions nothing. -/
theorem Closed.newPoison (h : r.Closed) : (Registry.newPoison r).2.Closed := by
  rw [newPoison_apply]
  have hcounted : ({ r with poisons := r.poisons + 1 } : Registry).Closed := h
  refine hcounted.insert fun t ht => ?_
  simp [TypeDef.mentioned, TypeKind.parts] at ht

/-- A class may be completed with members that mention registered types. -/
theorem Closed.defineClass (h : r.Closed) {cls : TypeId} {body : ClassBody}
    (hbody : ∀ t ∈ body.mentioned, t.index < r.size) : (r.defineClass cls body).Closed := by
  intro ty t ht
  rw [show (r.defineClass cls body).size = r.size from size_modifyDef _ _]
  simp only [Registry.defineClass, modifyDef, definition, getD_modify] at ht
  split at ht
  · exact (mem_mentioned_complete ht).elim (h ty t) (hbody t)
  · exact h ty t ht

/-- What the built-in types mention is built in. -/
theorem closed_initial : initial.Closed := by
  intro ty t ht
  obtain ⟨i⟩ := ty
  by_cases hlt : i < 7
  · have hall : ∀ i < 7, ∀ t ∈ (initial.definition ⟨i⟩).mentioned, t.index < initial.size := by
      decide +kernel
    exact hall i hlt t ht
  · have hle : initial.size ≤ i := Nat.le_of_not_lt hlt
    rw [definition_of_le hle] at ht
    cases ht

/-! ## What one action does -/

/-- A definition is added, or its key is taken. -/
theorem register_cases (r : Registry) (d : TypeDef) :
    (r.find? d.key).isSome ∧ r.register d = .error (.duplicate d.key) ∨
      r.register d = .ok (⟨r.size⟩, (insert d r).2) := by
  unfold register
  cases r.find? d.key with
  | some ty => exact .inl ⟨rfl, rfl⟩
  | none => exact .inr rfl

/-- Declaring a class is registering it without members. -/
theorem run_declareClass (r : Registry) (key : String) (parent : Option TypeId) :
    r.run (.declareClass key parent) =
      r.run (.register (.plain key .nominal (some (parent.getD .any)))) := rfl

/-- Asking for the type of a method is asking for a function type. -/
theorem run_methodType (r : Registry) (m : MethodRef) :
    r.run (.methodType m) =
      r.run (.request (.function ((r.method m).params.map (·.ty)) (r.method m).result)) :=
  congrArg (fun answer => r.attempt (.ok answer)) (methodType_apply m r)

/-- The types of a method's signature are among those that its owner mentions. -/
theorem mem_mentioned_of_method {m : MethodRef} {t : TypeId}
    (hm : m.index < (r.definition m.owner).methods.length) (ht : t ∈ (r.method m).mentioned) :
    t ∈ (r.definition m.owner).mentioned := by
  have hmethod : r.method m ∈ (r.definition m.owner).methods := by
    rw [method, List.getD_eq_getElem?_getD, List.getElem?_eq_getElem hm]
    exact List.getElem_mem hm
  exact List.mem_append_right _ (List.mem_flatMap.mpr ⟨_, hmethod, ht⟩)

/-- What comes of an action: a later registry, all of whose definitions mention registered types, and
an answer. -/
structure Served (r : Registry) (action : Action) : Prop where
  /-- The registry afterwards is a later one. -/
  later : Later .noPoison r (r.run action).2
  /-- What its definitions mention is registered. -/
  closed : (r.run action).2.Closed
  /-- So is the type that is answered, if the action need not fail. -/
  answers : r.Answers action

/-- Actions that do the same serve alike. -/
theorem Served.of_run_eq {action action' : Action} (hrun : r.run action = r.run action')
    (hkey : action.key? = action'.key?) (h : r.Served action') : r.Served action := by
  constructor
  · rw [hrun]
    exact h.later
  · rw [hrun]
    exact h.closed
  · unfold Answers
    rw [hrun, hkey]
    exact h.answers

/-- A registry that arises has the built-in types. -/
theorem Reachable.builtinCount_le {names : Naming} (hr : Reachable names r) :
    TypeId.builtinCount ≤ r.size := by
  rw [← size_initial]
  exact (Later.retains hr).size

section Serving

variable (hclosed : r.Closed)

include hclosed

/-- Registering a class, or failing to. -/
theorem served_register {d : TypeDef} (hproper : r.Proper (.register d)) :
    r.Served (.register d) := by
  obtain ⟨hnominal, hname, hmentioned⟩ := hproper
  have hrun : r.run (.register d) = r.attempt (r.register d) := rfl
  rcases r.register_cases d with ⟨htaken, herror⟩ | hok
  · rw [herror] at hrun
    constructor
    · rw [hrun]
      exact .refl
    · rw [hrun]
      exact hclosed
    · exact .inr ⟨d.key, rfl, htaken, hrun⟩
  · rw [hok] at hrun
    constructor
    · rw [hrun]
      exact .single (.register hnominal hname hok)
    · rw [hrun]
      exact hclosed.insert hmentioned
    · left
      rw [hrun]
      exact ⟨⟨r.size⟩, rfl, Nat.lt_of_lt_of_eq (Nat.lt_succ_self _) (size_insert d).symm⟩

/-- Completing a class. -/
theorem served_defineClass {cls : TypeId} {body : ClassBody}
    (hproper : r.Proper (.defineClass cls body)) : r.Served (.defineClass cls body) := by
  obtain ⟨hcls, hmentioned⟩ := hproper
  constructor
  · exact .single (.complete cls _ (fun _ => rfl) fun _ => rfl)
  · exact hclosed.defineClass hmentioned
  · exact .inl ⟨cls, rfl, Nat.lt_of_lt_of_eq hcls (size_modifyDef _ _).symm⟩

/-- Making a poison type. -/
theorem served_newPoison : r.Served .newPoison := by
  constructor
  · exact .single .poison
  · exact hclosed.newPoison
  · exact .inl ⟨⟨r.size⟩, rfl, Nat.lt_of_lt_of_eq (Nat.lt_succ_self _) (size_insert _).symm⟩

variable (hr : Reachable .noPoison r)

include hr

/-- Asking for an array type, a function type or a placeholder. -/
theorem served_request {q : Request} (hproper : r.Proper (.request q)) : r.Served (.request q) := by
  constructor
  · exact .single (.request q ⟨hproper, fun _ _ _ => trivial⟩)
  · exact hclosed.answer hr.builtinCount_le hproper
  · exact .inl ⟨(q.answer r).1, rfl, (hr.coherent.answer_key q).1⟩

/-- Replacing placeholders, which is a sequence of requests. -/
theorem served_substitute {values : TypeId → Option TypeId} {ty : TypeId}
    (hproper : r.Proper (.substitute values ty)) : r.Served (.substitute values ty) := by
  obtain ⟨hformed, hlt⟩ := Formed.substitute hr.coherent hproper.1 hproper.2
  constructor
  · exact hformed.later
  · exact hclosed.formed hr.builtinCount_le hformed
  · exact .inl ⟨(Registry.substitute values ty r).1, rfl, hlt⟩

/-- **A proper action answers a registered type or finds its key taken**, and leads to a later
registry whose definitions mention registered types. -/
theorem served {action : Action} (hproper : r.Proper action) : r.Served action := by
  cases action with
  | register d => exact served_register hclosed hproper
  | declareClass key parent =>
    apply Served.of_run_eq (r.run_declareClass key parent) rfl
    apply served_register hclosed
    refine ⟨rfl, hproper.1, fun t ht => ?_⟩
    obtain rfl : t = parent.getD .any := by
      simpa [TypeDef.mentioned, TypeDef.plain, TypeKind.parts] using ht
    cases parent with
    | none => exact Nat.lt_of_lt_of_le (by decide) hr.builtinCount_le
    | some p => exact hproper.2 p rfl
  | defineClass cls body => exact served_defineClass hclosed hproper
  | request q => exact served_request hclosed hr hproper
  | newPoison => exact served_newPoison hclosed
  | methodType m =>
    -- The type of a method is the function type that its signature asks for.
    apply Served.of_run_eq (r.run_methodType m) rfl
    apply served_request hclosed hr
    exact fun t ht => hclosed m.owner t (mem_mentioned_of_method hproper.2 ht)
  | substitute values ty => exact served_substitute hclosed hr hproper

/-! ## Any number of actions -/

/-- Proper actions lead to a later registry whose definitions mention registered types. -/
theorem runAll_spec {actions : List Action} (h : r.AllProper actions) :
    Later .noPoison r (r.runAll actions) ∧ (r.runAll actions).Closed := by
  induction actions generalizing r with
  | nil => exact ⟨.refl, hclosed⟩
  | cons action actions ih =>
    obtain ⟨hproper, hrest⟩ := h
    have hserved := served hclosed hr hproper
    obtain ⟨hlater, hclosed'⟩ := ih hserved.closed (hr.trans hserved.later) hrest
    exact ⟨hserved.later.trans hlater, hclosed'⟩

/-- A registry that arises and mentions registered types is consistent. -/
theorem Closed.consistent : r.Consistent where
  inverse {text ty} := by
    constructor
    · exact hr.coherent.keyed
    · rintro ⟨hlt, rfl⟩
      exact hr.indexed ty hlt
  mentioned {ty t} := hclosed ty t
  parts hp := hr.coherent.parts (lt_size_of_parts hp) _ hp

end Serving

/-- **A registry keeps its tables in step.** After any proper actions on the built-in types, the
table of keys and the list of definitions are inverse to each other, all that is mentioned is
registered, and parts come before the types that are made of them. Every further action answers a
registered type, or fails since its key is taken. Whatever is done later, the same holds, and the
types that are registered now keep their keys and their shapes. Replacing placeholders ends, since
more levels than a type has make no difference. -/
theorem representation {actions : List Action} (h : initial.AllProper actions) :
    let r := initial.runAll actions
    r.Consistent ∧
    (∀ action, r.Proper action → r.Answers action) ∧
    (∀ further, r.AllProper further →
      (r.runAll further).Consistent ∧ r.Retains (r.runAll further)) ∧
    ∀ values ty depth, ty.index < r.size → ty.index < depth →
      substituteWithin values depth ty r = substitute values ty r := by
  intro r
  obtain ⟨hr, hclosed⟩ : Reachable .noPoison r ∧ r.Closed := runAll_spec closed_initial .refl h
  refine ⟨hclosed.consistent hr, fun action hproper => (served hclosed hr hproper).answers,
    fun further hfurther => ?_, fun values ty depth hty hdepth => ?_⟩
  · obtain ⟨hlater, hclosed'⟩ := runAll_spec hclosed hr hfurther
    exact ⟨hclosed'.consistent (hr.trans hlater), hlater.retains⟩
  · exact hr.coherent.substituteWithin_congr .refl hty hdepth hty fun _ _ _ => rfl

/-- A class `A` with a method from `T[]` to `T` is declared, and a second one cannot be. The method's
type is asked for and used with integers for `T`, and there is a class below `A`. -/
def usingIntegers : List Action :=
  [ .declareClass "A" none, .declareClass "A" none, .newPoison,
    .request (.placeholder "A.m" "T"), .request (.array ⟨9⟩),
    .defineClass ⟨7⟩ { methods := [{
      name := "m", params := [⟨"x", ⟨10⟩⟩], generics := [⟨9⟩], result := ⟨9⟩, body := none
      declaring := ⟨7⟩ }] },
    .methodType ⟨⟨7⟩, 0⟩,
    .substitute (fun p => if p = ⟨9⟩ then some .int else none) ⟨11⟩,
    .register (.plain "B" .nominal (some ⟨7⟩)) ]

/-- All of these are proper. -/
theorem allProper_usingIntegers : initial.AllProper usingIntegers := by
  have hA : ¬ "<poison#".toList <+: "A".toList := by decide
  have hB : ¬ "<poison#".toList <+: "B".toList := by decide
  have hint : ∀ {p v : TypeId}, (if p = ⟨9⟩ then some TypeId.int else none) = some v →
      v = .int := by
    intro p v hv
    split at hv
    · exact (Option.some.inj hv).symm
    · cases hv
  refine ⟨⟨hA, nofun⟩, ⟨hA, nofun⟩, trivial, ?_, ?_, ?_, ?_, ?_, ⟨rfl, hB, ?_⟩, trivial⟩
  · exact List.forall_mem_nil _
  · show ∀ p ∈ [(⟨9⟩ : TypeId)], p.index < _
    decide +kernel
  · exact ⟨by decide +kernel, by decide +kernel⟩
  · exact ⟨by decide +kernel, by decide +kernel⟩
  · exact ⟨fun p v hv => hint hv ▸ by decide +kernel, by decide +kernel⟩
  · decide +kernel

/-- The function type from arrays of integers to integers is found under its key, whether or not a
poison type is made after it, and its parts come before it. A third class `A` is turned down. -/
theorem representation_usingIntegers :
    let r := initial.runAll usingIntegers
    initial.AllProper usingIntegers ∧ r.find? "(int[]) => int" = some ⟨13⟩ ∧
      (r.runAll [.newPoison]).find? "(int[]) => int" = some ⟨13⟩ ∧
      (∀ p ∈ (r.kind ⟨13⟩).parts, p.index < 13) ∧ r.Answers .newPoison ∧
      r.run (.declareClass "A" none) = (.error (.duplicate "A"), r) := by
  intro r
  have hkey : (13 : ℕ) < r.size ∧ r.key ⟨13⟩ = "(int[]) => int" := by decide +kernel
  have hfails : (r.run (.declareClass "A" none)).1 = .error (.duplicate "A") := rfl
  obtain ⟨hconsistent, hanswers, hfurther, -⟩ := representation allProper_usingIntegers
  obtain ⟨hconsistent', hretains⟩ := hfurther [.newPoison] ⟨trivial, trivial⟩
  refine ⟨allProper_usingIntegers, hconsistent.inverse.mpr hkey, hconsistent'.inverse.mpr ?_,
    fun p hp => hconsistent.parts hp, hanswers .newPoison trivial, ?_⟩
  · constructor
    · exact Nat.lt_of_lt_of_le hkey.1 hretains.size
    · exact (hretains.key hkey.1).trans hkey.2
  · have hname : ¬ "<poison#".toList <+: "A".toList := by decide
    rcases hanswers (.declareClass "A" none) ⟨hname, nofun⟩ with ⟨ty, hok, -⟩ | ⟨key, hmem, -, hrun⟩
    · exact absurd (hfails.symm.trans hok) nofun
    · obtain rfl := Option.some.inj hmem
      exact hrun

end Registry

end ObjectGraph
