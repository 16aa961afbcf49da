import ObjectGraph.Proofs.Formula.Scalars
import ObjectGraph.Proofs.Run.Dispatch
import ObjectGraph.Proofs.Run.Standstill

/-!
# Joining an array

`join` answers as soon as its separator is an instance and each element is an instance or missing.
A missing element adds nothing to the text. Until then the call waits, and here a distinction is
lost: a missing separator or a function among the elements is terminal, so that nothing is to come,
and the call waits for it all the same (`Plugin.Starves`). Steps leave the elements of an array
alone that are terminal (`World.Later.payload`), so such a call is never reduced
(`World.join_of_terminal`).
-/

namespace ObjectGraph

variable {σ : Type} {natives : Natives σ} {w w' : World σ} {id receiver : InstanceId}
variable {m : MethodRef} {args elements : List Expr}

/-! ## Elements -/

/-- Whether an element has a place in a joined text: it is an instance, or is known to be
missing. -/
def Expr.isJoinable : Expr → Bool
  | .object _ | .missing _ => true
  | _ => false

namespace Plugin

/-- What an element adds to a joined text. -/
def joinText (w : World σ) : Expr → String
  | .object id => w.shownText id
  | _ => ""

/-- Elements with a place in the text. -/
theorem joinParts_of_joinable (w : World σ) (h : ∀ e ∈ elements, e.isJoinable = true) :
    joinParts w elements = some (elements.map (joinText w)) := by
  induction elements with
  | nil => rfl
  | cons e es ih =>
    obtain ⟨he, hes⟩ := List.forall_mem_cons.mp h
    cases e with
    | object id => rw [joinParts, ih hes]; rfl
    | missing ty => rw [joinParts, ih hes]; rfl
    | _ => cases he

/-- One element without a place is enough. -/
theorem joinParts_eq_none (w : World σ) (h : ∃ e ∈ elements, e.isJoinable = false) :
    joinParts w elements = none := by
  induction elements with
  | nil =>
    obtain ⟨e, he, -⟩ := h
    cases he
  | cons e es ih =>
    have hrest (he : e.isJoinable = true) : joinParts w es = none := by
      refine ih ?_
      obtain ⟨other, hmem, hother⟩ := h
      rcases List.mem_cons.mp hmem with rfl | hmem
      · rw [he] at hother
        cases hother
      · exact ⟨other, hmem, hother⟩
    cases e with
    | object id => rw [joinParts, hrest rfl]; rfl
    | missing ty => rw [joinParts, hrest rfl]; rfl
    | _ => rfl

/-! ## Outcomes -/

/-- The separator that a call is given, if it is an instance. -/
def separator? (args : List Expr) : Option InstanceId := args.head?.bind Expr.asObject

/-- What the call waits for: a separator, or an element after a separator that is a text. -/
inductive Starves (h : Heap) (args elements : List Expr) : Prop
  /-- There is no separator, or it is no instance. -/
  | separator (none : separator? args = none)
  /-- An element is neither an instance nor missing. -/
  | element {sep : InstanceId} {text : String} (some : separator? args = some sep)
      (carries : (h.get sep).payload = .scalar (.string text))
      (mute : ∃ e ∈ elements, e.isJoinable = false)

section Outcomes

variable (hname : (w.types.method m).name = "join")
include hname

/-- Without a separator. -/
theorem arrayCall_of_none (hsep : separator? args = none) :
    arrayCall receiver m args w = .ok .deferred w := by
  unfold separator? at hsep
  unfold arrayCall
  rw [bind_of_ok (Effect.read_apply _ w), hname, if_neg (fun h => h rfl), hsep]
  rfl

/-- With a separator that is no text. -/
theorem arrayCall_of_noText {sep : InstanceId} (hsep : separator? args = some sep)
    (hother : ∀ text, (w.heap.get sep).payload ≠ .scalar (.string text)) :
    arrayCall receiver m args w = .error (.invalidPayload (w.typeName sep) "string") w := by
  have hstring : Effect.stringOf sep w = .error (.invalidPayload (w.typeName sep) "string") w := by
    unfold Effect.stringOf
    rw [bind_of_ok (Effect.instanceOf_apply sep w)]
    generalize (w.heap.get sep).payload = payload at hother
    cases payload with
    | scalar v =>
      cases v with
      | string text => exact absurd rfl (hother text)
      | _ => rfl
    | _ => rfl
  unfold separator? at hsep
  unfold arrayCall
  rw [bind_of_ok (Effect.read_apply _ w), hname, if_neg (fun h => h rfl), hsep]
  exact bind_of_error hstring

/-- With a text for a separator. -/
theorem arrayCall_of_text {sep : InstanceId} {text : String} (hsep : separator? args = some sep)
    (htext : (w.heap.get sep).payload = .scalar (.string text))
    (harray : (w.heap.get receiver).payload = .array elements) :
    arrayCall receiver m args w =
      .ok (match joinParts w elements with
        | some parts => .produced (.string (String.intercalate text parts))
        | none => .deferred) w := by
  have helements : Effect.elementsOf receiver w = .ok elements w := by
    unfold Effect.elementsOf
    rw [bind_of_ok (Effect.instanceOf_apply receiver w), harray]
    rfl
  unfold separator? at hsep
  unfold arrayCall
  rw [bind_of_ok (Effect.read_apply _ w), hname, if_neg (fun h => h rfl), hsep]
  show (Effect.stringOf sep >>= _) w = _
  rw [bind_of_ok (stringOf_apply htext), bind_of_ok helements, bind_of_ok (Effect.read_apply _ w)]
  cases joinParts w elements <;> rfl

/-- The call waits for what it starves of, and for nothing else. -/
theorem arrayCall_deferred_iff (harray : (w.heap.get receiver).payload = .array elements) :
    arrayCall receiver m args w = .ok .deferred w ↔ Starves w.heap args elements := by
  constructor
  · intro hcall
    cases hsep : separator? args with
    | none => exact .separator hsep
    | some sep =>
      by_cases htext : ∃ text, (w.heap.get sep).payload = .scalar (.string text)
      · obtain ⟨text, htext⟩ := htext
        refine .element hsep htext (Classical.byContradiction fun hmute => ?_)
        have hjoinable : ∀ e ∈ elements, e.isJoinable = true := fun e he =>
          Bool.not_eq_false _ ▸ fun hfalse => hmute ⟨e, he, hfalse⟩
        rw [arrayCall_of_text hname hsep htext harray, joinParts_of_joinable w hjoinable] at hcall
        cases hcall
      · rw [arrayCall_of_noText hname hsep fun text h => htext ⟨text, h⟩] at hcall
        cases hcall
  · rintro (hsep | ⟨hsep, htext, hmute⟩)
    · exact arrayCall_of_none hname hsep
    · rw [arrayCall_of_text hname hsep htext harray, joinParts_eq_none w hmute]

/-- A call that does not starve answers with the joined text, or fails because its separator is no
text. -/
theorem arrayCall_of_not_starves (harray : (w.heap.get receiver).payload = .array elements)
    (h : ¬ Starves w.heap args elements) :
    ∃ sep, separator? args = some sep ∧
      ((∃ text, (w.heap.get sep).payload = .scalar (.string text) ∧
          arrayCall receiver m args w = .ok (.produced (.string
            (String.intercalate text (elements.map (joinText w))))) w) ∨
        arrayCall receiver m args w = .error (.invalidPayload (w.typeName sep) "string") w) := by
  cases hsep : separator? args with
  | none => exact absurd (.separator hsep) h
  | some sep =>
    refine ⟨sep, rfl, ?_⟩
    by_cases htext : ∃ text, (w.heap.get sep).payload = .scalar (.string text)
    · obtain ⟨text, htext⟩ := htext
      have hjoinable : ∀ e ∈ elements, e.isJoinable = true := fun e he =>
        Bool.not_eq_false _ ▸ fun hfalse => h (.element hsep htext ⟨e, he, hfalse⟩)
      refine .inl ⟨text, htext, ?_⟩
      rw [arrayCall_of_text hname hsep htext harray, joinParts_of_joinable w hjoinable]
    · exact .inr (arrayCall_of_noText hname hsep fun text htext' => htext ⟨text, htext'⟩)

end Outcomes

end Plugin

/-! ## Data that stay -/

/-- Data with elements are an array of them. -/
theorem Payload.eq_array_elements {p : Payload} (h : p.elements.isEmpty = false) :
    p = .array p.elements := by
  cases p with
  | array elements => rfl
  | _ => cases h

namespace World

/-- Data stay whose elements are all terminal. -/
theorem Touched.payload (h : w.Touched w' id)
    (hterminal : ∀ e ∈ (w.heap.get id).payload.elements, e.isTerminal = true) :
    (w'.heap.get id).payload = (w.heap.get id).payload := by
  cases h with
  | marked mark same => rw [same]
  | @written h c e next before own held pending same =>
    rw [same]
    cases c with
    | binding s i => cases own
    | slot owner i => rw [Heap.payload_write _ _ _ _ (fun _ _ h => by cases h), before]
    | element owner i =>
      -- The element is pending, and so it is none of these.
      obtain rfl : owner = id := by cases own; rfl
      have hvalue := hterminal e (List.mem_of_getElem? held)
      rw [pending] at hvalue
      cases hvalue

/-- So they do after any number of steps. An instance that carries data is on the heap. -/
theorem Later.payload (hn : natives.Inert) (hw : w.Sound) (h : Later natives w w') {data : Payload}
    (hdata : (w.heap.get id).payload = data) (hsome : data ≠ .none)
    (hterminal : ∀ e ∈ data.elements, e.isTerminal = true) : (w'.heap.get id).payload = data := by
  have hid : w.heap.Has (.object id) := by
    refine Nat.lt_of_not_le fun hle => hsome ?_
    rw [← hdata, Heap.get_of_le _ hle]
    rfl
  induction h with
  | refl => exact hdata
  | @tail w₁ w₂ hlater hstep ih =>
    have hsettles := Later.settles hn hw hlater
    rw [(hstep.touched hn hsettles.sound (hsettles.has hid)).payload (ih ▸ hterminal), ih]

/-- Methods with a name belong to a type, and stay. -/
theorem Later.method (hn : natives.Inert) (ho : natives.Observant) (h : Later natives w w')
    (hname : (w.types.method m).name ≠ "") : w'.types.method m = w.types.method m := by
  have hregistered : m.owner.index < w.types.size := by
    refine Nat.lt_of_not_le fun hle => hname ?_
    rw [Registry.method, Registry.definition_of_le hle]
    rfl
  rw [Registry.method, Registry.method, (h.extends_world ho hn).types.definition hregistered]

/-- What a call starves of does not come later. -/
theorem Later.starves (hn : natives.Inert) (hw : w.Sound) (h : Later natives w w')
    (hstarves : Plugin.Starves w.heap args elements) : Plugin.Starves w'.heap args elements := by
  cases hstarves with
  | separator hsep => exact .separator hsep
  | element hsep htext hmute =>
    exact .element hsep (h.payload hn hw htext (by rintro ⟨⟩) (by rintro _ ⟨⟩)) hmute

end World

/-! ## Calls that are not reduced -/

/-- Terminal expressions have nothing to reduce. -/
theorem Expr.reduce_of_terminal {e : Expr} (h : e.isTerminal = true) (scope : Option ScopeId)
    (s : Pass σ) : e.reduce natives scope s = .ok e s := by
  cases e with
  | object | missing | unbound | function => rfl
  | _ => cases h

/-- Nor do lists of them. -/
theorem reduceAll_of_terminal (h : ∀ e ∈ args, e.isTerminal = true) (scope : Option ScopeId)
    (s : Pass σ) : reduceAll natives scope args s = .ok args s := by
  induction args with
  | nil => rfl
  | cons e es ih =>
    obtain ⟨he, hes⟩ := List.forall_mem_cons.mp h
    rw [reduceAll, bind_of_ok (Expr.reduce_of_terminal he scope s), bind_of_ok (ih hes)]
    rfl

/-- A call of a function on terminal arguments stays as it is when the plugin defers it. -/
theorem Expr.reduce_call_of_deferred {n : ℕ} {typeArgs : TypeArgs} {ty : TypeId}
    (hargs : ∀ e ∈ args, e.isTerminal = true) (hbody : (w.types.method m).body = none)
    (hcall : (natives.pluginFor w.types m.owner).call receiver m args w = .ok .deferred w)
    (scope : Option ScopeId) :
    (Expr.call (.function m receiver) args typeArgs ty).reduce natives scope ⟨w, n⟩ =
      .ok (.call (.function m receiver) args typeArgs ty) ⟨w, n⟩ := by
  rw [Expr.reduce, bind_of_ok (Expr.reduce_of_terminal rfl scope _),
    bind_of_ok (reduceAll_of_terminal hargs scope _)]
  unfold Reduction.call
  dsimp only
  rw [bind_of_ok (Reduction.look_apply _ _)]
  simp only [hbody]
  rw [bind_of_ok (Reduction.perform_of_ok (Effect.pluginFor_apply natives m.owner w)),
    bind_of_ok (Reduction.perform_of_ok hcall)]
  rfl

namespace World

/-- A call that starves is left as it is in whatever follows, if all that it is given is
terminal. -/
theorem Later.reduce_join (hn : natives.Inert) (ho : natives.Observant)
    (hplugin : natives.plugins.lookup .anyArray = some .array) (hw : w.Sound)
    (howner : m.owner = .anyArray) (hbody : (w.types.method m).body = none)
    (hname : (w.types.method m).name = "join")
    (harray : (w.heap.get receiver).payload = .array elements)
    (helements : ∀ e ∈ elements, e.isTerminal = true) (hargs : ∀ e ∈ args, e.isTerminal = true)
    (hstarves : Plugin.Starves w.heap args elements) (hlater : w.Later natives w')
    (scope : Option ScopeId) (typeArgs : TypeArgs) (ty : TypeId) (n : ℕ) :
    (Expr.call (.function m receiver) args typeArgs ty).reduce natives scope ⟨w', n⟩ =
      .ok (.call (.function m receiver) args typeArgs ty) ⟨w', n⟩ := by
  -- The later world has the same method, the same elements and nothing that the call starves of.
  have hmethod : w'.types.method m = w.types.method m :=
    hlater.method hn ho (by rw [hname]; decide)
  have harray' : (w'.heap.get receiver).payload = .array elements :=
    hlater.payload hn hw harray (by rintro ⟨⟩) helements
  have hcall : Plugin.arrayCall receiver m args w' = .ok .deferred w' :=
    (Plugin.arrayCall_deferred_iff (hmethod ▸ hname) harray').mpr (hlater.starves hn hw hstarves)
  refine Expr.reduce_call_of_deferred hargs (hmethod ▸ hbody) ?_ scope
  rw [howner, Natives.pluginFor_of_lookup hplugin]
  exact hcall

/-- **A call of `join` on terminal inputs** is deferred if and only if its separator is no instance,
or is a text while an element is a function; it will not be reduced in whatever follows. Otherwise
it answers with the joined text, or fails because its separator is no text. -/
theorem join_of_terminal (hname : (w.types.method m).name = "join")
    (harray : (w.heap.get receiver).payload = .array elements)
    (helements : ∀ e ∈ elements, e.isTerminal = true)
    (hargs : ∀ e ∈ args, e.isTerminal = true) :
    (Plugin.arrayCall receiver m args w = .ok .deferred w ↔
        Plugin.Starves w.heap args elements) ∧
      (¬ Plugin.Starves w.heap args elements →
        ∃ sep, Plugin.separator? args = some sep ∧
          ((∃ text, (w.heap.get sep).payload = .scalar (.string text) ∧
              Plugin.arrayCall receiver m args w = .ok (.produced (.string
                (String.intercalate text (elements.map (Plugin.joinText w))))) w) ∨
            Plugin.arrayCall receiver m args w =
              .error (.invalidPayload (w.typeName sep) "string") w)) ∧
      (Plugin.Starves w.heap args elements → natives.Inert → natives.Observant →
        natives.plugins.lookup .anyArray = some .array → w.Sound → m.owner = .anyArray →
        (w.types.method m).body = none →
        ∀ w', w.Later natives w' → ∀ scope typeArgs ty n,
          (Expr.call (.function m receiver) args typeArgs ty).reduce natives scope ⟨w', n⟩ =
            .ok (.call (.function m receiver) args typeArgs ty) ⟨w', n⟩) :=
  ⟨Plugin.arrayCall_deferred_iff hname harray, Plugin.arrayCall_of_not_starves hname harray,
    fun hstarves hn ho hplugin hw howner hbody _ hlater scope typeArgs ty n =>
      hlater.reduce_join hn ho hplugin hw howner hbody hname harray helements hargs hstarves scope
        typeArgs ty n⟩

end World

/-! ## A separator that is missing -/

/-- A class with the properties `xs: any[] = ["a", "b"]` and
`t: string = this.xs.join(this.xs[2])`. -/
def joining : ClassBody where
  properties :=
    [⟨"xs", .visible, .anyArray, some (.array [.string "a", .string "b"] .anyArray)⟩,
      ⟨"t", .visible, .string, some (.call
        (.member (.member (.this .main) "xs" .anyArray) "join" .any)
        [.index (.member (.this .main) "xs" .anyArray) (.int 2) .string] [] .string)⟩]

namespace World

/-- The world of the class, before the first call. -/
def beforeJoining : World Unit := .ofTypes (.ofClass joining) ()

/-- The world after an instance of the class has been asked for. -/
def withJoining : World Unit := (Effect.construct .builtin .main []).after beforeJoining

/-- What is left of the instance when its evaluation has come to an end. -/
def ofJoining : World Unit := (Effect.run .builtin {} ⟨0⟩).after withJoining

/-- The world at the end is sound. -/
theorem sound_ofJoining : ofJoining.Sound := by
  have hinitial : beforeJoining.Initial := initial_ofTypes (by decide +kernel)
  have hcall : Call .builtin beforeJoining withJoining := .instantiate fun e he => by cases he
  have hroot : withJoining.heap.Has (.object ⟨0⟩) := by
    show 0 < withJoining.heap.instances.size
    decide +kernel
  exact hinitial.sound_of_calls Natives.inert_builtin (.tail (.single hcall) (.run {} hroot))

/-- The array `xs` has two elements, and nothing that follows reduces `xs.join(<missing>)`. -/
theorem join_of_terminal_joining :
    (ofJoining.heap.get ⟨1⟩).payload.elements.length = 2 ∧
      ∀ w', ofJoining.Later .builtin w' →
        (Expr.call (.function ⟨.anyArray, 0⟩ ⟨1⟩) [.missing .any] [] .string).reduce .builtin none
            ⟨w', 0⟩ =
          .ok (.call (.function ⟨.anyArray, 0⟩ ⟨1⟩) [.missing .any] [] .string) ⟨w', 0⟩ := by
  have harray := Payload.eq_array_elements (p := (ofJoining.heap.get ⟨1⟩).payload)
    (by decide +kernel)
  have hterminal : ∀ e ∈ (ofJoining.heap.get ⟨1⟩).payload.elements, e.isTerminal = true := by
    decide +kernel
  have hname : (ofJoining.types.method ⟨.anyArray, 0⟩).name = "join" := by decide +kernel
  have hbody : (ofJoining.types.method ⟨.anyArray, 0⟩).body = none :=
    Option.not_isSome_iff_eq_none.mp (by decide +kernel)
  have hargs : ∀ e ∈ [Expr.missing .any], e.isTerminal = true := by decide
  obtain ⟨-, -, hstays⟩ :=
    @join_of_terminal Unit .builtin _ _ _ _ _ hname harray hterminal hargs
  refine ⟨by decide +kernel, fun w' hlater => ?_⟩
  exact hstays (.separator rfl) Natives.inert_builtin Natives.observant_builtin rfl sound_ofJoining
    rfl hbody w' hlater none [] .string 0

/-- All of `xs` and the separator in `xs.join(<missing>)` are terminal, and yet the call is
deferred. The evaluation of the instance with this call ends without having come to a value. -/
theorem join_waits_in_vain :
    (ofJoining.types.method ⟨.anyArray, 0⟩).name = "join" ∧
      (ofJoining.heap.get ⟨1⟩).payload = .array (ofJoining.heap.get ⟨1⟩).payload.elements ∧
      (∀ e ∈ (ofJoining.heap.get ⟨1⟩).payload.elements, e.isTerminal = true) ∧
      (∀ e ∈ [Expr.missing .any], e.isTerminal = true) ∧
      Plugin.arrayCall ⟨1⟩ ⟨.anyArray, 0⟩ [.missing .any] ofJoining = .ok .deferred ofJoining ∧
      ∃ sweeps w, Effect.run .builtin {} ⟨0⟩ withJoining = .error (.nonTermination sweeps) w := by
  have hname : (ofJoining.types.method ⟨.anyArray, 0⟩).name = "join" := by decide +kernel
  have hverdict : decide (Ends (Effect.run .builtin {} ⟨0⟩) withJoining (fun _ _ => False)
      fun e _ => e = .nonTermination 3) = true := by
    decide +kernel
  have hrun : ∃ sweeps w,
      Effect.run .builtin {} ⟨0⟩ withJoining = .error (.nonTermination sweeps) w := by
    generalize withJoining = w₀ at hverdict
    obtain ⟨_, w, hrun, rfl⟩ := (of_decide_eq_true hverdict).exists_error
    exact ⟨3, w, hrun⟩
  exact ⟨hname, Payload.eq_array_elements (by decide +kernel), by decide +kernel, by decide,
    Plugin.arrayCall_of_none hname rfl, hrun⟩

end World

end ObjectGraph
