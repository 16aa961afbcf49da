import Mathlib.Data.List.Forall2
import ObjectGraph.Output.GraphJson
import ObjectGraph.Proofs.Construct
import ObjectGraph.Run.Evaluator

/-!
# The JSON of an object of scalars

An object whose properties are scalars or missing is shown as the JSON object of its properties'
names and values, in order.
-/

namespace ObjectGraph

/-- The JSON of a new object of a class after its evaluation, or the error that there was on the
way. -/
def evaluated {σ : Type} (natives : Natives σ) (settings : Settings) (types : Registry)
    (cls : TypeId) (args : List Expr) (host : σ) : Except EvalError Json :=
  match Effect.construct natives cls args (World.ofTypes types host) with
  | .error e _ => .error e
  | .ok root w =>
    match Effect.run natives settings root w with
    | .error e _ => .error e
    | .ok _ w' => w'.toJson .strict root

/-- An evaluation that is followed step by step. -/
theorem evaluated_of_run {σ : Type} {natives : Natives σ} {settings : Settings} {types : Registry}
    {cls : TypeId} {args : List Expr} {host : σ} {root : InstanceId} {w w' : World σ}
    {stats : RunStats}
    (hconstruct : Effect.construct natives cls args (World.ofTypes types host) = .ok root w)
    (hrun : Effect.run natives settings root w = .ok stats w') :
    evaluated natives settings types cls args host = w'.toJson .strict root := by
  rw [evaluated, hconstruct]
  simp only [hrun]

/-- An evaluation that has shown something has run to its end. -/
theorem run_of_evaluated {σ : Type} {natives : Natives σ} {settings : Settings} {types : Registry}
    {cls : TypeId} {args : List Expr} {host : σ} {root : InstanceId} {w : World σ} {json : Json}
    (hconstruct : Effect.construct natives cls args (World.ofTypes types host) = .ok root w)
    (h : evaluated natives settings types cls args host = .ok json) :
    ∃ stats w', Effect.run natives settings root w = .ok stats w' ∧
      w'.toJson .strict root = .ok json := by
  rw [evaluated, hconstruct] at h
  cases hrun : Effect.run natives settings root w with
  | error e w' =>
    simp only [hrun] at h
    cases h
  | ok stats w' =>
    simp only [hrun] at h
    exact ⟨stats, w', rfl, h⟩

/-- Whether an evaluation has failed with the given error. -/
def failedWith (error : EvalError) : Except EvalError Json → Bool
  | .error e => e = error
  | .ok _ => false

/-- An evaluation that has failed with an error is that error. -/
theorem eq_error_of_failedWith {error : EvalError} {r : Except EvalError Json}
    (h : failedWith error r = true) : r = .error error := by
  cases r with
  | error e => rw [of_decide_eq_true h]
  | ok json => cases h

/-- Whether an evaluation has shown an object with one property, which is a whole number. -/
def showsInt (name : String) (n : Int) : Except EvalError Json → Bool
  | .ok (.object [(key, .int m)]) => key = name && m = n
  | _ => false

/-- An evaluation that has shown a whole number has that object as its result. -/
theorem eq_ok_of_showsInt {name : String} {n : Int} {r : Except EvalError Json}
    (h : showsInt name n r = true) : r = .ok (.object [(name, .int n)]) := by
  unfold showsInt at h
  split at h
  case h_1 key m =>
    rw [Bool.and_eq_true] at h
    rw [of_decide_eq_true h.1, of_decide_eq_true h.2]
  case h_2 => cases h

/-- A terminal expression is shown as a piece of JSON: a scalar as itself, and absence as null. -/
inductive Heap.Shows (h : Heap) : Expr → Json → Prop where
  /-- A scalar. -/
  | scalar {id v} : h.IsScalar id v → Shows h (.object id) (GraphJson.ofScalar v)
  /-- An absence. -/
  | missing (ty : TypeId) : Shows h (.missing ty) .null

/-- What every item of a list is related to makes up a list. -/
theorem exists_forall₂ {α β : Type} {R : α → β → Prop} {items : List α}
    (h : ∀ a ∈ items, ∃ b, R a b) : ∃ values, List.Forall₂ R items values := by
  induction items with
  | nil => exact ⟨[], .nil⟩
  | cons a items ih =>
    obtain ⟨b, hb⟩ := h a List.mem_cons_self
    obtain ⟨values, hvalues⟩ := ih fun a' ha' => h a' (List.mem_cons_of_mem _ ha')
    exact ⟨b :: values, .cons hb hvalues⟩

/-- Each item of a list that is related to another one, item by item, is related to something. -/
theorem exists_of_forall₂ {α β : Type} {R : α → β → Prop} {items : List α} {values : List β}
    (h : List.Forall₂ R items values) {a : α} (ha : a ∈ items) : ∃ b, R a b := by
  induction h with
  | nil => cases ha
  | cons hab _ ih =>
    rcases List.mem_cons.mp ha with rfl | ha
    · exact ⟨_, hab⟩
    · exact ih ha

/-- A member under a new key is put last. -/
theorem Json.insertMember_of_not_mem {members : List (String × Json)} {key : String} (value : Json)
    (h : key ∉ members.map (·.1)) :
    Json.insertMember members key value = members ++ [(key, value)] := by
  induction members with
  | nil => rfl
  | cons first rest ih =>
    rw [List.map_cons, List.mem_cons, not_or] at h
    rw [Json.insertMember, if_neg (Ne.symm h.1), ih h.2]
    rfl

namespace GraphJson

/-- The members of an object whose values are all shown. -/
theorem members_eq {h : Heap} {render : String → Expr → Except EvalError (Option Json)}
    {path : String} (hrender : ∀ {path e j}, h.Shows e j → render path e = .ok (some j))
    {slots : List Slot} {values : List Json}
    (hvalues : List.Forall₂ (fun (slot : Slot) j => h.Shows slot.expr j) slots values)
    (before : List (String × Json))
    (hnames : (before.map (·.1) ++ slots.map (·.name)).Nodup) :
    members render path slots before = .ok (before ++ (slots.map (·.name)).zip values) := by
  induction hvalues generalizing before with
  | nil => rw [members, List.map_nil, List.zip_nil_left, List.append_nil]
  | @cons slot j slots values hshows _ ih =>
    have hnew : slot.name ∉ before.map (·.1) := fun hmem =>
      (List.nodup_append.mp hnames).2.2 _ hmem _ List.mem_cons_self rfl
    rw [members, hrender hshows]
    show members render path slots (Json.insertMember before slot.name j) = _
    rw [Json.insertMember_of_not_mem j hnew, ih, List.append_assoc]
    · rfl
    · rw [List.map_append, List.append_assoc]
      exact hnames

end GraphJson

/-- **The JSON of an object of scalars** maps each property's name to its value, in order. -/
theorem World.toJson_of_shows {σ : Type} {w : World σ} {root : InstanceId}
    (hplaced : root.index < w.heap.instances.size) (hpayload : (w.heap.get root).payload = .none)
    (hshown : ∀ slot ∈ (w.heap.get root).slots, Rendering.isShown w.types slot = true)
    (hnames : ((w.heap.get root).slots.map (·.name)).Nodup) {values : List Json}
    (hvalues : List.Forall₂ (fun (slot : Slot) j => w.heap.Shows slot.expr j)
      (w.heap.get root).slots values) :
    w.toJson .strict root = .ok (.object (((w.heap.get root).slots.map (·.name)).zip values)) := by
  obtain ⟨fuel, hfuel⟩ : ∃ fuel, w.heap.instances.size = fuel + 1 :=
    ⟨w.heap.instances.size - 1, by omega⟩
  have hslots : Rendering.shownSlots w root = (w.heap.get root).slots :=
    List.filter_eq_self.mpr hshown
  have hrender {path : String} {e : Expr} {j : Json} (hs : w.heap.Shows e j) :
      GraphJson.ofExpr .strict (GraphJson.ofInstance w .strict (fuel + 1) [root]) path e =
        .ok (some j) := by
    cases hs with
    | missing ty => rfl
    | @scalar id v hv =>
      -- A scalar is not the object, which carries no data, and so it is no cycle.
      have hne : id ≠ root := by
        rintro rfl
        rw [hv.payload] at hpayload
        cases hpayload
      have hin : [root].contains id = false := by
        simpa using hne
      simp only [GraphJson.ofExpr, GraphJson.ofInstance, hin, Bool.false_eq_true, if_false,
        hv.payload]
      rfl
  rw [World.toJson, hfuel]
  unfold GraphJson.ofInstance
  simp only [List.contains_nil, Bool.false_eq_true, if_false, hpayload, hslots]
  rw [GraphJson.members_eq hrender hvalues [] hnames]
  rfl

/-- **The JSON of an object of a class** whose properties are visible, and still where they were
when the object was constructed. -/
theorem World.toJson_of_properties {σ : Type} {w : World σ} {root : InstanceId} {cls : TypeId}
    {scope : ScopeId} {native : Bool} (hplaced : root.index < w.heap.instances.size)
    (hpayload : (w.heap.get root).payload = .none)
    (hframes : (w.heap.get root).slots.map Slot.frame =
      (w.types.definition cls).properties.map
        fun p => (initialSlot native root cls scope p).frame)
    (hvisible : ∀ p ∈ (w.types.definition cls).properties, p.visibility = .visible)
    (hnames : ((w.types.definition cls).properties.map (·.name)).Nodup) {values : List Json}
    (hvalues : List.Forall₂ (fun (slot : Slot) j => w.heap.Shows slot.expr j)
      (w.heap.get root).slots values) :
    w.toJson .strict root =
      .ok (.object (((w.types.definition cls).properties.map (·.name)).zip values)) := by
  have hslots : (w.heap.get root).slots.map (·.name) =
      (w.types.definition cls).properties.map (·.name) := by
    have h := congrArg (List.map Prod.fst) hframes
    simpa only [List.map_map, Function.comp_def, Slot.frame, initialSlot] using h
  rw [← hslots]
  refine World.toJson_of_shows hplaced hpayload (fun slot hslot => ?_) (hslots ▸ hnames) hvalues
  -- The frame of a slot names the class that has declared it.
  have hdeclaring : slot.declaring = cls := by
    have hmem : slot.frame ∈ (w.heap.get root).slots.map Slot.frame :=
      List.mem_map.mpr ⟨slot, hslot, rfl⟩
    rw [hframes] at hmem
    obtain ⟨p, -, hp⟩ := List.mem_map.mp hmem
    exact (congrArg (fun frame => frame.2.1) hp).symm
  rw [Rendering.isShown, hdeclaring, Option.all_eq_true]
  intro p hp
  exact beq_iff_eq.mpr (hvisible p (List.mem_of_find?_eq_some hp))

end ObjectGraph
