import Mathlib.Data.List.Basic
import ObjectGraph.Output.GraphJson
import ObjectGraph.Output.GraphText

/-!
# Outlines

JSON and text are two formats of the same traversal. What it meets on its way is an outline of the
graph: a tree whose leaves are scalars, types, missing values, functions, and what stands for values
that are not final and for instances inside of themselves. Each format is a function of the outline
(`Outline.json`, `Outline.text`), so that what holds of outlines holds of both.

The traversal of `World.outline` has no bound on its depth. It ends because an instance is entered
only outside of itself, and each instance that it enters leaves fewer to enter (`World.unentered`).
That the bound of the two renderings is never met is part of `World.toJson_eq_outline` and
`World.toText_eq_outline`.
-/

namespace ObjectGraph

open Rendering

variable {σ : Type}

/-- Optional outcomes that are there are equal only if the outcomes are. -/
theorem Rendering.eq_of_map_some {α : Type} {x y : Except EvalError α}
    (h : x.map some = y.map some) : x = y := by
  cases x with
  | error e =>
    cases y with
    | error e' => rw [Except.error.inj h]
    | ok b => cases h
  | ok a =>
    cases y with
    | error e => cases h
    | ok b => rw [Option.some.inj (Except.ok.inj h)]

/-- What is made of an outcome fails as the outcome does. -/
theorem Rendering.map_eq_error_iff {α β : Type} {x : Except EvalError α} {f : α → β}
    {error : EvalError} :
    x.map f = .error error ↔ x = .error error := by
  cases x with
  | error e =>
    refine ⟨fun h => ?_, fun h => ?_⟩
    · rw [Except.error.inj h]
    · rw [Except.error.inj h]
      rfl
  | ok a => exact ⟨nofun, nofun⟩

/-- What rendering makes of a value before the value is put into a format. -/
inductive Outline where
  /-- Confirmed absence. -/
  | missing
  /-- A function, which objects leave out. -/
  | omitted
  /-- A value that is not final, with the text of the expression. -/
  | unresolved (expr : String)
  /-- An instance inside of itself. -/
  | cycle
  /-- A scalar. -/
  | scalar (value : Scalar)
  /-- A reflection, with the name of its type. -/
  | reflection (name : String)
  /-- An array. -/
  | array (items : List Outline)
  /-- An object, with the name of its type and what is below its shown properties. -/
  | object (typeName : String) (members : List (String × Outline))

namespace Outline

/-! ## The two formats -/

mutual

/-- The JSON of an outline; nothing for functions. -/
def json : Outline → Option Json
  | .missing => some .null
  | .omitted => none
  | .unresolved _ => some (.string unresolvedText)
  | .cycle => some (.string cycleText)
  | .scalar value => some (GraphJson.ofScalar value)
  | .reflection name => some (.string name)
  | .array outlines => some (.array (jsonItems outlines))
  | .object _ members => some (.object (jsonMembers members []))

/-- The JSON of the items of an array. -/
def jsonItems : List Outline → List Json
  | [] => []
  | outline :: outlines => (json outline).getD .null :: jsonItems outlines

/-- The members of a JSON object, added to those before. -/
def jsonMembers : List (String × Outline) → List (String × Json) → List (String × Json)
  | [], before => before
  | (name, outline) :: members, before =>
    match json outline with
    | some value => jsonMembers members (Json.insertMember before name value)
    | none => jsonMembers members before

end

/-- The text of a scalar. -/
def scalarText : Scalar → String
  | .int value => Integer.text value
  | .float value => NumberNotation.plain.text value
  | .string value => Quoted.text value
  | .bool value => toString value

mutual

/-- The text of an outline at a level of indentation; nothing for functions. -/
def text (depth : ℕ) : Outline → Option String
  | .missing => some "null"
  | .omitted => none
  | .unresolved expr => some (unresolvedText ++ " " ++ expr)
  | .cycle => some cycleText
  | .scalar value => some (scalarText value)
  | .reflection name => some name
  | .array outlines => some ("[" ++ String.intercalate ", " (textItems depth outlines) ++ "]")
  | .object typeName members =>
    some (typeName ++ " \x7b\n" ++ textLines (depth + 1) members ++ GraphText.indent depth ++ "\x7d")

/-- The texts of the elements of an array. -/
def textItems (depth : ℕ) : List Outline → List String
  | [] => []
  | outline :: outlines => (text depth outline).getD "null" :: textItems depth outlines

/-- The lines of an object's properties. -/
def textLines (depth : ℕ) : List (String × Outline) → String
  | [] => ""
  | (name, outline) :: members =>
    match text depth outline with
    | some value => GraphText.indent depth ++ name ++ ": " ++ value ++ "\n" ++ textLines depth members
    | none => textLines depth members

end

/-! ## The traversal -/

/-- The outline of a value, given those of instances. -/
def ofExpr (w : World σ) (mode : RenderMode)
    (ofInstance : String → InstanceId → Except EvalError Outline) (path : String) :
    Expr → Except EvalError Outline
  | .missing _ => .ok .missing
  | .function _ _ | .unbound _ => .ok .omitted
  | .object id => ofInstance path id
  | e => replaceOr mode .unreduced path (.unresolved (e.text w.types w.scalarText?))

/-- The outlines of parts, each behind its segment of the path. -/
def ofParts (render : String → Expr → Except EvalError Outline) (path : String) :
    List (String × Expr) → Except EvalError (List (String × Outline))
  | [] => .ok []
  | (segment, e) :: parts => do
    let outline ← render (extend path segment) e
    return (segment, outline) :: (← ofParts render path parts)

/-- The first part comes before the rest. -/
theorem map_ofParts_cons {α : Type} {render : String → Expr → Except EvalError Outline}
    {path segment : String} {e : Expr} {parts : List (String × Expr)}
    (f : List (String × Outline) → α) :
    (ofParts render path ((segment, e) :: parts)).map f = (do
      let outline ← render (extend path segment) e
      (ofParts render path parts).map fun rest => f ((segment, outline) :: rest)) := by
  rw [ofParts]
  cases render (extend path segment) e with
  | error error => rfl
  | ok outline => cases ofParts render path parts <;> rfl

end Outline

namespace World

/-- The elements of an array from the given index on, each with its segment. -/
def elementParts : ℕ → List Expr → List (String × Expr)
  | _, [] => []
  | index, e :: es => (elementSegment index, e) :: elementParts (index + 1) es

/-- The parts of an array are its elements. -/
theorem mem_of_mem_elementParts {index : ℕ} {es : List Expr} {part : String × Expr}
    (h : part ∈ elementParts index es) : part.2 ∈ es := by
  induction es generalizing index with
  | nil => cases h
  | cons e es ih =>
    rcases List.mem_cons.mp h with rfl | h
    · exact List.mem_cons_self
    · exact List.mem_cons_of_mem _ (ih h)

/-- The values that rendering an instance goes on to, each with its segment of the path. -/
def parts (w : World σ) (id : InstanceId) : List (String × Expr) :=
  match (w.heap.get id).payload with
  | .scalar _ | .type _ => []
  | .array elements => elementParts 0 elements
  | .none | .host _ => (shownSlots w id).map fun slot => (slot.name, slot.expr)

/-- The outline of an instance over those of its parts. -/
def assemble (w : World σ) (id : InstanceId) (parts : List (String × Outline)) : Outline :=
  match (w.heap.get id).payload with
  | .scalar value => .scalar value
  | .type ty => .reflection (w.types.name ty)
  | .array _ => .array (parts.map (·.2))
  | .none | .host _ => .object (w.typeName id) parts

/-- How many instances on the heap are not among those that a value is inside of. -/
def unentered (w : World σ) (around : List InstanceId) : ℕ :=
  (List.range w.heap.instances.size).countP fun index => !around.contains ⟨index⟩

/-- These are at most all that there are. -/
theorem unentered_le (w : World σ) (around : List InstanceId) :
    w.unentered around ≤ w.heap.instances.size := by
  have hle := List.countP_le_length (p := fun index => !around.contains (⟨index⟩ : InstanceId))
    (l := List.range w.heap.instances.size)
  rwa [List.length_range] at hle

/-- Entering an instance leaves one less. -/
theorem unentered_cons_lt {w : World σ} {around : List InstanceId} {id : InstanceId}
    (hin : around.contains id = false) (hplaced : id.index < w.heap.instances.size) :
    w.unentered (id :: around) < w.unentered around := by
  obtain ⟨before, after, hsplit⟩ := List.append_of_mem (List.mem_range.mpr hplaced)
  have hmono (l : List ℕ) : (l.countP fun index => !(id :: around).contains ⟨index⟩) ≤
      l.countP fun index => !around.contains ⟨index⟩ := by
    refine List.countP_mono_left fun index _ h => ?_
    rw [List.contains_cons, Bool.not_or, Bool.and_eq_true] at h
    exact h.2
  have hself : (id :: around).contains ⟨id.index⟩ = true := by
    rw [List.contains_cons, beq_self_eq_true, Bool.true_or]
  -- The instance itself is counted before it is entered, and not after.
  have hb := hmono before
  have ha := hmono after
  simp only [unentered, hsplit, List.countP_append, List.countP_cons, hself, hin, Bool.not_true,
    Bool.not_false, Bool.false_eq_true, if_true, if_false]
  omega

/-- The outline of an instance inside of the instances `around`. An instance that is not on the heap
has no parts. -/
def outline (w : World σ) (mode : RenderMode) (around : List InstanceId) (path : String)
    (id : InstanceId) : Except EvalError Outline :=
  if around.contains id then replaceOr mode .cycle path .cycle
  else if id.index < w.heap.instances.size then
    (Outline.ofParts (Outline.ofExpr w mode (outline w mode (id :: around))) path
      (w.parts id)).map (w.assemble id)
  else .ok (w.assemble id [])
termination_by w.unentered around
decreasing_by exact unentered_cons_lt (Bool.eq_false_iff.mpr ‹_›) ‹_›

/-- An instance that is not on the heap has no parts. -/
theorem parts_of_le {w : World σ} {id : InstanceId} (hle : w.heap.instances.size ≤ id.index) :
    w.parts id = [] := by
  have hdefault : w.heap.get id = default := by
    rw [Heap.get, Array.getD_eq_getD_getElem?, Array.getElem?_eq_none hle]
    rfl
  rw [parts, shownSlots, hdefault]
  rfl

/-- What an instance inside of itself comes to. -/
theorem outline_of_inside {w : World σ} {mode : RenderMode} {around : List InstanceId}
    {path : String} {id : InstanceId} (hin : around.contains id = true) :
    w.outline mode around path id = replaceOr mode .cycle path .cycle := by
  rw [outline, if_pos hin]

/-- What an instance that is entered comes to. -/
theorem outline_of_outside {w : World σ} {mode : RenderMode} {around : List InstanceId}
    {path : String} {id : InstanceId} (hin : around.contains id = false) :
    w.outline mode around path id =
      (Outline.ofParts (Outline.ofExpr w mode (w.outline mode (id :: around))) path
        (w.parts id)).map (w.assemble id) := by
  rw [outline, if_neg (Bool.eq_false_iff.mp hin)]
  split
  · rfl
  case isFalse hplaced =>
    rw [parts_of_le (Nat.le_of_not_lt hplaced)]
    rfl

/-- A rendering with a bound on its depth that takes the steps of the traversal is a format of
outlines, if the bound is above the number of instances left to enter. -/
theorem eq_outline_of_steps {α : Type} {w : World σ} {mode : RenderMode}
    (ofInstance : ℕ → List InstanceId → ℕ → String → InstanceId → Except EvalError α)
    (format : ℕ → Outline → α)
    (hinside : ∀ {fuel around depth path id}, around.contains id = true →
      ofInstance (fuel + 1) around depth path id =
        replaceOr mode .cycle path (format depth .cycle))
    (houtside : ∀ {fuel around depth path id}, around.contains id = false →
      (∀ part ∈ w.parts id, ∀ r, part.2 = .object r → ∀ depth path,
        ofInstance fuel (id :: around) depth path r =
          (w.outline mode (id :: around) path r).map (format depth)) →
      ofInstance (fuel + 1) around depth path id =
        (w.outline mode around path id).map (format depth))
    (around : List InstanceId) (depth : ℕ) (path : String) (id : InstanceId) {fuel : ℕ}
    (hfuel : w.unentered around < fuel) :
    ofInstance fuel around depth path id =
      (w.outline mode around path id).map (format depth) := by
  -- Along the traversal: the bound sinks by one with each instance that is entered, and so does at
  -- least the number of those left to enter. At the bound itself there are none.
  induction around, path, id using World.outline.induct w generalizing fuel depth with
  | case1 around path id hin =>
    obtain ⟨fuel, rfl⟩ := Nat.exists_eq_succ_of_ne_zero (Nat.ne_zero_of_lt hfuel)
    rw [hinside hin, outline_of_inside hin]
    cases mode <;> rfl
  | case2 around path id hin hplaced ih =>
    obtain ⟨fuel, rfl⟩ := Nat.exists_eq_succ_of_ne_zero (Nat.ne_zero_of_lt hfuel)
    have hout : around.contains id = false := Bool.eq_false_iff.mpr hin
    have hlt : w.unentered (id :: around) < w.unentered around := unentered_cons_lt hout hplaced
    exact houtside hout fun part _ r _ depth path => ih path r depth (by omega)
  | case3 around path id hin hplaced =>
    obtain ⟨fuel, rfl⟩ := Nat.exists_eq_succ_of_ne_zero (Nat.ne_zero_of_lt hfuel)
    refine houtside (Bool.eq_false_iff.mpr hin) fun part hpart => ?_
    rw [parts_of_le (Nat.le_of_not_lt hplaced)] at hpart
    cases hpart

end World

/-! ## JSON is a format of outlines -/

namespace GraphJson

variable {w : World σ} {mode : RenderMode} {render : String → Expr → Except EvalError (Option Json)}
  {outlines : String → Expr → Except EvalError Outline}

/-- The JSON of a value, if that of instances comes from their outlines. -/
theorem ofExpr_eq_outline {ofInstance : String → InstanceId → Except EvalError Json}
    {ofOutline : String → InstanceId → Except EvalError Outline} {e : Expr} {path : String}
    (h : ∀ r, e = .object r →
      (ofInstance path r).map some = (ofOutline path r).map Outline.json) :
    ofExpr mode ofInstance path e = (Outline.ofExpr w mode ofOutline path e).map Outline.json := by
  cases e with
  | object id => exact h id rfl
  | missing ty => rfl
  | function method receiver => rfl
  | unbound method => rfl
  | _ => cases mode <;> rfl

/-- The items of an array. -/
theorem items_eq_outline {path : String} {es : List Expr} {index : ℕ}
    (h : ∀ part ∈ World.elementParts index es, ∀ path,
      render path part.2 = (outlines path part.2).map Outline.json) :
    items render path index es =
      (Outline.ofParts outlines path (World.elementParts index es)).map
        fun parts => Outline.jsonItems (parts.map (·.2)) := by
  induction es generalizing index with
  | nil => rfl
  | cons e es ih =>
    obtain ⟨he, hes⟩ := List.forall_mem_cons.mp h
    rw [items, World.elementParts, Outline.map_ofParts_cons, he, ih hes]
    cases outlines (extend path (elementSegment index)) e with
    | error error => rfl
    | ok outline =>
      cases Outline.ofParts outlines path (World.elementParts (index + 1) es) <;> rfl

/-- The members of an object. -/
theorem members_eq_outline {path : String} {slots : List Slot}
    (h : ∀ part ∈ slots.map fun slot => (slot.name, slot.expr), ∀ path,
      render path part.2 = (outlines path part.2).map Outline.json)
    (before : List (String × Json)) :
    members render path slots before =
      (Outline.ofParts outlines path (slots.map fun slot => (slot.name, slot.expr))).map
        fun parts => Outline.jsonMembers parts before := by
  induction slots generalizing before with
  | nil => rfl
  | cons slot slots ih =>
    obtain ⟨hslot, hslots⟩ := List.forall_mem_cons.mp h
    rw [members, List.map_cons, Outline.map_ofParts_cons, hslot]
    cases outlines (extend path slot.name) slot.expr with
    | error error => rfl
    | ok outline =>
      show (match outline.json with
        | some value => members render path slots (Json.insertMember before slot.name value)
        | none => members render path slots before) =
        (Outline.ofParts outlines path (slots.map fun slot => (slot.name, slot.expr))).map
          fun rest => Outline.jsonMembers ((slot.name, outline) :: rest) before
      simp only [Outline.jsonMembers, ih hslots]
      cases outline.json <;> rfl

/-- The JSON of an instance that is entered. -/
theorem ofInstance_succ_eq_outline {fuel : ℕ} {around : List InstanceId} {path : String}
    {id : InstanceId} (hin : around.contains id = false)
    (h : ∀ part ∈ w.parts id, ∀ path,
      ofExpr mode (ofInstance w mode fuel (id :: around)) path part.2 =
        (outlines path part.2).map Outline.json) :
    (ofInstance w mode (fuel + 1) around path id).map some =
      (Outline.ofParts outlines path (w.parts id)).map fun parts => (w.assemble id parts).json := by
  rw [ofInstance, if_neg (Bool.eq_false_iff.mp hin)]
  dsimp only
  unfold World.parts at h ⊢
  unfold World.assemble
  cases hp : (w.heap.get id).payload with
  | scalar value => rfl
  | type ty => rfl
  | array elements =>
    simp only [hp] at h ⊢
    rw [items_eq_outline h]
    cases Outline.ofParts outlines path (World.elementParts 0 elements) <;> rfl
  | none | host data =>
    simp only [hp] at h ⊢
    rw [members_eq_outline h]
    cases Outline.ofParts outlines path _ <;> rfl

/-- With enough depth, the JSON of an instance is that of its outline. -/
theorem ofInstance_eq_outline (around : List InstanceId) (path : String) (id : InstanceId)
    {fuel : ℕ} (hfuel : w.unentered around < fuel) :
    (ofInstance w mode fuel around path id).map some =
      (w.outline mode around path id).map Outline.json := by
  refine World.eq_outline_of_steps
    (fun fuel around _ path id => (ofInstance w mode fuel around path id).map some)
    (fun _ => Outline.json) (fun hin => ?_) (fun hin h => ?_) around 0 path id hfuel
  · rw [ofInstance, if_pos hin]
    cases mode <;> rfl
  · rw [World.outline_of_outside hin, ofInstance_succ_eq_outline hin fun part hpart path =>
      ofExpr_eq_outline fun r hr => h part hpart r hr 0 path]
    cases Outline.ofParts _ _ (w.parts _) <;> rfl

end GraphJson

/-- **JSON is a format of outlines.** -/
theorem World.toJson_eq_outline {w : World σ} (mode : RenderMode) (root : InstanceId) :
    (w.toJson mode root).map some = (w.outline mode [] "" root).map Outline.json :=
  GraphJson.ofInstance_eq_outline [] "" root (Nat.lt_succ_of_le (w.unentered_le []))

/-- The JSON fails as the outline does. -/
theorem World.toJson_eq_error_iff {w : World σ} {mode : RenderMode} {root : InstanceId}
    {error : EvalError} :
    w.toJson mode root = .error error ↔ w.outline mode [] "" root = .error error := by
  rw [← map_eq_error_iff (f := some), toJson_eq_outline, map_eq_error_iff]

/-! ## Text is a format of outlines -/

namespace GraphText

variable {w : World σ} {mode : RenderMode} {depth : ℕ}
  {render : String → Expr → Except EvalError (Option String)}
  {outlines : String → Expr → Except EvalError Outline}

/-- The text of a value, if that of instances comes from their outlines. -/
theorem ofExpr_eq_outline {ofInstance : String → InstanceId → Except EvalError String}
    {ofOutline : String → InstanceId → Except EvalError Outline}
    {e : Expr} {path : String}
    (h : ∀ r, e = .object r →
      (ofInstance path r).map some = (ofOutline path r).map (Outline.text depth)) :
    ofExpr w mode ofInstance path e =
      (Outline.ofExpr w mode ofOutline path e).map (Outline.text depth) := by
  cases e with
  | object id => exact h id rfl
  | missing ty => rfl
  | function method receiver => rfl
  | unbound method => rfl
  | _ => cases mode <;> rfl

/-- The elements of an array. -/
theorem items_eq_outline {path : String} {es : List Expr} {index : ℕ}
    (h : ∀ part ∈ World.elementParts index es, ∀ path,
      render path part.2 = (outlines path part.2).map (Outline.text depth)) :
    items render path index es =
      (Outline.ofParts outlines path (World.elementParts index es)).map
        fun parts => Outline.textItems depth (parts.map (·.2)) := by
  induction es generalizing index with
  | nil => rfl
  | cons e es ih =>
    obtain ⟨he, hes⟩ := List.forall_mem_cons.mp h
    rw [items, World.elementParts, Outline.map_ofParts_cons, he, ih hes]
    cases outlines (extend path (elementSegment index)) e with
    | error error => rfl
    | ok outline =>
      cases Outline.ofParts outlines path (World.elementParts (index + 1) es) <;> rfl

/-- The lines of an object's properties. -/
theorem lines_eq_outline {path : String} {slots : List Slot}
    (h : ∀ part ∈ slots.map fun slot => (slot.name, slot.expr), ∀ path,
      render path part.2 = (outlines path part.2).map (Outline.text depth)) :
    lines render path depth slots =
      (Outline.ofParts outlines path (slots.map fun slot => (slot.name, slot.expr))).map
        (Outline.textLines depth) := by
  induction slots with
  | nil => rfl
  | cons slot slots ih =>
    obtain ⟨hslot, hslots⟩ := List.forall_mem_cons.mp h
    rw [lines, List.map_cons, Outline.map_ofParts_cons, hslot, ih hslots]
    cases outlines (extend path slot.name) slot.expr with
    | error error => rfl
    | ok outline =>
      cases Outline.ofParts outlines path (slots.map fun slot => (slot.name, slot.expr)) with
      | error error => rfl
      | ok rest => rfl

/-- The text of an instance that is entered. -/
theorem ofInstance_succ_eq_outline {fuel : ℕ} {around : List InstanceId} {path : String}
    {id : InstanceId} (hin : around.contains id = false)
    (h : ∀ part ∈ w.parts id, ∀ depth path,
      ofExpr w mode (ofInstance w mode fuel (id :: around) depth) path part.2 =
        (outlines path part.2).map (Outline.text depth)) :
    (ofInstance w mode (fuel + 1) around depth path id).map some =
      (Outline.ofParts outlines path (w.parts id)).map
        fun parts => (w.assemble id parts).text depth := by
  rw [ofInstance, if_neg (Bool.eq_false_iff.mp hin)]
  dsimp only
  unfold World.parts at h ⊢
  unfold World.assemble World.shownText World.scalarText?
  cases hp : (w.heap.get id).payload with
  | scalar value => cases value <;> rfl
  | type ty => rfl
  | array elements =>
    simp only [hp] at h ⊢
    rw [items_eq_outline fun part hpart => h part hpart depth]
    cases Outline.ofParts outlines path (World.elementParts 0 elements) <;> rfl
  | none | host data =>
    -- The properties stand one level further in than the instance.
    simp only [hp] at h ⊢
    rw [lines_eq_outline fun part hpart => h part hpart (depth + 1)]
    cases Outline.ofParts outlines path _ <;> rfl

/-- With enough depth, the text of an instance is that of its outline. -/
theorem ofInstance_eq_outline (around : List InstanceId) (depth : ℕ) (path : String)
    (id : InstanceId) {fuel : ℕ} (hfuel : w.unentered around < fuel) :
    (ofInstance w mode fuel around depth path id).map some =
      (w.outline mode around path id).map (Outline.text depth) := by
  refine World.eq_outline_of_steps
    (fun fuel around depth path id => (ofInstance w mode fuel around depth path id).map some)
    Outline.text (fun hin => ?_) (fun hin h => ?_) around depth path id hfuel
  · rw [ofInstance, if_pos hin]
    cases mode <;> rfl
  · rw [World.outline_of_outside hin, ofInstance_succ_eq_outline hin fun part hpart depth path =>
      ofExpr_eq_outline fun r hr => h part hpart r hr depth path]
    cases Outline.ofParts _ _ (w.parts _) <;> rfl

end GraphText

/-- **Text is a format of outlines.** -/
theorem World.toText_eq_outline {w : World σ} (mode : RenderMode) (root : InstanceId) :
    (w.toText mode root).map some = (w.outline mode [] "" root).map (Outline.text 0) :=
  GraphText.ofInstance_eq_outline [] 0 "" root (Nat.lt_succ_of_le (w.unentered_le []))

/-- The text fails as the outline does. -/
theorem World.toText_eq_error_iff {w : World σ} {mode : RenderMode} {root : InstanceId}
    {error : EvalError} :
    w.toText mode root = .error error ↔ w.outline mode [] "" root = .error error := by
  rw [← map_eq_error_iff (f := some), toText_eq_outline, map_eq_error_iff]

end ObjectGraph
