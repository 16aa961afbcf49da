import ObjectGraph.Proofs.Construct
import ObjectGraph.Proofs.Output.Outline

/-!
# Hidden properties do not show

Two worlds that are the same but for what hidden properties hold have the same renderings, in both
formats and both modes, and the same errors (`World.hidden_not_shown`). What is below an instance is
read in two places only, for the parts that rendering goes on to and for what is made of them
(`World.parts`, `World.assemble`), and neither depends on a hidden property.
-/

namespace ObjectGraph

variable {σ : Type} {types : Registry} {w w' : World σ}

/-- The declaration of a slot's property hides it. -/
def Slot.IsHidden (types : Registry) (slot : Slot) : Prop :=
  ∃ p, (types.definition slot.declaring).property? slot.name = some p ∧ p.visibility = .hidden

/-- Two slots are the same but for what they hold if they are hidden. -/
structure Slot.SameButHidden (types : Registry) (slot slot' : Slot) : Prop where
  /-- The name. -/
  name : slot.name = slot'.name
  /-- The type that declares the property. -/
  declaring : slot.declaring = slot'.declaring
  /-- The declared type. -/
  ty : slot.ty = slot'.ty
  /-- What the slot holds. -/
  expr : ¬ slot.IsHidden types → slot.expr = slot'.expr

/-- Two instances are the same but for what hidden slots hold. -/
structure Instance.SameButHidden (types : Registry) (i i' : Instance) : Prop where
  /-- The runtime type. -/
  ty : i.ty = i'.ty
  /-- The data besides the properties. -/
  payload : i.payload = i'.payload
  /-- The properties, one by one. -/
  slots : List.Forall₂ (Slot.SameButHidden types) i.slots i'.slots

/-- Two worlds are the same but for what hidden slots hold. Nothing is asked of what rendering does
not look at: scopes, promises, the marks of final instances and the host's state. -/
structure World.SameButHidden (w w' : World σ) : Prop where
  /-- The registered types. -/
  types : w.types = w'.types
  /-- The instances, one by one. -/
  instances : ∀ id, (w.heap.get id).SameButHidden w.types (w'.heap.get id)

namespace Rendering

/-- Rendering shows the slots that are not hidden. -/
theorem isShown_iff {slot : Slot} : isShown types slot = true ↔ ¬ slot.IsHidden types := by
  unfold isShown Slot.IsHidden
  cases (types.definition slot.declaring).property? slot.name with
  | none => simp
  | some p => cases hp : p.visibility <;> simp [hp]

/-- The slots that are shown have the same names and values. -/
theorem shown_of_sameButHidden {slots slots' : List Slot}
    (h : List.Forall₂ (Slot.SameButHidden types) slots slots') :
    (slots.filter (isShown types)).map (fun slot => (slot.name, slot.expr)) =
      (slots'.filter (isShown types)).map fun slot => (slot.name, slot.expr) := by
  induction h with
  | nil => rfl
  | @cons slot slot' slots slots' hslot _ ih =>
    have hshown : isShown types slot = isShown types slot' := by
      rw [isShown, isShown, hslot.declaring, hslot.name]
    rw [List.filter_cons, List.filter_cons, ← hshown]
    split
    case isTrue hs =>
      rw [List.map_cons, List.map_cons, ih, hslot.name, hslot.expr (isShown_iff.mp hs)]
    case isFalse => exact ih

end Rendering

namespace World.SameButHidden

/-- The parts that rendering goes on to are the same. -/
theorem parts (h : w.SameButHidden w') (id : InstanceId) : w.parts id = w'.parts id := by
  have hid := h.instances id
  unfold World.parts Rendering.shownSlots
  rw [← hid.payload, ← h.types]
  split
  · rfl
  · rfl
  · rfl
  · exact Rendering.shown_of_sameButHidden hid.slots
  · exact Rendering.shown_of_sameButHidden hid.slots

/-- What is made of the parts is the same. -/
theorem assemble (h : w.SameButHidden w') (id : InstanceId) : w.assemble id = w'.assemble id := by
  have hid := h.instances id
  funext parts
  unfold World.assemble World.typeName
  rw [← hid.payload, ← h.types, ← hid.ty]

/-- The texts of scalars and reflections are the same. -/
theorem scalarText (h : w.SameButHidden w') : w.scalarText? = w'.scalarText? := by
  funext id
  unfold World.scalarText?
  rw [← (h.instances id).payload, ← h.types]

/-- The outlines of values come from those of instances in the same way. -/
theorem ofExpr (h : w.SameButHidden w') (mode : RenderMode) :
    Outline.ofExpr w mode = Outline.ofExpr w' mode := by
  funext ofInstance path e
  cases e <;> simp only [Outline.ofExpr, h.types, h.scalarText]

/-- The outlines are the same. -/
theorem outline (h : w.SameButHidden w') (mode : RenderMode) (around : List InstanceId)
    (path : String) (id : InstanceId) :
    w.outline mode around path id = w'.outline mode around path id := by
  induction around, path, id using World.outline.induct w with
  | case1 around path id hin => rw [outline_of_inside hin, outline_of_inside hin]
  | case2 around path id hin hplaced ih =>
    have hout : around.contains id = false := Bool.eq_false_iff.mpr hin
    have hinstances : w.outline mode (id :: around) = w'.outline mode (id :: around) :=
      funext fun path => funext fun r => ih path r
    rw [outline_of_outside hout, outline_of_outside hout, h.parts, h.assemble, h.ofExpr,
      hinstances]
  | case3 around path id hin hplaced =>
    -- The instance has no parts in the one world, and so it has none in the other.
    have hout : around.contains id = false := Bool.eq_false_iff.mpr hin
    have hparts : w.parts id = [] := parts_of_le (Nat.le_of_not_lt hplaced)
    rw [outline_of_outside hout, outline_of_outside hout, ← h.parts, hparts, h.assemble]
    rfl

end World.SameButHidden

/-- **Hidden properties do not show.** Whatever the hidden properties hold, be it values, expressions
that are not final or references back, the JSON and the text below an instance are the same, and so
are the errors. -/
theorem World.hidden_not_shown (h : w.SameButHidden w') (mode : RenderMode) (root : InstanceId) :
    w.toJson mode root = w'.toJson mode root ∧ w.toText mode root = w'.toText mode root := by
  constructor
  · apply Rendering.eq_of_map_some
    rw [toJson_eq_outline, toJson_eq_outline, h.outline]
  · apply Rendering.eq_of_map_some
    rw [toText_eq_outline, toText_eq_outline, h.outline]

/-! ## An object with a secret -/

/-- A class with a visible property and a hidden one. -/
def guarded : ClassBody where
  properties := [⟨"open", .visible, .int, none⟩, ⟨"secret", .hidden, .main, none⟩]

namespace World

/-- A world with one object of the class, whose secret is given. -/
def withSecret (secret : Expr) : World Unit where
  types := .ofClass guarded
  heap := { Heap.empty with instances := #[{
    ty := .main, payload := .none, scopes := [], sealed := false
    slots := [⟨"open", .main, .int, .missing .int⟩, ⟨"secret", .main, .main, secret⟩] }] }
  host := ()

/-- The worlds differ in the secret only. -/
theorem sameButHidden_withSecret (secret secret' : Expr) :
    (withSecret secret).SameButHidden (withSecret secret') where
  types := rfl
  instances
    | ⟨0⟩ =>
      have hhidden : Slot.IsHidden (.ofClass guarded) ⟨"secret", .main, .main, secret⟩ :=
        ⟨⟨"secret", .hidden, .main, none⟩, rfl, rfl⟩
      ⟨rfl, rfl, .cons ⟨rfl, rfl, rfl, fun _ => rfl⟩
        (.cons ⟨rfl, rfl, rfl, fun h => absurd hhidden h⟩ .nil)⟩
    | ⟨_ + 1⟩ => ⟨rfl, rfl, .nil⟩

/-- The object is shown alike with a secret that refers back to it and with one that is not final
yet. -/
theorem hidden_not_shown_guarded :
    (withSecret (.object ⟨0⟩)).toJson .strict ⟨0⟩ = (withSecret (.this .main)).toJson .strict ⟨0⟩ ∧
      (withSecret (.object ⟨0⟩)).toText .strict ⟨0⟩ =
        (withSecret (.this .main)).toText .strict ⟨0⟩ :=
  hidden_not_shown (sameButHidden_withSecret (.object ⟨0⟩) (.this .main)) .strict ⟨0⟩

end World

end ObjectGraph
