import ObjectGraph.Proofs.PlainObject
import ObjectGraph.Proofs.Run.Completion
import ObjectGraph.Proofs.Run.Rounds
import ObjectGraph.Proofs.Run.SealOrder

/-!
# Standstills are genuine

If all values below a root are terminal, then the next sweep seals the whole graph, circles included
(`World.Sound.ends_sweep`). Three things come together for this: discovery finds every instance that
the values lead to, passes leave an instance alone that holds values only (`World.Later.values`), and
what can be sealed together is as large as it can be (`Heap.mem_sealable_of_closed`). At a standstill
a sweep changes nothing, and so some value below the root is not terminal
(`World.standstill_genuine`).
-/

namespace ObjectGraph

variable {σ : Type} {natives : Natives σ} {w w' : World σ} {root id : InstanceId}

/-! ## What values refer to -/

namespace Heap

variable {h : Heap}

/-- One of the first instance's values is the second instance, or a function bound to it. -/
def Refers (h : Heap) (a b : InstanceId) : Prop := ∃ e ∈ (h.get a).values, e.referent = some b

/-- The second instance is the first one, or the values of instances lead there from it. -/
def LeadsTo (h : Heap) : InstanceId → InstanceId → Prop := Relation.ReflTransGen h.Refers

/-- All values are terminal that values lead to from the root. -/
def Evaluated (h : Heap) (root : InstanceId) : Prop :=
  ∀ id, h.LeadsTo root id → ∀ e ∈ (h.get id).values, e.isTerminal = true

/-- What values lead to is on the heap. -/
theorem Grounded.has_of_leadsTo (hg : h.Grounded) (hroot : h.Has (.object root))
    (hid : h.LeadsTo root id) : h.Has (.object id) := by
  induction hid with
  | refl => exact hroot
  | tail _ hrefers ih =>
    obtain ⟨e, he, href⟩ := hrefers
    exact hg.has_handles (hg.values he) (mem_handles_of_referent href)

/-- Discovery finds what values lead to, unless it is final. -/
theorem SealSound.mem_discover (hs : h.SealSound) (hid : h.LeadsTo root id)
    (hopen : (h.get id).sealed = false) : id ∈ (h.discover root).instances.toList := by
  have hreaches : h.Reaches (.object root) (.object id) := by
    induction hid with
    | refl => exact .refl
    | @tail m id hm hrefers ih =>
      obtain ⟨e, he, href⟩ := hrefers
      -- What is final leads to what is final, so that the instance before is not.
      have hm : (h.get m).sealed = false := Bool.eq_false_iff.mpr fun hsealed => by
        rw [hs.referent hsealed he href] at hopen
        cases hopen
      refine (ih hm).tail ?_
      rw [leads, hm, if_neg Bool.false_ne_true]
      exact List.mem_append_right _ (List.mem_flatMap.mpr ⟨e, he, mem_handles_of_referent href⟩)
  have hhas : (h.discover root).has (.object id) = true :=
    (has_discover_iff root).mpr ⟨hreaches, by rw [isOpen, hopen]; rfl⟩
  exact Listing.mem_toList.mpr hhas

/-! ## What can be sealed -/

variable {P : InstanceId → Prop}

/-- No round drops instances that refer to final instances and to each other only. -/
theorem mem_largestSupported
    (hclosed : ∀ id, P id → ∀ r, h.Refers id r → (h.get r).sealed = true ∨ P r) (fuel : ℕ)
    {ids : List InstanceId} (hids : ∀ id, P id → id ∈ ids) (hid : P id) :
    id ∈ h.largestSupported fuel ids := by
  induction fuel generalizing ids with
  | zero => exact hids id hid
  | succ fuel ih =>
    simp only [largestSupported]
    split
    · exact hids id hid
    · refine ih fun i hi => List.mem_filter.mpr ⟨hids i hi, ?_⟩
      rw [isSupported, List.all_eq_true]
      intro e he
      cases href : e.referent with
      | none => rfl
      | some r =>
        rw [Bool.or_eq_true, List.contains_iff_mem]
        exact (hclosed i hi r ⟨e, he, href⟩).imp_right (hids r)

/-- Finished instances that refer to final instances and to each other only can be sealed. -/
theorem mem_sealable_of_closed {ids : List InstanceId}
    (hids : ∀ id, P id → id ∈ ids ∧ h.isFinished id = true)
    (hclosed : ∀ id, P id → ∀ r, h.Refers id r → (h.get r).sealed = true ∨ P r) (hid : P id) :
    id ∈ h.sealable ids :=
  mem_largestSupported hclosed _ (fun i hi => List.mem_filter.mpr (hids i hi)) hid

end Heap

/-! ## Instances that hold values only -/

/-- Sealing discovered instances marks those that can be sealed. -/
theorem Effect.sealDiscovered_eq (hn : natives.Inert) (ids : List InstanceId) (w : World σ) :
    sealDiscovered natives ids w =
      .ok (w.heap.sealingOrder ids).length
        { w with heap := w.heap.markAllSealed (w.heap.sealingOrder ids) } :=
  sealEach_eq_markAllSealed hn (w.heap.sealingOrder ids) w

namespace World

/-- What may become of an instance in a step. -/
inductive Touched (w w' : World σ) (id : InstanceId) : Prop
  /-- All but its mark is as before. -/
  | marked (mark : Bool) (same : w'.heap.get id = { w.heap.get id with sealed := mark })
  /-- One of its cells that is not terminal is written. -/
  | written {h : Heap} {c : Cell} {e next : Expr} (before : h.get id = w.heap.get id)
      (own : c.node = .object id) (held : w.heap.read? c = some e)
      (pending : e.isTerminal = false) (same : w'.heap.get id = (h.write c next).get id)

/-- In a step an instance is marked as final, or a cell of it is written, or it stays as it is. -/
theorem Step.touched (hn : natives.Inert) (hw : w.Sound) (h : Step natives w w')
    (hid : w.heap.Has (.object id)) : w.Touched w' id := by
  cases h with
  | construct hargs =>
    exact .marked _ ((Keeps.construct natives hw.toGrounded hargs).after.kept hid)
  | pass c =>
    refine Effect.after_sweepCell (P := fun w' => w.Touched w' id) hn hw.toGrounded
      (fun w₁ hc => .marked _ (hc.kept hid)) fun e next w₁ hread hpending hc _ => ?_
    by_cases hown : c.node = .object id
    · exact .written (hc.kept hid) hown hread hpending rfl
    · exact .marked _ ((Heap.get_write_of_ne hown).trans (hc.kept hid))
  | @seals ids _ =>
    rw [Effect.after, Effect.sealDiscovered_eq hn]
    exact .marked _ (Heap.get_markAllSealed ..)
  | await ids =>
    have hsame := (Heap.Awaits.await ids hw.heap).same
    have hget : (Heap.await ids w.heap).2.get id = w.heap.get id := by
      rw [Heap.get, hsame, ← Heap.get]
    exact .marked _ hget

/-- A step leaves the values of an instance alone that are all terminal. -/
theorem Step.values (hn : natives.Inert) (hw : w.Sound) (h : Step natives w w')
    (hid : w.heap.Has (.object id)) (hterminal : ∀ e ∈ (w.heap.get id).values, e.isTerminal = true) :
    (w'.heap.get id).values = (w.heap.get id).values := by
  cases h.touched hn hw hid with
  | marked mark same =>
    rw [same]
    rfl
  | written before own held pending same =>
    -- No cell of the instance is written, since they hold values.
    have hvalue := hterminal _ (Heap.mem_values_of_read? held own)
    rw [pending] at hvalue
    cases hvalue

/-- So do steps one after the other. -/
theorem Later.values (hn : natives.Inert) (hw : w.Sound) (h : Later natives w w')
    (hid : w.heap.Has (.object id)) (hterminal : ∀ e ∈ (w.heap.get id).values, e.isTerminal = true) :
    (w'.heap.get id).values = (w.heap.get id).values := by
  induction h with
  | refl => rfl
  | @tail w₁ w₂ hlater hstep ih =>
    have hsettles := Later.settles hn hw hlater
    rw [← ih]
    exact hstep.values hn hsettles.sound (hsettles.has hid) (ih ▸ hterminal)

/-! ## Evaluated graphs -/

variable (hn : natives.Inert) (hw : w.Sound) (hroot : w.heap.Has (.object root))
variable (heval : w.heap.Evaluated root)
include hn hw hroot heval

/-- Once all values below a root are terminal, sealing what has been discovered from it seals them
all, also if steps have come in between. -/
theorem Sound.ends_sealDiscovered {w₁ : World σ} (hlater : w.Later natives w₁) :
    Ends (Effect.sealDiscovered natives (w.heap.discover root).instances.toList) w₁
      (fun _ w' => ∀ id, w.heap.LeadsTo root id → (w'.heap.get id).sealed = true)
      fun _ _ => False := by
  have hsettles := hlater.settles hn hw
  have hvalues {id} (hid : w.heap.LeadsTo root id) :
      (w₁.heap.get id).values = (w.heap.get id).values :=
    hlater.values hn hw (hw.heap.has_of_leadsTo hroot hid) (heval id hid)
  rw [Ends, Effect.sealDiscovered_eq hn]
  intro id hid
  show ((w₁.heap.markAllSealed _).get id).sealed = true
  rw [Heap.sealed_markAllSealed _ (hsettles.has (hw.heap.has_of_leadsTo hroot hid)),
    Heap.mem_sealingOrder]
  refine (Bool.eq_false_or_eq_true (w₁.heap.get id).sealed).imp_right fun hopen => ?_
  -- The instances below the root that are not final have been found and are finished, and they refer
  -- to each other and to final instances.
  let P (i : InstanceId) : Prop := w.heap.LeadsTo root i ∧ (w₁.heap.get i).sealed = false
  refine Heap.mem_sealable_of_closed (P := P) (fun i ⟨hi, hopen⟩ => ⟨?_, ?_⟩) ?_ ⟨hid, hopen⟩
  · refine hw.sealing.mem_discover hi (Bool.eq_false_iff.mpr fun hsealed => ?_)
    rw [hsettles.sealed hsealed, hsealed] at hopen
    cases hopen
  · rw [Heap.isFinished, hopen, hvalues hi]
    exact List.all_eq_true.mpr (heval i hi)
  · rintro i ⟨hi, -⟩ r ⟨e, he, href⟩
    rw [hvalues hi] at he
    exact (Bool.eq_false_or_eq_true (w₁.heap.get r).sealed).imp_right
      fun hr => ⟨hi.tail ⟨e, he, href⟩, hr⟩

/-- Once all values below a root are terminal, a sweep seals them all. -/
theorem Sound.ends_sweep (order : SweepOrder) :
    Ends (Effect.sweep natives order root) w
      (fun _ w' => ∀ id, w.heap.LeadsTo root id → (w'.heap.get id).sealed = true)
      fun _ _ => True := by
  refine Ends.bind (Ends.of_ok rfl (Ends.bind ?_))
  have hscopes (ids : List ScopeId) (w : World σ) :
      Takes (Step natives) (Effect.sumOver (Effect.sweepScope natives order) ids) w :=
    .sumOver (fun id _ => .sweepScope (fun _ c => .pass c) order id) ids
  have hinstances (ids : List InstanceId) (w : World σ) :
      Takes (Step natives) (Effect.sumOver (Effect.sweepInstance natives order) ids) w :=
    .sumOver (fun id _ => .sweepInstance (fun _ c => .pass c) order id) ids
  refine Ends.mono (hscopes _ w) (fun _ w₁ h₁ => Ends.bind ?_) fun _ _ _ => trivial
  refine Ends.mono (hinstances _ w₁) (fun _ w₂ h₂ => Ends.bind ?_) fun _ _ _ => trivial
  exact (Sound.ends_sealDiscovered hn hw hroot heval (h₁.trans h₂)).mono
    (fun _ _ h => Ends.of_ok rfl h) fun _ _ hf => hf.elim

/-- Once all values below a root are terminal, an evaluation that is allowed two sweeps does not
come to the verdict: it seals them all, unless it fails at something else that it finds. -/
theorem Sound.ends_run (hv : natives.Obeys .noVerdict) {settings : Settings}
    (hsettings : 2 ≤ settings.maxSweeps) :
    Ends (Effect.run natives settings root) w
      (fun _ w' => ∀ id, w.heap.LeadsTo root id → (w'.heap.get id).sealed = true)
      fun e _ => e.isVerdict = false := by
  obtain ⟨left, hleft⟩ := Nat.exists_eq_add_of_le' hsettings
  rw [Effect.run, hleft]
  have hsweep := Sound.ends_sweep hn hw hroot heval settings.order
  have hfaults := Obeys.sweep hv Limits.allowsReads_noVerdict (fun _ _ => trivial) settings.order root w
  refine Ends.bind ((hsweep.and hfaults).mono (fun cost w₁ h => ?_) fun _ _ hf => hf.2.2)
  -- The root is final now, so that what is left of the evaluation finds nothing.
  have hdone := h.1 root .refl
  dsimp only
  split
  · exact Ends.of_ok (Effect.runFrom_of_sealed settings.order left _ hdone) h.1
  · refine Ends.bind (Ends.of_ok (Effect.waiting_of_sealed hdone) (Ends.bind (Ends.of_ok rfl ?_)))
    rw [hdone, if_pos rfl]
    exact Ends.of_ok rfl h.1

end World

/-! ## Standstills -/

namespace World

/-- **A standstill is genuine.** Whatever calls have been made, suppose that the evaluation of a root
comes to the verdict. If it has not used up its sweeps, then it has come to a standstill, and at a
standstill some instance below the root, which values lead to and which is not final, holds a value
that is not terminal. Put the other way round: if all values below the root are terminal, then
sealing what is discovered seals them all, and so does the evaluation, unless it fails at something
else that it finds. -/
theorem standstill_genuine {w₀ : World σ} (h₀ : w₀.Initial)
    (hcalls : Relation.ReflTransGen (Call .builtin) w₀ w) (hroot : w.heap.Has (.object root)) :
    (∀ settings n w',
      Effect.run .builtin settings root w = .error (.nonTermination n) w' →
      (n < settings.maxSweeps → Effect.Standstill .builtin root w') ∧
      (Effect.Standstill .builtin root w' →
        ∃ id, w'.heap.LeadsTo root id ∧ (w'.heap.get id).sealed = false ∧
          ∃ e ∈ (w'.heap.get id).values, e.isTerminal = false)) ∧
    (w.heap.Evaluated root →
      Ends (Effect.sealDiscovered .builtin (w.heap.discover root).instances.toList) w
        (fun _ w' => ∀ id, w.heap.LeadsTo root id → (w'.heap.get id).sealed = true)
        (fun _ _ => False) ∧
      ∀ settings : Settings, 2 ≤ settings.maxSweeps →
        Ends (Effect.run .builtin settings root) w
          (fun _ w' => ∀ id, w.heap.LeadsTo root id → (w'.heap.get id).sealed = true)
          fun e _ => e.isVerdict = false) := by
  have hn : (Natives.builtin : Natives σ).Inert := Natives.inert_builtin
  have hv : (Natives.builtin : Natives σ).Obeys .noVerdict := Natives.obeys_builtin
  have hw := h₀.sound_of_calls hn hcalls
  refine ⟨fun settings n w' hrun => ⟨fun hcount => ?_, fun hstill => ?_⟩, fun heval => ⟨?_, ?_⟩⟩
  · rcases Effect.verdict_cases Natives.patient_builtin hv hrun with ⟨_, -, hall, -⟩ | ⟨hstill, -⟩
    · rw [hall] at hcount
      exact absurd hcount (by simp)
    · exact hstill
  · have hcall : Call .builtin w w' := Effect.after_of_error hrun ▸ .run settings hroot
    have hsettles := (hcall.later hn hw).settles hn hw
    refine Classical.byContradiction fun hnone => ?_
    -- If there were no such value, then the sweep that does nothing would seal the root.
    have heval : w'.heap.Evaluated root := fun id hid e he => by
      cases hsealed : (w'.heap.get id).sealed with
      | true => exact hsettles.sound.sealing.terminal hsealed he
      | false => exact Bool.not_eq_false _ ▸ fun hopen => hnone ⟨id, hid, hsealed, e, he, hopen⟩
    obtain ⟨cost, -, hidle⟩ := hstill.idle
    have hsweep := Sound.ends_sweep hn hsettles.sound (hsettles.has hroot) heval settings.order
    have hsealed := hsweep.ok (hidle settings.order) root .refl
    rw [hstill.unsealed] at hsealed
    cases hsealed
  · exact Sound.ends_sealDiscovered hn hw hroot heval .refl
  · exact fun settings hsettings => Sound.ends_run hn hw hroot heval hv hsettings

/-- The world of the class with two properties that wait for each other, before the first call. -/
def beforeKnot : World Unit := .ofTypes (.ofClass knot) ()

/-- The world after an instance of the class has been asked for. -/
def withKnot : World Unit := (Effect.construct .builtin .main []).after beforeKnot

/-- The world of the class is initial. -/
theorem initial_beforeKnot : beforeKnot.Initial := initial_ofTypes (by decide +kernel)

/-- The call that asks for an instance. -/
theorem call_withKnot : Call .builtin beforeKnot withKnot := .instantiate fun e he => by cases he

/-- The instance is on the heap. -/
theorem has_withKnot : withKnot.heap.Has (.object ⟨0⟩) := by
  show 0 < withKnot.heap.instances.size
  decide +kernel

/-- The evaluation of the instance comes to the verdict in the third of ten thousand sweeps, and
there is a value that is not terminal. -/
theorem standstill_genuine_knot :
    ∃ w, Effect.run .builtin {} ⟨0⟩ withKnot = .error (.nonTermination 3) w ∧
      ∃ id, w.heap.LeadsTo ⟨0⟩ id ∧ (w.heap.get id).sealed = false ∧
        ∃ e ∈ (w.heap.get id).values, e.isTerminal = false := by
  have hverdict : decide (Ends (Effect.run .builtin {} ⟨0⟩) withKnot (fun _ _ => False)
      fun e _ => e = .nonTermination 3) = true := by
    decide +kernel
  have hgenuine := standstill_genuine initial_beforeKnot (.single call_withKnot) has_withKnot
  generalize withKnot = w₀ at hverdict hgenuine ⊢
  obtain ⟨_, w, hrun, rfl⟩ := (of_decide_eq_true hverdict).exists_error
  obtain ⟨hstill, hvalue⟩ := hgenuine.1 {} 3 w hrun
  exact ⟨w, hrun, hvalue (hstill (by decide))⟩

end World

end ObjectGraph
