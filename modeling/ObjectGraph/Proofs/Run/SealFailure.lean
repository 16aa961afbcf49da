import ObjectGraph.Proofs.Run.SealHooks
import ObjectGraph.Proofs.Run.Standstill

/-!
# Passes that fail

A sealing pass marks one instance at a time and ends at the first hook that fails. What it has marked
by then is not always closed under reference: of two instances that are sealed together, either one
can be marked while the other one is not (`Effect.sealed_without_part`). A circle cannot be sealed in
any other way, and the order of sealing is not from parts to wholes either.

Not much is lost, since the order is from what is farther from the root to what is closer. What the
pass has left out is nowhere behind what it has marked, so that the next pass from the same root
still finds it, and can seal it (`Heap.mem_discover_markAllSealed`). Once such a pass goes through,
the heap is closed again (`Effect.failed_seal_resumes`).
-/

namespace ObjectGraph

variable {σ : Type} {natives : Natives σ} {w w' : World σ}

namespace Heap

variable {h : Heap} {root id r : InstanceId} {n : Node} {ids done left due : List InstanceId}

/-! ## What is due -/

/-- What final instances refer to is final, or is among the instances that are due. -/
def ClosedUpTo (h : Heap) (due : List InstanceId) : Prop :=
  ∀ id r, (h.get id).sealed = true → h.Refers id r → (h.get r).sealed = true ∨ r ∈ due

/-- Marking changes no references. -/
theorem refers_markAllSealed : (h.markAllSealed ids).Refers id r ↔ h.Refers id r := by
  rw [Refers, values_markAllSealed]
  rfl

/-- What an instance refers to that can be sealed is final or can be sealed with it. -/
theorem sealed_or_mem_of_refers (hid : id ∈ h.sealable ids) (hrefers : h.Refers id r) :
    (h.get r).sealed = true ∨ r ∈ h.sealable ids := by
  obtain ⟨e, he, href⟩ := hrefers
  exact (mem_sealable hid).2.2 e he r href

/-- After marking, what was due and has not been marked is still due. -/
theorem ClosedUpTo.markAllSealed (hhas : ∀ id r, h.Refers id r → h.Has (.object r))
    (hclosed : h.ClosedUpTo (ids ++ due))
    (hids : ∀ id ∈ ids, ∀ r, h.Refers id r → (h.get r).sealed = true ∨ r ∈ ids ++ due) :
    (h.markAllSealed ids).ClosedUpTo due := by
  intro id r hsealed hrefers
  rw [refers_markAllSealed] at hrefers
  have hid : (h.get id).sealed = true ∨ id ∈ ids :=
    (sealed_markAllSealed_iff.mp hsealed).imp_right And.left
  have hr : (h.get r).sealed = true ∨ r ∈ ids ++ due :=
    hid.elim (fun hid => hclosed id r hid hrefers) fun hid => hids id hid r hrefers
  rw [sealed_markAllSealed ids (hhas id r hrefers), or_assoc, ← List.mem_append]
  exact hr

/-! ## What is still found -/

/-- Marking changes the instances alone. -/
theorem markAllSealed_eq (ids : List InstanceId) (h : Heap) :
    h.markAllSealed ids = { h with instances := (h.markAllSealed ids).instances } := by
  induction ids generalizing h with
  | nil => rfl
  | cons first ids ih => exact ih (h.markSealed first)

/-- A node that has not been marked leads where it did before. -/
theorem leads_markAllSealed (hn : ∀ id ∈ ids, n ≠ .object id) :
    (h.markAllSealed ids).leads n = h.leads n := by
  have hhandles : (h.markAllSealed ids).handles = h.handles := by
    rw [markAllSealed_eq]
    rfl
  cases n with
  | promise id => rfl
  | scope id =>
    rw [leads, leads, scopeEdges, scopeEdges, hhandles, markAllSealed_eq]
    rfl
  | object id =>
    have hget : (h.markAllSealed ids).get id = h.get id :=
      get_markAllSealed_of_not_mem (fun hid => hn id hid rfl) h
    rw [leads, leads, instanceEdges, instanceEdges, hget, hhandles]

/-- What no marked instance is closer to the root than can be reached as before. -/
theorem Reaches.markAllSealed {root : Node} (hn : h.Reaches root n)
    (hfar : ∀ id ∈ ids, ¬ h.Closer root (.object id) n) :
    (h.markAllSealed ids).Reaches root n := by
  classical
  have hexists := hn.exists_reachesIn
  -- On a shortest chain, each instance before the end is closer to the root, and not marked.
  have hchain {j m} (hm : h.ReachesIn root j m) (hj : j ≤ Nat.find hexists) :
      (h.markAllSealed ids).Reaches root m := by
    induction hm with
    | refl => exact .refl
    | @tail j m next hm hlead ih =>
      have hunmarked : ∀ id ∈ ids, m ≠ .object id := by
        rintro id hid rfl
        exact hfar id hid ⟨j, hm, fun i hi => Nat.find_min hexists (by omega)⟩
      have hnext : next ∈ (h.markAllSealed ids).leads m := by
        rw [leads_markAllSealed hunmarked]
        exact hlead
      exact (ih (by omega)).tail hnext
  exact hchain (Nat.find_spec hexists) (Nat.le_refl _)

/-- What has been discovered and not been marked is found again, if nothing that is closer to the root
has been marked. -/
theorem mem_discover_markAllSealed (hid : id ∈ (h.discover root).instances.toList)
    (hdone : id ∉ done) (hfar : ∀ x ∈ done, ¬ h.Closer (.object root) (.object x) (.object id)) :
    id ∈ ((h.markAllSealed done).discover root).instances.toList := by
  have hfound : (h.discover root).has (.object id) = true := Listing.mem_toList.mp hid
  obtain ⟨hreaches, hopen⟩ := (has_discover_iff root).mp hfound
  have hstillOpen : (h.markAllSealed done).isOpen (.object id) = true := by
    rw [isOpen, get_markAllSealed_of_not_mem hdone]
    exact hopen
  exact Listing.mem_toList.mpr
    ((has_discover_iff root).mpr ⟨hreaches.markAllSealed hfar, hstillOpen⟩)

/-- What a pass can seal and leaves out, the next pass can seal. -/
theorem mem_sealable_markAllSealed (hhas : ∀ id r, h.Refers id r → h.Has (.object r))
    (hsplit : ∀ id, id ∈ h.sealable (h.discover root).instances.toList ↔ id ∈ done ∨ id ∈ left)
    (hdisjoint : done.Disjoint left)
    (hfar : ∀ x ∈ done, ∀ y ∈ left, ¬ h.Closer (.object root) (.object x) (.object y))
    (hid : id ∈ left) :
    id ∈ (h.markAllSealed done).sealable
      ((h.markAllSealed done).discover root).instances.toList := by
  have hchosen {i} (hi : i ∈ left) : i ∈ h.sealable (h.discover root).instances.toList :=
    (hsplit i).mpr (.inr hi)
  have hdone {i} (hi : i ∈ left) : i ∉ done := fun hdone => hdisjoint hdone hi
  -- What has been left out supports itself, now that the rest is final.
  refine mem_sealable_of_closed (P := (· ∈ left)) (fun i hi => ⟨?_, ?_⟩) (fun i hi r hrefers => ?_)
    hid
  · have hfound := (mem_sealable (hchosen hi)).1
    exact mem_discover_markAllSealed hfound (hdone hi) fun x hx => hfar x hx i hi
  · rw [isFinished, get_markAllSealed_of_not_mem (hdone hi), unsealed_of_mem_sealable (hchosen hi)]
    exact List.all_eq_true.mpr (mem_sealable (hchosen hi)).2.1
  · rw [refers_markAllSealed] at hrefers
    rw [sealed_markAllSealed done (hhas i r hrefers), or_assoc]
    exact (sealed_or_mem_of_refers (hchosen hi) hrefers).imp_right (hsplit r).mp

end Heap

/-! ## One pass after the other -/

namespace Effect

variable {root : InstanceId} {ids : List InstanceId}

/-- A pass that goes through runs all hooks. -/
theorem sealHooks_of_ok {n : ℕ} (hok : sealEach natives ids w = .ok n w') :
    SealHook.ids (sealHooks natives ids w) = ids := by
  induction ids generalizing w n with
  | nil => rfl
  | cons id ids ih =>
    obtain ⟨_, w₁, hone, hrest⟩ := exists_of_bind_ok hok
    obtain ⟨_, w₂, heach, hpure⟩ := exists_of_bind_ok hrest
    cases hpure
    rw [sealHooks, hone]
    exact congrArg (id :: ·) (ih heach)

/-- A pass marks the instances whose hooks run, and changes nothing else on the heap. -/
theorem heap_sealDiscovered (hn : natives.SealsInPlace) (ids : List InstanceId) (w : World σ) :
    ((sealDiscovered natives ids).after w).heap =
      w.heap.markAllSealed (SealHook.ids (sealHooks natives (w.heap.sealingOrder ids) w)) := by
  rw [after_sealDiscovered, heap_foldl_sealOne hn]

/-- A pass that goes through closes the heap, if nothing is due but what it can seal. -/
theorem closed_of_sealDiscovered (hn : natives.SealsInPlace)
    (hhas : ∀ id r, w.heap.Refers id r → w.heap.Has (.object r))
    (hclosed : w.heap.ClosedUpTo (w.heap.sealable ids)) {n : ℕ}
    (hok : sealDiscovered natives ids w = .ok n w') : w'.heap.ClosedUpTo [] := by
  have hall : SealHook.ids (sealHooks natives (w.heap.sealingOrder ids) w) =
      w.heap.sealingOrder ids := sealHooks_of_ok hok
  have hheap : w'.heap = w.heap.markAllSealed (w.heap.sealingOrder ids) := by
    rw [← hall, ← heap_sealDiscovered hn, Effect.after, hok]
  rw [hheap]
  refine Heap.ClosedUpTo.markAllSealed hhas (fun id r hsealed hrefers => ?_) fun id hid r hrefers => ?_
  · rw [List.append_nil, Heap.mem_sealingOrder]
    exact hclosed id r hsealed hrefers
  · rw [List.append_nil, Heap.mem_sealingOrder]
    exact Heap.sealed_or_mem_of_refers (Heap.mem_sealingOrder.mp hid) hrefers

/-- **A pass that fails can be resumed.** Suppose that what final instances refer to is final, and
that sealing what has been discovered from a root fails. The pass has marked some of the instances
that can be sealed and has left out the others, none of which is farther from the root than one that
has been marked. What final instances refer to then is final or has been left out; the next pass from
the root can seal all that has been left out, and if one goes through, then what final instances refer
to is final again. -/
theorem failed_seal_resumes (hn : natives.SealsInPlace) (hclosed : w.heap.ClosedUpTo [])
    (hhas : ∀ id r, w.heap.Refers id r → w.heap.Has (.object r)) {e : EvalError}
    (herror : sealDiscovered natives (w.heap.discover root).instances.toList w = .error e w') :
    ∃ done left : List InstanceId,
      (done ++ left).Nodup ∧
      (∀ id, id ∈ w.heap.sealable (w.heap.discover root).instances.toList ↔
        id ∈ done ∨ id ∈ left) ∧
      w'.heap = w.heap.markAllSealed done ∧
      (∀ x ∈ done, ∀ y ∈ left, ¬ w.heap.Closer (.object root) (.object x) (.object y)) ∧
      w'.heap.ClosedUpTo left ∧
      (∀ id ∈ left, id ∈ w'.heap.sealable (w'.heap.discover root).instances.toList) ∧
      ∀ n w'', sealDiscovered natives (w'.heap.discover root).instances.toList w' = .ok n w'' →
        w''.heap.ClosedUpTo [] := by
  generalize hids : (w.heap.discover root).instances.toList = ids at herror
  have hfar := w.heap.farthest_first_sealingOrder root
  have hnodup := Heap.nodup_sealingOrder (h := w.heap) (w.heap.nodup_discover root)
  rw [hids] at hfar hnodup
  -- The hooks that run are those of the first instances in the order of the pass.
  obtain ⟨left, hleft⟩ := sealHooks_isPrefix natives (w.heap.sealingOrder ids) w
  generalize hdone : SealHook.ids (sealHooks natives (w.heap.sealingOrder ids) w) = done at hleft
  rw [← hleft] at hfar hnodup
  have hsplit (id) : id ∈ w.heap.sealable ids ↔ id ∈ done ∨ id ∈ left := by
    rw [← Heap.mem_sealingOrder, ← hleft, List.mem_append]
  have hcloser := (List.pairwise_append.mp hfar).2.2
  have hheap : w'.heap = w.heap.markAllSealed done := by
    rw [← hdone, ← heap_sealDiscovered hn, Effect.after, herror]
  have hdue : w'.heap.ClosedUpTo left := by
    rw [hheap]
    refine Heap.ClosedUpTo.markAllSealed hhas (fun id r hsealed hrefers => ?_)
      fun id hid r hrefers => ?_
    · exact .inl ((hclosed id r hsealed hrefers).resolve_right List.not_mem_nil)
    · rw [List.mem_append, ← hsplit]
      exact Heap.sealed_or_mem_of_refers ((hsplit id).mpr (.inl hid)) hrefers
  have hnext : ∀ id ∈ left, id ∈ w'.heap.sealable (w'.heap.discover root).instances.toList := by
    intro id hid
    rw [hheap]
    subst hids
    exact Heap.mem_sealable_markAllSealed hhas hsplit (List.disjoint_of_nodup_append hnodup)
      hcloser hid
  have hhas' (id r) (hrefers : w'.heap.Refers id r) : w'.heap.Has (.object r) := by
    rw [hheap] at hrefers ⊢
    exact (Heap.within_markAllSealed done _).has (hhas id r (Heap.refers_markAllSealed.mp hrefers))
  refine ⟨done, left, hnodup, hsplit, hheap, hcloser, hdue, hnext, fun n w'' hok => ?_⟩
  exact closed_of_sealDiscovered hn hhas'
    (fun id r hsealed hrefers => (hdue id r hsealed hrefers).imp_right (hnext r)) hok

end Effect

/-! ## A part that is left out -/

/-- The plugin that fails for one instance leaves the heap alone. -/
theorem Natives.sealsInPlace_failingAt (id : InstanceId) : (failingAt id).SealsInPlace := by
  intro types ty
  refine forall_pluginFor (P := fun p => ∀ i w, ((p.onSeal i).after w).heap = w.heap)
    (fun _ _ => rfl) (fun entry hentry i w => ?_) types ty
  obtain rfl := List.mem_singleton.mp hentry
  refine Ends.after (P := fun w' => w'.heap = w.heap) ?_
  by_cases hi : i = id
  · exact Ends.of_error (if_pos hi) rfl
  · exact Ends.of_ok (if_neg hi) rfl

namespace World

/-- None of the objects that share a part is final. -/
theorem closed_shared : shared.heap.ClosedUpTo [] := by
  intro id r hsealed
  have hopen : (shared.heap.get id).sealed = false := by
    match id with
    | ⟨0⟩ | ⟨1⟩ | ⟨2⟩ => rfl
    | ⟨_ + 3⟩ => rfl
  rw [hopen] at hsealed
  cases hsealed

/-- What they refer to is there. -/
theorem has_shared (id r : InstanceId) (hrefers : shared.heap.Refers id r) :
    shared.heap.Has (.object r) := by
  have hvalues : (shared.heap.get id).values ⊆ [.object ⟨0⟩, .object ⟨1⟩] := by
    match id with
    | ⟨0⟩ | ⟨_ + 3⟩ => exact List.nil_subset _
    | ⟨1⟩ => exact List.subset_append_left [_] [_]
    | ⟨2⟩ => exact List.Subset.refl _
  obtain ⟨e, he, href⟩ := hrefers
  rcases List.mem_pair.mp (hvalues he) with rfl | rfl
  · cases href
    exact Nat.zero_lt_succ 2
  · cases href
    exact Nat.one_lt_succ_succ 1

end World

namespace Effect

/-- From the object that refers to the part, the hook of that object fails after the part has been
sealed. -/
theorem failed_seal_resumes_part :
    World.shared.heap.ClosedUpTo [] ∧
      ∃ e w w', sealDiscovered (.failingAt ⟨0⟩)
          (World.shared.heap.discover ⟨1⟩).instances.toList World.shared = .error e w ∧
        (w.heap.get ⟨0⟩).sealed = true ∧ (w.heap.get ⟨1⟩).sealed = false ∧
        sealDiscovered (.failingAt ⟨0⟩) (w.heap.discover ⟨1⟩).instances.toList w = .ok 1 w' ∧
        w'.heap.ClosedUpTo [] := by
  have hfails : decide (Ends (sealDiscovered (.failingAt ⟨0⟩)
      (World.shared.heap.discover ⟨1⟩).instances.toList) World.shared (fun _ _ => False)
      fun _ w => (w.heap.get ⟨0⟩).sealed = true ∧ (w.heap.get ⟨1⟩).sealed = false ∧
        Ends (sealDiscovered (.failingAt ⟨0⟩) (w.heap.discover ⟨1⟩).instances.toList) w
          (fun n _ => n = 1) fun _ _ => False) = true := by
    decide +kernel
  have hresumes (e w) (herror : sealDiscovered (.failingAt ⟨0⟩)
      (World.shared.heap.discover ⟨1⟩).instances.toList World.shared = .error e w) :=
    failed_seal_resumes (Natives.sealsInPlace_failingAt ⟨0⟩) World.closed_shared World.has_shared
      herror
  generalize (World.shared.heap.discover ⟨1⟩).instances.toList = ids at hfails hresumes ⊢
  obtain ⟨e, w, herror, hpart, hwhole, hnext⟩ := (of_decide_eq_true hfails).exists_error
  obtain ⟨_, w', hok, rfl⟩ := hnext.exists_ok
  obtain ⟨_, _, -, -, -, -, -, -, hcloses⟩ := hresumes e w herror
  exact ⟨World.closed_shared, e, w, w', herror, hpart, hwhole, hok, hcloses 1 w' hok⟩

/-- Below the object that refers to both, the other object that refers to the part is sealed before
the part. If its hook fails, then it is final, and the part that it refers to is not. -/
theorem sealed_without_part :
    (Natives.failingAt ⟨1⟩).SealsInPlace ∧ World.shared.heap.ClosedUpTo [] ∧
      ∃ e w, sealDiscovered (.failingAt ⟨1⟩)
          (World.shared.heap.discover ⟨2⟩).instances.toList World.shared = .error e w ∧
        ¬ w.heap.ClosedUpTo [] := by
  have hfails : decide (Ends (sealDiscovered (.failingAt ⟨1⟩)
      (World.shared.heap.discover ⟨2⟩).instances.toList) World.shared (fun _ _ => False)
      fun _ w => (w.heap.get ⟨1⟩).sealed = true ∧ (w.heap.get ⟨0⟩).sealed = false ∧
        some ⟨0⟩ ∈ (w.heap.get ⟨1⟩).values.map Expr.referent) = true := by
    decide +kernel
  generalize (World.shared.heap.discover ⟨2⟩).instances.toList = ids at hfails ⊢
  obtain ⟨e, w, herror, hwhole, hpart, hrefers⟩ := (of_decide_eq_true hfails).exists_error
  refine ⟨Natives.sealsInPlace_failingAt ⟨1⟩, World.closed_shared, e, w, herror, fun hclosed => ?_⟩
  have hsealed := (hclosed ⟨1⟩ ⟨0⟩ hwhole (List.mem_map.mp hrefers)).resolve_right List.not_mem_nil
  rw [hpart] at hsealed
  cases hsealed

end Effect

end ObjectGraph
