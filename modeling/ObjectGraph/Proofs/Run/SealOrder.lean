import Mathlib.Data.Nat.Find
import ObjectGraph.Proofs.Discovery
import ObjectGraph.Proofs.Run.Steps

/-!
# The order of sealing

Discovery goes in rounds, and the instances that it lists are sorted by their distance from the
root: the round after `k` edges visits exactly what so many edges lead to (`Level`). Sealing goes
through the list from its end, so that hooks run for what is farther from the root first
(`sealed_farthest_first`). An instance that can only be reached through another one is farther, and
its hook runs before the other's.

That is less than parts before wholes. An instance that a second, shorter chain leads to as well is
sealed after an instance that refers to it (`part_sealed_after_whole`).
-/

namespace ObjectGraph

namespace Heap

/-! ## Distances -/

/-- A chain of so many edges leads from one node to another. -/
inductive ReachesIn (h : Heap) (root : Node) : ℕ → Node → Prop
  /-- No edge leads from a node to itself. -/
  | refl : h.ReachesIn root 0 root
  /-- One more edge leads on. -/
  | tail {k : ℕ} {m n : Node} : h.ReachesIn root k m → n ∈ h.leads m → h.ReachesIn root (k + 1) n

/-- From the root, a chain leads to `m` that is shorter than all that lead to `n`. -/
def Closer (h : Heap) (root m n : Node) : Prop :=
  ∃ k, h.ReachesIn root k m ∧ ∀ j ≤ k, ¬ h.ReachesIn root j n

/-- Every chain from the root to `n` leads through `m` before: without the edges of `m` there is
none. -/
def Guards (h : Heap) (root m n : Node) : Prop :=
  ¬ Relation.ReflTransGen (fun a b => a ≠ m ∧ b ∈ h.leads a) root n

variable {h : Heap} {root m n : Node} {todo : List Node} {found : Discovery} {k : ℕ}

/-- A chain has a number of edges. -/
theorem Reaches.exists_reachesIn (hn : h.Reaches root n) : ∃ k, h.ReachesIn root k n := by
  induction hn with
  | refl => exact ⟨0, .refl⟩
  | tail _ hlead ih =>
    obtain ⟨k, hk⟩ := ih
    exact ⟨k + 1, hk.tail hlead⟩

/-- A chain to a guarded node has a shorter one to the guard in it. -/
theorem Guards.exists_reachesIn (hg : h.Guards root m n) (hn : h.ReachesIn root k n) :
    ∃ j < k, h.ReachesIn root j m := by
  have hsplit : ∀ {k n}, h.ReachesIn root k n →
      Relation.ReflTransGen (fun a b => a ≠ m ∧ b ∈ h.leads a) root n ∨
        ∃ j < k, h.ReachesIn root j m := by
    intro k n hn
    induction hn with
    | refl => exact .inl .refl
    | @tail k a b ha hlead ih =>
      rcases ih with hwithout | ⟨j, hj, hm⟩
      · by_cases ham : a = m
        · exact .inr ⟨k, Nat.lt_succ_self k, ham ▸ ha⟩
        · exact .inl (hwithout.tail ⟨ham, hlead⟩)
      · exact .inr ⟨j, Nat.lt_succ_of_lt hj, hm⟩
  exact (hsplit hn).resolve_left hg

/-- A guard is closer to the root than what it guards. -/
theorem Guards.closer (hg : h.Guards root m n) (hn : h.Reaches root n) : h.Closer root m n := by
  classical
  have hexists := hn.exists_reachesIn
  -- The shortest chain to the guarded node has a chain to the guard in it.
  obtain ⟨j, hj, hm⟩ := hg.exists_reachesIn (Nat.find_spec hexists)
  exact ⟨j, hm, fun i hi => Nat.find_min hexists (Nat.lt_of_le_of_lt hi hj)⟩

/-- What no fewer edges lead to is not closer. -/
theorem not_closer {j : ℕ} (hm : ∀ i < k, ¬ h.ReachesIn root i m) (hjk : j ≤ k)
    (hn : h.ReachesIn root j n) : ¬ h.Closer root m n := by
  rintro ⟨i, hi, hshorter⟩
  have hki : k ≤ i := Nat.le_of_not_lt fun hik => hm i hik hi
  exact hshorter j (Nat.le_trans hjk hki) hn

/-! ## Rounds -/

/-- The order of discovery: of two instances that are listed one after the other, the second is not
closer to the root. -/
def Listed (h : Heap) (root : Node) (ids : List InstanceId) : Prop :=
  ids.Pairwise fun a b => a ≠ b ∧ ¬ h.Closer root (.object b) (.object a)

/-- A visit lists one instance more at most, which it visits. -/
theorem exists_instances_visit (h : Heap) (found : Discovery) (node : Node) :
    ∃ new, (h.visit found node).1.instances.toList = found.instances.toList ++ new ∧
      (new = [] ∨ ∃ id, new = [id] ∧ node = .object id ∧ found.has (.object id) = false) := by
  cases node with
  | scope id => exact ⟨[], by simp only [visit]; split <;> simp, .inl rfl⟩
  | promise id => exact ⟨[], by simp only [visit]; split <;> simp, .inl rfl⟩
  | object id =>
    by_cases hlisted : ((h.get id).sealed || found.instances.contains id) = true
    · exact ⟨[], by simp only [visit, hlisted, if_true, List.append_nil], .inl rfl⟩
    · refine ⟨[id], ?_, .inr ⟨id, rfl, rfl, ?_⟩⟩
      · rw [visit, if_neg hlisted]
        exact Listing.toList_push _ _
      · rw [Bool.or_eq_true, not_or] at hlisted
        exact Bool.eq_false_iff.mpr hlisted.2

/-- A round lists instances that it visits, each once, behind those that were listed before. -/
theorem exists_instances_visitAll (todo : List Node) (found : Discovery) :
    ∃ new, (h.visitAll todo found).1.instances.toList = found.instances.toList ++ new ∧
      new.Nodup ∧ ∀ id ∈ new, .object id ∈ todo ∧ found.has (.object id) = false := by
  induction todo generalizing found with
  | nil => exact ⟨[], (List.append_nil _).symm, List.nodup_nil, fun _ hid => by cases hid⟩
  | cons node todo ih =>
    obtain ⟨new, hnew, hcases⟩ := exists_instances_visit h found node
    obtain ⟨rest, hrest, hnodup, hin⟩ := ih (h.visit found node).1
    have hold {id} (hid : id ∈ rest) : .object id ∈ node :: todo ∧ found.has (.object id) = false := by
      obtain ⟨hmem, hunlisted⟩ := hin id hid
      refine ⟨List.mem_cons_of_mem _ hmem, Bool.eq_false_iff.mpr fun hhas => ?_⟩
      exact Bool.eq_false_iff.mp hunlisted (has_visit.mpr (.inl hhas))
    refine ⟨new ++ rest, ?_, ?_⟩
    · show (h.visitAll todo (h.visit found node).1).1.instances.toList = _
      rw [hrest, hnew, List.append_assoc]
    · rcases hcases with rfl | ⟨id, rfl, rfl, hunlisted⟩
      · exact ⟨hnodup, fun id hid => hold hid⟩
      · -- The instance has been listed when the rest is visited.
        have hlisted : (h.visit found (.object id)).1.has (.object id) = true := by
          rw [Discovery.has, ← Listing.mem_toList, hnew]
          exact List.mem_append_right _ List.mem_cons_self
        refine ⟨List.nodup_cons.mpr ⟨fun hid => ?_, hnodup⟩, fun other hother => ?_⟩
        · rw [(hin id hid).2] at hlisted
          cases hlisted
        · rcases List.mem_cons.mp hother with rfl | hother
          · exact ⟨List.mem_cons_self, hunlisted⟩
          · exact hold hother

/-- Before the round that visits what `k` edges lead to, what fewer edges lead to has been listed,
in the order of distance. -/
structure Level (h : Heap) (root : Node) (k : ℕ) (todo : List Node) (found : Discovery) :
    Prop where
  /-- Fewer edges lead to what has been listed. -/
  listed : ∀ n, found.has n = true → ∃ j < k, h.ReachesIn root j n
  /-- What fewer edges lead to has been listed. -/
  near : ∀ n j, j < k → h.ReachesIn root j n → h.isOpen n = true → found.has n = true
  /-- So many edges lead to what is to be visited. -/
  front : ∀ n ∈ todo, h.ReachesIn root k n
  /-- What so many edges lead to is to be visited, if it has not been listed. -/
  ahead : ∀ n, h.ReachesIn root k n → h.isOpen n = true → found.has n = true ∨ n ∈ todo
  /-- Instances have been listed in the order of distance. -/
  sorted : h.Listed root found.instances.toList

/-- Before the first round. -/
theorem level_zero (root : Node) : h.Level root 0 [root] h.nothingFound := by
  have hnothing (n : Node) : h.nothingFound.has n = false := by
    cases n <;> exact Listing.contains_ofSize _ _
  refine ⟨fun n hn => ?_, fun n j hj => absurd hj (Nat.not_lt_zero j), fun n hn => ?_,
    fun n hn _ => .inr ?_, List.Pairwise.nil⟩
  · rw [hnothing] at hn
    cases hn
  · obtain rfl := List.mem_singleton.mp hn
    exact .refl
  · cases hn
    exact List.mem_singleton_self root

/-- One edge more leads from each round to the next. -/
theorem Level.visitAll (hl : h.Level root k todo found) :
    h.Level root (k + 1) (h.visitAll todo found).2 (h.visitAll todo found).1 := by
  have hnear : ∀ n j, j < k + 1 → h.ReachesIn root j n → h.isOpen n = true →
      (h.visitAll todo found).1.has n = true := by
    intro n j hj hn hopen
    rcases Nat.lt_succ_iff_lt_or_eq.mp hj with hj | rfl
    · exact has_visitAll.mpr (.inl (hl.near n j hj hn hopen))
    · exact has_visitAll.mpr ((hl.ahead n hn hopen).imp_right fun hin => ⟨hin, hopen⟩)
  refine ⟨fun n hn => ?_, hnear, fun n hn => ?_, fun n hn hopen => ?_, ?_⟩
  · rcases has_visitAll.mp hn with hn | ⟨hin, -⟩
    · obtain ⟨j, hj, hreach⟩ := hl.listed n hn
      exact ⟨j, Nat.lt_succ_of_lt hj, hreach⟩
    · exact ⟨k, Nat.lt_succ_self k, hl.front n hin⟩
  · obtain ⟨c, hc, -, hlead⟩ := mem_visitAll.mp hn
    exact (hl.front c hc).tail hlead
  · cases hn with
    | @tail _ c _ hc hlead =>
      by_cases hlisted : found.has c = true
      · -- The node before has been listed in an earlier round, which fewer edges lead to.
        obtain ⟨j, hj, hreach⟩ := hl.listed c hlisted
        exact .inl (hnear n (j + 1) (by omega) (hreach.tail hlead) hopen)
      · have hin := (hl.ahead c hc (isOpen_of_leads hlead)).resolve_left hlisted
        exact .inr (mem_visitAll.mpr ⟨c, hin, Bool.eq_false_iff.mpr hlisted, hlead⟩)
  · obtain ⟨new, hnew, hnodup, hin⟩ := exists_instances_visitAll (h := h) todo found
    -- The instances that are new are as far as the round, and those before are not as far.
    have hfront {id} (hid : id ∈ new) : h.ReachesIn root k (.object id) :=
      hl.front _ (hin id hid).1
    have hfar {id} (hid : id ∈ new) : ∀ j < k, ¬ h.ReachesIn root j (.object id) := by
      intro j hj hreach
      have hlisted : (h.visitAll todo found).1.has (.object id) = true := by
        rw [Discovery.has, ← Listing.mem_toList, hnew]
        exact List.mem_append_right _ hid
      have hopen := ((has_visitAll.mp hlisted).resolve_left
        (Bool.eq_false_iff.mp (hin id hid).2)).2
      exact Bool.eq_false_iff.mp (hin id hid).2 (hl.near _ j hj hreach hopen)
    have hlisted {id} (hid : id ∈ found.instances.toList) : found.has (.object id) = true :=
      Listing.mem_toList.mp hid
    rw [hnew, Listed, List.pairwise_append]
    refine ⟨hl.sorted, ?_, fun a ha b hb => ⟨?_, ?_⟩⟩
    · refine List.Pairwise.imp_of_mem (fun ha hb hne => ⟨hne, ?_⟩) hnodup
      exact not_closer (hfar hb) (Nat.le_refl k) (hfront ha)
    · rintro rfl
      exact Bool.eq_false_iff.mp (hin a hb).2 (hlisted ha)
    · obtain ⟨j, hj, hreach⟩ := hl.listed _ (hlisted ha)
      exact not_closer (hfar hb) (Nat.le_of_lt hj) hreach

/-- A search keeps the order of distance. -/
theorem Level.listed_discoverWithin (fuel : ℕ) (hl : h.Level root k todo found) :
    h.Listed root (h.discoverWithin fuel todo found).instances.toList := by
  induction fuel generalizing k todo found with
  | zero => exact hl.sorted
  | succ fuel ih =>
    cases todo with
    | nil => exact hl.sorted
    | cons node todo => exact ih hl.visitAll

/-- **Discovery lists instances in the order of their distance** from the root. -/
theorem listed_discover (h : Heap) (root : InstanceId) :
    h.Listed (.object root) (h.discover root).instances.toList :=
  (level_zero (.object root)).listed_discoverWithin _

/-- Discovery lists no instance twice. -/
theorem nodup_discover (h : Heap) (root : InstanceId) :
    (h.discover root).instances.toList.Nodup :=
  (h.listed_discover root).imp And.left

/-- What is closer to the root is listed before. -/
theorem Listed.sublist {ids : List InstanceId} (hl : h.Listed root ids) {x y : InstanceId}
    (hx : x ∈ ids) (hy : y ∈ ids) (hcloser : h.Closer root (.object y) (.object x)) :
    [y, x].Sublist ids := by
  induction ids with
  | nil => cases hx
  | cons first ids ih =>
    obtain ⟨hfirst, hrest⟩ := List.pairwise_cons.mp hl
    rcases List.mem_cons.mp hy with rfl | hy'
    · rcases List.mem_cons.mp hx with rfl | hx
      · obtain ⟨k, hk, hnot⟩ := hcloser
        exact absurd hk (hnot k (Nat.le_refl k))
      · exact (List.singleton_sublist.mpr hx).cons_cons _
    · rcases List.mem_cons.mp hx with rfl | hx
      · exact absurd hcloser (hfirst y hy').2
      · exact (ih hrest hx hy').cons first

/-! ## The order of a pass -/

variable {ids : List InstanceId} {id : InstanceId}

/-- The instances that a sealing pass over discovered instances seals, in order. -/
def sealingOrder (h : Heap) (ids : List InstanceId) : List InstanceId :=
  ids.reverse.filter (h.sealable ids).contains

/-- A pass seals what can be sealed. -/
theorem mem_sealingOrder : id ∈ h.sealingOrder ids ↔ id ∈ h.sealable ids := by
  rw [sealingOrder, List.mem_filter, List.mem_reverse, List.contains_iff_mem]
  exact and_iff_right_of_imp fun hid => (mem_sealable hid).1

/-- A pass seals each instance once. -/
theorem nodup_sealingOrder (hids : ids.Nodup) : (h.sealingOrder ids).Nodup :=
  (List.pairwise_reverse.mpr (hids.imp Ne.symm)).sublist List.filter_sublist

/-- A pass over what has been discovered seals nothing before what is farther from the root. -/
theorem farthest_first_sealingOrder (h : Heap) (root : InstanceId) :
    (h.sealingOrder (h.discover root).instances.toList).Pairwise fun a b =>
      ¬ h.Closer (.object root) (.object a) (.object b) := by
  have hreverse := List.pairwise_reverse.mpr (h.listed_discover root)
  exact (hreverse.sublist List.filter_sublist).imp And.right

end Heap

/-! ## Hooks -/

variable {σ : Type} {natives : Natives σ}

/-- Seal hooks that all succeed and leave the heap alone. -/
def Natives.SealsQuietly (natives : Natives σ) : Prop :=
  ∀ types ty id w, ∃ w', (natives.pluginFor types ty).onSeal id w = .ok () w' ∧ w'.heap = w.heap

/-- Seal hooks that leave the heap alone, whether they succeed or fail. -/
def Natives.SealsInPlace (natives : Natives σ) : Prop :=
  ∀ types ty id w, ((natives.pluginFor types ty).onSeal id |>.after w).heap = w.heap

/-- Hooks that all succeed are among them. -/
theorem Natives.SealsQuietly.inPlace (hn : natives.SealsQuietly) : natives.SealsInPlace := by
  intro types ty id w
  obtain ⟨w', hw', hheap⟩ := hn types ty id w
  rw [Effect.after, hw']
  exact hheap

namespace Effect

/-- Sealing instances in order marks them, and changes nothing else on the heap. -/
theorem heap_foldl_sealOne (hn : natives.SealsInPlace) (ids : List InstanceId) (w : World σ) :
    (ids.foldl (fun w id => (sealOne natives id).after w) w).heap = w.heap.markAllSealed ids := by
  induction ids generalizing w with
  | nil => rfl
  | cons id ids ih =>
    -- The hook runs after the instance has been marked.
    have hone : ((sealOne natives id).after w).heap = w.heap.markSealed id :=
      hn w.types (w.heap.get id).ty id { w with heap := w.heap.markSealed id }
    rw [List.foldl_cons, ih, hone]
    rfl

/-- Sealing instances in order runs their hooks in that order. -/
theorem sealEach_eq (hn : natives.SealsQuietly) (ids : List InstanceId) (w : World σ) :
    sealEach natives ids w =
        .ok ids.length (ids.foldl (fun w id => (sealOne natives id).after w) w) ∧
      (ids.foldl (fun w id => (sealOne natives id).after w) w).heap =
        w.heap.markAllSealed ids := by
  refine ⟨?_, heap_foldl_sealOne hn.inPlace ids w⟩
  induction ids generalizing w with
  | nil => rfl
  | cons id ids ih =>
    obtain ⟨w', hw', -⟩ := hn w.types (w.heap.get id).ty id { w with heap := w.heap.markSealed id }
    have hone : sealOne natives id w = .ok () w' := hw'
    rw [sealEach, bind_of_ok hone, List.foldl_cons, Effect.after, hone, bind_of_ok (ih w')]
    rfl

/-- **Hooks run for what is farther from the root first.** Sealing what has been discovered seals
exactly what can be sealed, one instance after the other. Of two instances, the hook of the one that
is farther from the root runs first, and so does the hook of one that can only be reached through
the other. -/
theorem sealed_farthest_first (hn : natives.SealsQuietly) (root : InstanceId) (w : World σ) :
    ∃ order : List InstanceId,
      order.Nodup ∧
      (∀ id, id ∈ order ↔ id ∈ w.heap.sealable (w.heap.discover root).instances.toList) ∧
      sealDiscovered natives (w.heap.discover root).instances.toList w =
        .ok order.length (order.foldl (fun w id => (sealOne natives id).after w) w) ∧
      (order.foldl (fun w id => (sealOne natives id).after w) w).heap =
        w.heap.markAllSealed order ∧
      ∀ x ∈ order, ∀ y ∈ order,
        (w.heap.Closer (.object root) (.object y) (.object x) → [x, y].Sublist order) ∧
        (w.heap.Guards (.object root) (.object y) (.object x) → [x, y].Sublist order) := by
  have hlisted := w.heap.listed_discover root
  generalize hids : (w.heap.discover root).instances.toList = ids at hlisted ⊢
  have hfound {id} (hid : id ∈ ids) : w.heap.Reaches (.object root) (.object id) := by
    have hhas : (w.heap.discover root).has (.object id) = true := by
      rw [Discovery.has, ← Listing.mem_toList, hids]
      exact hid
    exact ((Heap.has_discover_iff root).mp hhas).1
  have hmem {id} : id ∈ ids.reverse.filter (w.heap.sealable ids).contains ↔
      id ∈ w.heap.sealable ids := by
    rw [List.mem_filter, List.mem_reverse, List.contains_iff_mem]
    exact and_iff_right_of_imp fun hid => (Heap.mem_sealable hid).1
  obtain ⟨hseal, hheap⟩ :=
    sealEach_eq hn (ids.reverse.filter (w.heap.sealable ids).contains) w
  -- Instances are listed by their distance and sealed in the reverse order, so the farther one is
  -- first.
  have hbefore {x y} (hx : x ∈ w.heap.sealable ids) (hy : y ∈ w.heap.sealable ids)
      (hcloser : w.heap.Closer (.object root) (.object y) (.object x)) :
      [x, y].Sublist (ids.reverse.filter (w.heap.sealable ids).contains) := by
    have hpair := hlisted.sublist (Heap.mem_sealable hx).1 (Heap.mem_sealable hy).1 hcloser
    have hfilter := (List.reverse_sublist.mpr hpair).filter (w.heap.sealable ids).contains
    have hkept : [x, y].filter (w.heap.sealable ids).contains = [x, y] := by
      refine List.filter_eq_self.mpr fun z hz => List.contains_iff_mem.mpr ?_
      rcases List.mem_pair.mp hz with rfl | rfl
      · exact hx
      · exact hy
    rw [← hkept]
    exact hfilter
  refine ⟨_, ?_, fun id => hmem, hseal, hheap, fun x hx y hy => ⟨fun hcloser => ?_, fun hg => ?_⟩⟩
  · have hnodup : ids.reverse.Nodup := List.pairwise_reverse.mpr (hlisted.imp fun hab => hab.1.symm)
    exact hnodup.sublist List.filter_sublist
  · exact hbefore (hmem.mp hx) (hmem.mp hy) hcloser
  · exact hbefore (hmem.mp hx) (hmem.mp hy)
      (hg.closer (hfound (Heap.mem_sealable (hmem.mp hx)).1))

end Effect

/-! ## A part that two instances share -/

/-- A plugin for every class that writes down what is sealed. -/
def Natives.logging : Natives (List InstanceId) where
  plugins := [(.any, { onSeal := fun id w => .ok () { w with host := w.host ++ [id] } })]
  hooks := []

/-- Writing down what is sealed leaves the heap alone. -/
theorem Natives.sealsQuietly_logging : Natives.logging.SealsQuietly := by
  intro types ty
  refine forall_pluginFor (P := fun p => ∀ id w, ∃ w', p.onSeal id w = .ok () w' ∧ w'.heap = w.heap)
    (fun id w => ⟨w, rfl, rfl⟩) (fun entry hentry id w => ?_) types ty
  obtain rfl := List.mem_singleton.mp hentry
  exact ⟨_, rfl, rfl⟩

/-- A plain object whose properties hold other objects. -/
def Instance.holding (ids : List ℕ) : Instance where
  ty := .any
  payload := .none
  scopes := []
  sealed := false
  slots := ids.map fun i => ⟨"p" ++ Nat.repr i, .any, .any, .object ⟨i⟩⟩

/-- A part, an object that refers to it, and an object that refers to both. -/
def World.shared : World (List InstanceId) where
  types := .initial
  heap := { Heap.empty with instances := #[.holding [], .holding [0], .holding [0, 1]] }
  host := []

/-- From the object that refers to the part, the part can only be reached through that object, and
it is sealed first. -/
theorem Effect.sealed_farthest_first_part :
    Natives.logging.SealsQuietly ∧
      World.shared.heap.Guards (.object ⟨1⟩) (.object ⟨1⟩) (.object ⟨0⟩) ∧
      ∃ order : List InstanceId,
        (∀ id, id ∈ order ↔ id ∈ [(⟨0⟩ : InstanceId), ⟨1⟩]) ∧ [⟨0⟩, ⟨1⟩].Sublist order ∧
        sealDiscovered .logging (World.shared.heap.discover ⟨1⟩).instances.toList World.shared =
          .ok order.length
            (order.foldl (fun w id => (sealOne .logging id).after w) World.shared) := by
  have hguards : World.shared.heap.Guards (.object ⟨1⟩) (.object ⟨1⟩) (.object ⟨0⟩) := by
    intro hreach
    rcases Relation.ReflTransGen.cases_head hreach with heq | ⟨_, ⟨hne, -⟩, -⟩
    · cases heq
    · exact hne rfl
  obtain ⟨order, -, hmem, hseal, -, hbefore⟩ :=
    sealed_farthest_first Natives.sealsQuietly_logging ⟨1⟩ World.shared
  have hsealable : World.shared.heap.sealable (World.shared.heap.discover ⟨1⟩).instances.toList =
      [⟨1⟩, ⟨0⟩] := by
    decide +kernel
  have hin (id : InstanceId) : id ∈ order ↔ id ∈ [(⟨0⟩ : InstanceId), ⟨1⟩] := by
    rw [hmem, hsealable, List.mem_pair, List.mem_pair, or_comm]
  refine ⟨Natives.sealsQuietly_logging, hguards, order, hin, ?_, hseal⟩
  exact (hbefore ⟨0⟩ ((hin _).mpr (by simp)) ⟨1⟩ ((hin _).mpr (by simp))).2 hguards

/-- Below the object that refers to both, the part is sealed after the other object that refers to
it, although no chain of references leads from the part back to that object. -/
theorem Effect.part_sealed_after_whole :
    (.object ⟨0⟩ : Expr) ∈ (World.shared.heap.get ⟨1⟩).values ∧
      (World.shared.heap.get ⟨0⟩).values = [] ∧
      ∃ w, sealDiscovered .logging (World.shared.heap.discover ⟨2⟩).instances.toList World.shared =
        .ok 3 w ∧ w.host = [⟨1⟩, ⟨0⟩, ⟨2⟩] := by
  refine ⟨List.mem_singleton_self _, rfl, ?_⟩
  have hlog : (match sealDiscovered .logging
        (World.shared.heap.discover ⟨2⟩).instances.toList World.shared with
      | .ok n w => decide (n = 3 ∧ w.host = [⟨1⟩, ⟨0⟩, ⟨2⟩])
      | .error _ _ => false) = true := by
    decide +kernel
  generalize hids : (World.shared.heap.discover ⟨2⟩).instances.toList = ids at hlog ⊢
  cases hseal : sealDiscovered .logging ids World.shared with
  | error e w => rw [hseal] at hlog; cases hlog
  | ok n w =>
    rw [hseal] at hlog
    obtain ⟨rfl, hhost⟩ := of_decide_eq_true hlog
    exact ⟨w, rfl, hhost⟩

end ObjectGraph
