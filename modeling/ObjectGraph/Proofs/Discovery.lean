import Mathlib.Logic.Relation
import ObjectGraph.Proofs.Heap.Extension
import ObjectGraph.Run.Discover

/-!
# Discovery finds what is reachable

`Heap.discover` lists exactly the nodes that can be reached from the root along the heap's edges,
sealed instances apart, which are neither listed nor followed (`has_discover_iff`). Soundness is
an invariant of the rounds: whatever is listed, or is to be visited next, is reachable. For
completeness the rounds keep the listing closed but for what is to be visited next
(`ClosedBut`). That the rounds suffice follows from what a round does that is not the last one: it
lists a node that leads somewhere, and the heap has only so many of those.
-/

namespace ObjectGraph

namespace Listing

variable {store : Store}

/-- The handles in order are those that are listed. -/
theorem mem_toList {listing : Listing store} {id : Handle store} :
    id ∈ listing.toList ↔ listing.contains id = true := by
  rw [contains_iff, toList, Array.mem_toList_iff]

/-- Nothing is listed at first. -/
theorem contains_ofSize (size : ℕ) (id : Handle store) :
    (ofSize size : Listing store).contains id = false := by
  refine Bool.eq_false_iff.mpr fun h => ?_
  have hmem := contains_iff.mp h
  simp [ofSize] at hmem

/-- What is listed after an addition. -/
theorem contains_push {listing : Listing store} {id other : Handle store} :
    (listing.push id).contains other = true ↔ listing.contains other = true ∨ other = id := by
  rw [contains_iff, contains_iff, push, Array.mem_push]

end Listing

/-- Whether a node has been listed. -/
def Discovery.has (found : Discovery) : Node → Bool
  | .scope id => found.scopes.contains id
  | .object id => found.instances.contains id
  | .promise id => found.promises.contains id

namespace Heap

variable (h : Heap)

/-- Whether discovery lists and follows a node. It passes over instances that are final. -/
def isOpen : Node → Bool
  | .object id => !(h.get id).sealed
  | .scope _ | .promise _ => true

/-- What a node leads to. -/
def leads : Node → List Node
  | .scope id => h.scopeEdges id
  | .object id => if (h.get id).sealed then [] else h.instanceEdges id
  | .promise _ => []

/-- A chain of edges leads from one node to another. -/
def Reaches : Node → Node → Prop := Relation.ReflTransGen fun a b => b ∈ h.leads a

/-- The nodes that are on the heap. -/
def nodes : List Node :=
  (List.range h.scopes.size).map (.scope ⟨·⟩) ++ (List.range h.instances.size).map (.object ⟨·⟩)

variable {h} {found : Discovery} {node m n : Node} {todo : List Node}

/-- A node that is passed over leads nowhere. -/
theorem leads_of_not_isOpen (hn : h.isOpen n = false) : h.leads n = [] := by
  cases n with
  | object id =>
    simp only [isOpen, Bool.not_eq_false'] at hn
    rw [leads, if_pos hn]
  | scope id => cases hn
  | promise id => cases hn

/-- A node that leads somewhere is open. -/
theorem isOpen_of_leads (hm : m ∈ h.leads n) : h.isOpen n = true := by
  refine Bool.not_eq_false _ ▸ fun hn => ?_
  rw [leads_of_not_isOpen hn] at hm
  cases hm

/-- A node that leads somewhere is on the heap. -/
theorem mem_nodes_of_leads (hm : m ∈ h.leads n) : n ∈ h.nodes := by
  cases n with
  | scope id =>
    refine List.mem_append_left _ (List.mem_map.mpr ⟨id.index, List.mem_range.mpr ?_, rfl⟩)
    refine Nat.lt_of_not_le fun hle => ?_
    rw [leads, scopeEdges, scope_of_le h hle] at hm
    cases hm
  | object id =>
    refine List.mem_append_right _ (List.mem_map.mpr ⟨id.index, List.mem_range.mpr ?_, rfl⟩)
    refine Nat.lt_of_not_le fun hle => ?_
    rw [leads, instanceEdges, get_of_le h hle] at hm
    cases hm
  | promise id => cases hm

/-! ## One round -/

/-- A visit lists the node, unless it is passed over. -/
theorem has_visit :
    (h.visit found node).1.has n = true ↔
      found.has n = true ∨ n = node ∧ h.isOpen node = true := by
  cases node with
  | scope id =>
    simp only [visit]
    split
    case isTrue hin => exact (or_iff_left_of_imp fun hn => hn.1 ▸ hin).symm
    case isFalse => cases n <;> simp [Discovery.has, isOpen, Listing.contains_push]
  | object id =>
    simp only [visit]
    split
    case isTrue hin =>
      -- It is passed over because it has been listed or because it is final.
      refine (or_iff_left_of_imp ?_).symm
      rintro ⟨rfl, ho⟩
      simp only [isOpen, Bool.not_eq_true'] at ho
      rw [ho, Bool.false_or] at hin
      exact hin
    case isFalse hin =>
      have ho : (h.get id).sealed = false := by
        rw [Bool.or_eq_true, not_or] at hin
        exact Bool.eq_false_iff.mpr hin.1
      cases n <;> simp [Discovery.has, isOpen, Listing.contains_push, ho]
  | promise id =>
    simp only [visit]
    split
    case isTrue hin => exact (or_iff_left_of_imp fun hn => hn.1 ▸ hin).symm
    case isFalse => cases n <;> simp [Discovery.has, isOpen, Listing.contains_push]

/-- A visit answers what the node leads to, unless the node has been listed before. -/
theorem edges_visit :
    (h.visit found node).2 = if found.has node then [] else h.leads node := by
  cases node with
  | scope id =>
    simp only [visit, Discovery.has, leads]
    split <;> simp_all
  | object id =>
    simp only [visit, Discovery.has, leads, Bool.or_eq_true]
    by_cases hs : (h.get id).sealed = true <;> by_cases hc : found.instances.contains id = true <;>
      simp [hs, hc]
  | promise id =>
    simp only [visit, Discovery.has, leads]
    split <;> simp_all

/-- A round lists what it visits, but for what is passed over. -/
theorem has_visitAll :
    (h.visitAll todo found).1.has n = true ↔
      found.has n = true ∨ n ∈ todo ∧ h.isOpen n = true := by
  induction todo generalizing found with
  | nil => simp [visitAll]
  | cons node todo ih =>
    simp only [visitAll]
    rw [ih, has_visit, List.mem_cons]
    constructor
    · rintro ((hf | ⟨rfl, ho⟩) | ⟨hin, ho⟩)
      · exact .inl hf
      · exact .inr ⟨.inl rfl, ho⟩
      · exact .inr ⟨.inr hin, ho⟩
    · rintro (hf | ⟨rfl | hin, ho⟩)
      · exact .inl (.inl hf)
      · exact .inl (.inr ⟨rfl, ho⟩)
      · exact .inr ⟨hin, ho⟩

/-- What a round answers is what the nodes lead to that it has listed anew. -/
theorem mem_visitAll :
    m ∈ (h.visitAll todo found).2 ↔
      ∃ n ∈ todo, found.has n = false ∧ m ∈ h.leads n := by
  induction todo generalizing found with
  | nil => simp [visitAll]
  | cons node todo ih =>
    simp only [visitAll, List.mem_append, edges_visit, ih]
    constructor
    · rintro (hm | ⟨n, hin, hf, hm⟩)
      · split at hm
        case isTrue => cases hm
        case isFalse hf => exact ⟨node, List.mem_cons_self, Bool.eq_false_iff.mpr hf, hm⟩
      · refine ⟨n, List.mem_cons_of_mem _ hin, Bool.eq_false_iff.mpr fun ht => ?_, hm⟩
        exact Bool.eq_false_iff.mp hf (has_visit.mpr (.inl ht))
    · rintro ⟨n, hin, hf, hm⟩
      -- A node that is in the list twice answers when it comes first.
      by_cases hn : n = node
      · subst hn
        left
        rw [hf]
        exact hm
      · right
        refine ⟨n, (List.mem_cons.mp hin).resolve_left hn, Bool.eq_false_iff.mpr fun ht => ?_, hm⟩
        rcases has_visit.mp ht with hf' | ⟨hn', -⟩
        · exact Bool.eq_false_iff.mp hf hf'
        · exact hn hn'

/-! ## All rounds -/

/-- A round is followed by the rounds that are left. -/
theorem discoverWithin_cons (fuel : ℕ) (node : Node) (todo : List Node) (found : Discovery) :
    h.discoverWithin (fuel + 1) (node :: todo) found =
      h.discoverWithin fuel (h.visitAll (node :: todo) found).2
        (h.visitAll (node :: todo) found).1 :=
  rfl

/-- With nothing left to visit, more rounds change nothing. -/
theorem discoverWithin_nil (fuel : ℕ) (found : Discovery) :
    h.discoverWithin fuel [] found = found := by
  cases fuel <;> rfl

/-- Whatever a search finds is reachable, if what it starts from is. -/
theorem reaches_of_has_discoverWithin {root : Node} (fuel : ℕ)
    (hfound : ∀ n, found.has n = true → h.Reaches root n ∧ h.isOpen n = true)
    (htodo : ∀ n ∈ todo, h.Reaches root n)
    (hn : (h.discoverWithin fuel todo found).has n = true) :
    h.Reaches root n ∧ h.isOpen n = true := by
  induction fuel generalizing todo found with
  | zero => exact hfound n hn
  | succ fuel ih =>
    cases todo with
    | nil => exact hfound n hn
    | cons node todo =>
      rw [discoverWithin_cons] at hn
      refine ih (fun n hf => ?_) (fun m hm => ?_) hn
      · rcases has_visitAll.mp hf with hf | ⟨hin, ho⟩
        · exact hfound n hf
        · exact ⟨htodo n hin, ho⟩
      · obtain ⟨n, hin, -, hlead⟩ := mem_visitAll.mp hm
        exact (htodo n hin).tail hlead

/-- A listing is closed under edges, but for some nodes that are still to be visited. -/
def ClosedBut (h : Heap) (found : Discovery) (todo : List Node) : Prop :=
  ∀ n, found.has n = true → ∀ m ∈ h.leads n, h.isOpen m = true → found.has m = true ∨ m ∈ todo

/-- A round keeps the listing closed but for what is to be visited next. -/
theorem ClosedBut.visitAll (hc : h.ClosedBut found todo) :
    h.ClosedBut (h.visitAll todo found).1 (h.visitAll todo found).2 := by
  intro n hn m hm ho
  by_cases hf : found.has n = true
  · left
    rcases hc n hf m hm ho with hfm | hin
    · exact has_visitAll.mpr (.inl hfm)
    · exact has_visitAll.mpr (.inr ⟨hin, ho⟩)
  · right
    rcases has_visitAll.mp hn with hf' | ⟨hin, -⟩
    · exact absurd hf' hf
    · exact mem_visitAll.mpr ⟨n, hin, Bool.eq_false_iff.mpr hf, hm⟩

/-- How many nodes on the heap have not been listed. -/
def unlisted (h : Heap) (found : Discovery) : ℕ := h.nodes.countP fun n => !found.has n

/-- There are fewer nodes on the heap than discovery has rounds. -/
theorem unlisted_lt (h : Heap) (found : Discovery) :
    h.unlisted found < h.scopes.size + h.instances.size + h.promises.size + 1 := by
  have hle : h.unlisted found ≤ h.nodes.length := List.countP_le_length
  simp only [nodes, List.length_append, List.length_map, List.length_range] at hle
  omega

/-- A round that leaves something to visit has listed a node on the heap. -/
theorem unlisted_visitAll_lt (hm : m ∈ (h.visitAll todo found).2) :
    h.unlisted (h.visitAll todo found).1 < h.unlisted found := by
  obtain ⟨n, hin, hf, hlead⟩ := mem_visitAll.mp hm
  obtain ⟨before, after, hsplit⟩ := List.append_of_mem (mem_nodes_of_leads hlead)
  have hnew : (h.visitAll todo found).1.has n = true :=
    has_visitAll.mpr (.inr ⟨hin, isOpen_of_leads hlead⟩)
  have hmono (l : List Node) : (l.countP fun n => !(h.visitAll todo found).1.has n) ≤
      l.countP fun n => !found.has n := by
    refine List.countP_mono_left fun n' _ hn' => ?_
    simp only [Bool.not_eq_true'] at hn' ⊢
    exact Bool.eq_false_iff.mpr fun ht =>
      Bool.eq_false_iff.mp hn' (has_visitAll.mpr (.inl ht))
  -- The node that leads somewhere is counted before the round and not after it.
  have hb := hmono before
  have ha := hmono after
  simp only [unlisted, hsplit, List.countP_append, List.countP_cons, hnew, hf, Bool.not_true,
    Bool.not_false, Bool.false_eq_true, if_true, if_false]
  omega

/-- A search with enough rounds ends with a closed listing. It keeps what was listed before and
lists what it starts from. -/
theorem closed_discoverWithin (fuel : ℕ) (hc : h.ClosedBut found todo)
    (hfuel : h.unlisted found < fuel) :
    h.ClosedBut (h.discoverWithin fuel todo found) [] ∧
      ∀ n, found.has n = true ∨ n ∈ todo ∧ h.isOpen n = true →
        (h.discoverWithin fuel todo found).has n = true := by
  induction fuel generalizing todo found with
  | zero => exact absurd hfuel (Nat.not_lt_zero _)
  | succ fuel ih =>
    cases todo with
    | nil =>
      refine ⟨hc, ?_⟩
      rintro n (hf | ⟨hin, -⟩)
      · exact hf
      · cases hin
    | cons node todo =>
      rw [discoverWithin_cons]
      have hlisted (n : Node) (hn : found.has n = true ∨ n ∈ node :: todo ∧ h.isOpen n = true) :=
        has_visitAll.mpr hn
      cases hnext : (h.visitAll (node :: todo) found).2 with
      | nil =>
        rw [discoverWithin_nil]
        exact ⟨hnext ▸ hc.visitAll, hlisted⟩
      | cons m rest =>
        -- Something is left to visit, so the round has listed a node, and the rounds left suffice.
        have hlt := unlisted_visitAll_lt (m := m) (hnext ▸ List.mem_cons_self)
        obtain ⟨hclosed, hkept⟩ := ih hc.visitAll (by omega)
        rw [hnext] at hclosed hkept
        exact ⟨hclosed, fun n hn => hkept n (.inl (hlisted n hn))⟩

/-- **Discovery lists exactly what can be reached** from the root, instances that are final
apart. -/
theorem has_discover_iff (root : InstanceId) :
    (h.discover root).has n = true ↔ h.Reaches (.object root) n ∧ h.isOpen n = true := by
  have hnothing (n : Node) : h.nothingFound.has n = false := by
    cases n <;> exact Listing.contains_ofSize _ _
  constructor
  · refine reaches_of_has_discoverWithin _ (fun n hn => ?_) fun n hn => ?_
    · rw [hnothing] at hn
      cases hn
    · rw [List.mem_singleton.mp hn]
      exact .refl
  · rintro ⟨hreach, ho⟩
    have hempty : h.ClosedBut h.nothingFound [.object root] :=
      fun n hn => absurd hn (Bool.eq_false_iff.mp (hnothing n))
    obtain ⟨hclosed, hkept⟩ := closed_discoverWithin _ hempty (h.unlisted_lt _)
    -- Along the chain of edges each node is open, since what is passed over leads nowhere.
    induction hreach with
    | refl => exact hkept _ (.inr ⟨List.mem_singleton_self _, ho⟩)
    | @tail a b _ hab ih =>
      exact (hclosed a (ih (isOpen_of_leads hab)) b hab ho).resolve_right List.not_mem_nil

end Heap

end ObjectGraph
