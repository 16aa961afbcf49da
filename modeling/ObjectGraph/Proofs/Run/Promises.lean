import ObjectGraph.Proofs.Construct
import ObjectGraph.Proofs.Run.Calls
import ObjectGraph.Proofs.Run.Limits

/-!
# Promises are resolved once and shared

Whatever a host asks for, three kinds of things happen to promises: evaluation and plugins work and
make new ones, a promise is read, and a batch is run (`World.Trace`). A trace keeps the reads, with
what each reader has found and come to. In every trace promises only move forward, a value is turned
into an expression once, and all readers that come to something come to the same
(`World.promises_settle_once`). The plugins may make promises, and must not move any.
-/

namespace ObjectGraph

variable {σ : Type} {natives : Natives σ}

/-! ## Reads -/

/-- A read of a promise. -/
structure Read where
  /-- The promise. -/
  id : PromiseId
  /-- The state that the reader finds. -/
  found : Promise
  /-- What the reader comes to. -/
  reading : Reading
  /-- How many instances are made. -/
  made : ℕ

/-- The reader turns the value of the promise into an expression. -/
def Read.converts (r : Read) : Bool :=
  match r.found with
  | .settled (.ok _) => true
  | _ => false

/-- How often the value of a promise is turned into an expression. -/
def Read.conversions (reads : List Read) (id : PromiseId) : ℕ :=
  reads.countP fun r => r.id = id && r.converts

/-- What is not repeated is there at most once. -/
theorem Read.countP_le_one {p : Read → Bool} {reads : List Read}
    (h : reads.Pairwise fun r r' => p r = true → p r' = false) : reads.countP p ≤ 1 := by
  induction h with
  | nil => exact Nat.zero_le 1
  | @cons r reads hr _ ih =>
    rw [List.countP_cons]
    split
    case isTrue hp =>
      have hnone : reads.countP p = 0 :=
        List.countP_eq_zero.mpr fun r' hr' => Bool.eq_false_iff.mp (hr r' hr' hp)
      omega
    case isFalse => exact ih

/-- How many instances are made for the value of a promise. -/
def Read.instances (reads : List Read) (id : PromiseId) : ℕ :=
  (reads.filter (·.id = id)).foldr (·.made + ·) 0

/-- The read of a promise in a given heap. -/
def Heap.readOf (h : Heap) (id : PromiseId) : Read where
  id := id
  found := h.promise id
  reading := (h.readPromise id).1
  made := (h.readPromise id).2.instances.size - h.instances.size

namespace Heap

variable {h : Heap} {id : PromiseId}

/-- A read makes an instance only if it turns a value into an expression, and then at most one. -/
theorem made_readOf_le (h : Heap) (id : PromiseId) :
    (h.readOf id).made ≤ if (h.readOf id).converts then 1 else 0 := by
  cases hp : h.promise id with
  | settled result =>
    cases result with
    | ok value =>
      have hle : (h.materialize value).2.instances.size ≤ h.instances.size + 1 :=
        h.size_materialize_le value
      simp only [readOf, Read.converts, readPromise, hp, setPromise, if_true]
      omega
    | error message => simp [readOf, readPromise, hp, setPromise]
  | rejected message => simp [readOf, readPromise, hp, setPromise]
  | _ => simp [readOf, readPromise, hp]

/-- A reader that turns a value into an expression comes to something. -/
theorem reading_of_converts (hc : (h.readOf id).converts = true) : (h.readOf id).reading ≠ .waits := by
  unfold Read.converts readOf at hc
  split at hc
  · rename_i value hp
    have hp : h.promise id = .settled (.ok value) := hp
    simp [readOf, readPromise, hp]
  · cases hc

/-- A read resolves a promise only by turning its value into the expression. -/
theorem converts_of_resolved {node : Expr} (hid : h.Has (.promise id))
    (hp : (h.readPromise id).2.promise id = .resolved node) :
    h.promise id = .resolved node ∨
      (h.readOf id).converts = true ∧ (h.readOf id).reading = .yields node := by
  cases hstate : h.promise id with
  | settled result =>
    cases result with
    | ok value =>
      have hc : (h.readOf id).converts = true := by rw [Read.converts, readOf, hstate]
      have hanswered := isAnswered_readPromise hid (reading_of_converts hc)
      rw [hp] at hanswered
      exact .inr ⟨hc, hanswered.eq_yields⟩
    | error message =>
      rw [readPromise, hstate, promise_setPromise_self hid] at hp
      cases hp
  | rejected message =>
    rw [readPromise, hstate, promise_setPromise_self hid] at hp
    cases hp
  | _ =>
    rw [readPromise, hstate] at hp
    exact .inl (hstate.symm.trans hp)

/-- Where a reader has come to something, a read comes to the same, and nothing is made or turned into
anything. -/
theorem readOf_of_answered {reading : Reading} (hp : (h.promise id).IsAnswered reading) :
    (h.readOf id).reading = reading ∧ (h.readOf id).converts = false ∧ (h.readOf id).made = 0 := by
  have hread := readPromise_of_answered hp
  refine ⟨congrArg Prod.fst hread, ?_, ?_⟩
  · cases reading with
    | waits => exact hp.elim
    | yields node =>
      have hp : h.promise id = .resolved node := hp
      rw [Read.converts, readOf, hp]
    | fails message =>
      have hp : h.promise id = .rejected message := hp
      rw [Read.converts, readOf, hp]
  · show (h.readPromise id).2.instances.size - h.instances.size = 0
    rw [hread]
    exact Nat.sub_self _

end Heap

namespace World

/-! ## Traces -/

/-- What has happened to promises since the first world, with the reads in order. -/
inductive Trace (w₀ : World σ) : List Read → World σ → Prop
  /-- Nothing has happened yet. -/
  | start : Trace w₀ [] w₀
  /-- Evaluation or a plugin has worked, and may have made promises. -/
  | works {reads : List Read} {w w' : World σ} :
    Trace w₀ reads w → w.heap.Spawns w'.heap → Trace w₀ reads w'
  /-- A promise has been read. -/
  | reads {reads : List Read} {w : World σ} {id : PromiseId} :
    Trace w₀ reads w → w.heap.Has (.promise id) →
    Trace w₀ (reads ++ [w.heap.readOf id]) { w with heap := (w.heap.readPromise id).2 }
  /-- A batch has been run, the tasks of which have ended in some order. -/
  | batch {reads : List Read} {w : World σ} {arrange : List Task → List Task}
    (ids : List PromiseId) : Trace w₀ reads w → (∀ tasks, (arrange tasks).Perm tasks) →
    Trace w₀ reads { w with heap := (w.heap.awaitIn arrange ids).2 }

variable {w₀ w w' : World σ} {reads reads' : List Read}

namespace Trace

/-- What happens next belongs to the trace. -/
theorem trans (h : Trace w₀ reads w) (h' : Trace w reads' w') : Trace w₀ (reads ++ reads') w' := by
  induction h' with
  | start =>
    rw [List.append_nil]
    exact h
  | works _ hspawns ih => exact ih.works hspawns
  | reads _ hid ih =>
    rw [← List.append_assoc]
    exact ih.reads hid
  | batch ids _ harrange ih => exact ih.batch ids harrange

/-- In a trace promises move forward. -/
theorem advances (h : Trace w₀ reads w) : w₀.heap.Advances w.heap := by
  induction h with
  | start => exact .refl
  | works _ hspawns ih => exact ih.trans hspawns.advances
  | @reads _ w id _ _ ih => exact ih.trans (.readPromise w.heap id)
  | @batch _ w _ ids _ harrange ih => exact ih.trans (.awaitIn harrange ids w.heap)

/-- What belongs to a promise that has been read belongs to it on. -/
theorem answered (h : Trace w₀ reads w) {r : Read} (hr : r ∈ reads) :
    w.heap.Has (.promise r.id) ∧
      (r.reading ≠ .waits → (w.heap.promise r.id).IsAnswered r.reading) := by
  have hkept {h h' : Heap} (ha : h.Advances h') (hr : h.Has (.promise r.id) ∧
      (r.reading ≠ .waits → (h.promise r.id).IsAnswered r.reading)) :
      h'.Has (.promise r.id) ∧ (r.reading ≠ .waits → (h'.promise r.id).IsAnswered r.reading) :=
    ⟨Nat.lt_of_lt_of_le hr.1 ha.size, fun hne => (hr.2 hne).forward (ha.forward hr.1)⟩
  induction h with
  | start => cases hr
  | works _ hspawns ih => exact hkept hspawns.advances (ih hr)
  | @reads _ w id _ hid ih =>
    -- The read is an earlier one, or the one that has just taken place.
    rcases List.mem_append.mp hr with hr | hr
    · exact hkept (.readPromise w.heap id) (ih hr)
    · obtain rfl := List.mem_singleton.mp hr
      refine ⟨?_, fun hne => Heap.isAnswered_readPromise hid hne⟩
      exact Nat.lt_of_lt_of_le hid (Heap.Advances.readPromise w.heap id).size
  | @batch _ w _ ids _ harrange ih => exact hkept (.awaitIn harrange ids w.heap) (ih hr)

/-- After a reader has come to something, all readers of the promise come to the same, and nothing is
turned into an expression or made for them. -/
theorem shared (h : Trace w₀ reads w) :
    reads.Pairwise fun r r' => r'.id = r.id → r.reading ≠ .waits →
      r'.reading = r.reading ∧ r'.converts = false ∧ r'.made = 0 := by
  induction h with
  | start => exact .nil
  | works _ _ ih => exact ih
  | @reads _ w id htrace _ ih =>
    refine List.pairwise_append.mpr ⟨ih, List.pairwise_singleton _ _, fun r hr r' hr' => ?_⟩
    obtain rfl := List.mem_singleton.mp hr'
    intro hid hne
    obtain rfl : id = r.id := hid
    exact Heap.readOf_of_answered ((htrace.answered hr).2 hne)
  | batch _ _ _ ih => exact ih

/-- Each read has taken place in some heap. -/
theorem exists_heap (h : Trace w₀ reads w) {r : Read} (hr : r ∈ reads) :
    ∃ (heap : Heap) (id : PromiseId), r = heap.readOf id := by
  induction h with
  | start => cases hr
  | works _ _ ih => exact ih hr
  | @reads _ w id _ _ ih =>
    rcases List.mem_append.mp hr with hr | hr
    · exact ih hr
    · exact ⟨w.heap, id, List.mem_singleton.mp hr⟩
  | batch _ _ _ ih => exact ih hr

/-- A promise that has been resolved in a trace has had its value turned into an expression by one of
the reads, which has come to that expression. -/
theorem exists_converts (h : Trace w₀ reads w) {id : PromiseId} {node : Expr}
    (hp : w.heap.promise id = .resolved node) :
    w₀.heap.promise id = .resolved node ∨
      ∃ r ∈ reads, r.id = id ∧ r.converts = true ∧ r.reading = .yields node := by
  induction h with
  | start => exact .inl hp
  | @works _ w w' _ hspawns ih =>
    by_cases hid : w.heap.Has (.promise id)
    · rw [hspawns.kept hid] at hp
      exact ih hp
    · -- A new promise is not resolved, and what is not on the heap is not either.
      by_cases hid' : w'.heap.Has (.promise id)
      · obtain ⟨ty, task, heq⟩ := hspawns.fresh hid hid'
        rw [heq] at hp
        cases hp
      · rw [Heap.promise_of_not_has hid'] at hp
        cases hp
  | @reads reads w id' _ hid ih =>
    have hbefore (hp : w.heap.promise id = .resolved node) :
        w₀.heap.promise id = .resolved node ∨ ∃ r ∈ reads ++ [w.heap.readOf id'],
          r.id = id ∧ r.converts = true ∧ r.reading = .yields node :=
      (ih hp).imp_right fun ⟨r, hr, hrest⟩ => ⟨r, List.mem_append_left _ hr, hrest⟩
    by_cases hne : id = id'
    · subst hne
      rcases Heap.converts_of_resolved hid hp with hp | ⟨hconverts, hreading⟩
      · exact hbefore hp
      · refine .inr ⟨w.heap.readOf id, ?_, rfl, hconverts, hreading⟩
        exact List.mem_append_right _ (List.mem_singleton_self _)
    · -- Another promise has been read, which resolves none but itself.
      have hsame : (w.heap.readPromise id').2.promise id = w.heap.promise id :=
        Heap.promise_readPromise_of_ne hne
      exact hbefore (hsame.symm.trans hp)
  | @batch _ w _ ids _ harrange ih =>
    refine ih ?_
    rw [Heap.promise_awaitIn harrange] at hp
    split at hp
    · exact Promise.eq_resolved_of_ended hp
    · exact hp

/-- No value is turned into an expression twice. -/
theorem conversions_le (h : Trace w₀ reads w) (id : PromiseId) : Read.conversions reads id ≤ 1 := by
  -- The reader that does it comes to something, and all later readers of the promise share that.
  have hpairwise : reads.Pairwise fun r r' =>
      (r.id = id && r.converts) = true → (r'.id = id && r'.converts) = false := by
    refine h.shared.imp_of_mem fun {r r'} hr _ hshared hc => ?_
    rw [Bool.and_eq_true, decide_eq_true_eq] at hc
    obtain ⟨heap, id', rfl⟩ := h.exists_heap hr
    by_cases hid : r'.id = id
    · have hsame := hshared (hid.trans hc.1.symm) (Heap.reading_of_converts hc.2)
      rw [hsame.2.1, Bool.and_false]
    · rw [decide_eq_false hid, Bool.false_and]
  exact Read.countP_le_one hpairwise

/-- Instances are made only for values that are turned into expressions, one for each. -/
theorem instances_le (h : Trace w₀ reads w) (id : PromiseId) :
    Read.instances reads id ≤ Read.conversions reads id := by
  have hmade : ∀ r ∈ reads, r.made ≤ if r.converts then 1 else 0 := fun r hr => by
    obtain ⟨heap, id', rfl⟩ := h.exists_heap hr
    exact heap.made_readOf_le id'
  -- Reads are counted one by one, whatever trace they belong to.
  clear h
  induction reads with
  | nil => exact Nat.zero_le _
  | cons r reads ih =>
    obtain ⟨hr, hrest⟩ := List.forall_mem_cons.mp hmade
    have hle := ih hrest
    simp only [Read.instances, Read.conversions, List.filter_cons, List.countP_cons,
      Bool.and_eq_true, decide_eq_true_eq] at hle ⊢
    by_cases hid : r.id = id
    · by_cases hc : r.converts = true
      · simp only [hid, hc, if_true, and_self, List.foldr_cons] at hr ⊢
        omega
      · simp only [hid, hc, if_true, and_false, List.foldr_cons,
          Bool.false_eq_true, if_false] at hr ⊢
        omega
    · simp only [hid, false_and, if_false]
      omega

end Trace

/-- What holds of promises over a trace. -/
structure Orderly (w₀ : World σ) (reads : List Read) (w : World σ) : Prop
    extends w₀.heap.Advances w.heap where
  /-- No promise has come to be in flight. -/
  inFlight : ∀ {id ty}, w.heap.promise id = .inFlight ty → w₀.heap.promise id = .inFlight ty
  /-- Promises are resolved with what their own tasks return. -/
  result : ∀ {id ty task node}, w₀.heap.promise id = .registered ty task →
    w.heap.promise id = .resolved node →
    ∃ value new, task.result id = .ok value ∧ node = value.node new
  /-- Promises are rejected with the messages that their own tasks fail with. -/
  message : ∀ {id ty task message}, w₀.heap.promise id = .registered ty task →
    w.heap.promise id = .rejected message → task.result id = .error message
  /-- No value is turned into an expression twice. -/
  conversions_le : ∀ id, Read.conversions reads id ≤ 1
  /-- The value of a promise that has been resolved is. -/
  conversions_eq : ∀ {id node}, w.heap.promise id = .resolved node →
    w₀.heap.promise id = .resolved node ∨ Read.conversions reads id = 1
  /-- At most one instance is made for it. -/
  instances_le : ∀ id, Read.instances reads id ≤ 1
  /-- After a reader has come to something, all readers of the promise come to the same, and nothing
  is turned into an expression or made for them. -/
  shared : reads.Pairwise fun r r' => r'.id = r.id → r.reading ≠ .waits →
    r'.reading = r.reading ∧ r'.converts = false ∧ r'.made = 0
  /-- So it would be for the next reader. -/
  next : ∀ r ∈ reads, r.reading ≠ .waits → w.heap.readPromise r.id = (r.reading, w.heap)

/-- Every trace is orderly. -/
theorem Trace.orderly (h : Trace w₀ reads w) : Orderly w₀ reads w where
  toAdvances := h.advances
  inFlight {id ty} hp := by
    -- An old promise has only moved forward, and a new one has come from where it waits. Neither
    -- leads to where the task is running.
    have ha := h.advances
    by_cases hid : w₀.heap.Has (.promise id)
    · exact Promise.Forward.of_inFlight (hp ▸ ha.forward hid)
    · by_cases hid' : w.heap.Has (.promise id)
      · obtain ⟨ty', task, hforward⟩ := ha.fresh hid hid'
        rw [hp] at hforward
        cases hforward.of_inFlight
      · rw [Heap.promise_of_not_has hid'] at hp
        cases hp
  result {id ty task node} hp₀ hp := by
    have hid : w₀.heap.Has (.promise id) := Heap.has_of_registered hp₀
    have hforward := h.advances.forward hid
    rw [hp₀, hp] at hforward
    exact hforward.result
  message {id ty task message} hp₀ hp := by
    have hid : w₀.heap.Has (.promise id) := Heap.has_of_registered hp₀
    have hforward := h.advances.forward hid
    rw [hp₀, hp] at hforward
    exact hforward.message
  conversions_le := h.conversions_le
  conversions_eq {id node} hp := by
    refine (h.exists_converts hp).imp_right fun ⟨r, hr, hid, hconverts, _⟩ => ?_
    -- One read has converted the value, and there are no two.
    have hpos : 0 < Read.conversions reads id := by
      refine List.countP_pos_iff.mpr ⟨r, hr, ?_⟩
      rw [hid, hconverts, decide_eq_true rfl]
      rfl
    have hle := h.conversions_le id
    omega
  instances_le id := Nat.le_trans (h.instances_le id) (h.conversions_le id)
  shared := h.shared
  next r hr hne := Heap.readPromise_of_answered ((h.answered hr).2 hne)

/-! ## Calls -/

end World

/-- What plugins obey they obey under limits that leave more room. -/
theorem Natives.Obeys.mono {L L' : Limits σ} (hn : natives.Obeys L)
    (hallows : ∀ {w w'}, L.allows w w' → L'.allows w w') (hadmits : ∀ {e}, L.admits e → L'.admits e) :
    natives.Obeys L' where
  plugins entry hentry := {
    property := (hn.plugins entry hentry).property.mono hallows hadmits
    element := (hn.plugins entry hentry).element.mono hallows hadmits
    operator := (hn.plugins entry hentry).operator.mono hallows hadmits
    call := (hn.plugins entry hentry).call.mono hallows hadmits
    onSeal := (hn.plugins entry hentry).onSeal.mono hallows hadmits }
  hooks hook hhook := (hn.hooks hook hhook).mono hallows hadmits

namespace Limits

/-- To do nothing to promises but what makes a trace. -/
def traced : Limits σ where
  allows w w' := ∃ reads, World.Trace w reads w'
  admits _ := True
  trans := fun ⟨_, h⟩ ⟨_, h'⟩ => ⟨_, h.trans h'⟩
  own _ _ _ _ h := ⟨[], .works .start (.of_promises_eq h)⟩
  faults _ := trivial

/-- A read makes a trace. -/
theorem allowsReads_traced : (traced : Limits σ).AllowsReads := fun w id => by
  by_cases hid : w.heap.Has (.promise id)
  · exact ⟨_, .reads .start hid⟩
  · refine ⟨[], .works .start (.of_promises_eq ?_)⟩
    show (w.heap.readPromise id).2.promises = w.heap.promises
    rw [Heap.readPromise_of_not_has hid]

end Limits

/-- Plugins that make promises and move none make traces. -/
theorem Natives.Obeys.traced (hn : natives.Obeys .spawning) : natives.Obeys .traced :=
  hn.mono (fun hspawns => ⟨[], .works .start hspawns⟩) fun _ => trivial

namespace World

/-- A call makes a trace, if the plugins do not move promises. -/
theorem Call.trace (hn : natives.Obeys .spawning) (h : Call natives w w') :
    ∃ reads, Trace w reads w' := by
  cases h with
  | @instantiate cls args _ => exact (Obeys.construct (L := .traced)).after w
  | @run settings root _ =>
    have hrun := Obeys.runFrom hn.traced Limits.allowsReads_traced
      (fun w i => ⟨[], .works .start (.of_promises_eq rfl)⟩)
      (fun w ids => ⟨[], .batch ids .start fun tasks => List.Perm.refl tasks⟩)
      (fun _ => trivial) settings.order root settings.maxSweeps {}
    exact hrun.after w

/-- A pass over an expression makes a trace, if the plugins do not move promises. -/
theorem trace_reduce (hn : natives.Obeys .spawning) (e : Expr) (scope : Option ScopeId)
    (s : Pass σ) :
    Ends (e.reduce natives scope) s (fun _ s' => ∃ reads, Trace s.world reads s'.world)
      fun _ s' => ∃ reads, Trace s.world reads s'.world :=
  (e.obeys hn.traced.answersWithin Limits.allowsReads_traced scope s).mono (fun _ _ h => h)
    fun _ _ h => h.1

/-- Reads and batches move each promise by itself. -/
structure MovesApart (natives : Natives σ) (w : World σ) : Prop where
  /-- Reducing a promise is reading it and going on with what has been read. -/
  reduce : ∀ scope id ty n, (Expr.promise id ty).reduce natives scope ⟨w, n⟩ =
    (w.heap.readPromise id).1.answer id ty ⟨{ w with heap := (w.heap.readPromise id).2 }, n⟩
  /-- That the promise is in flight while it is read makes no difference. -/
  exchange : ∀ id ty, w.heap.readByExchange id ty = w.heap.readPromise id
  /-- A read leaves the other promises as they are, whether the promise is rejected or not. -/
  others : ∀ {id other}, other ≠ id →
    (w.heap.readPromise id).2.promise other = w.heap.promise other
  /-- A batch gives each promise the result of its own task, whatever the others come to. -/
  batch : ∀ arrange ids id, (∀ tasks, (arrange tasks).Perm tasks) →
    (w.heap.awaitIn arrange ids).2.promise id =
      if id ∈ ids then (w.heap.promise id).ended id else w.heap.promise id

/-- In every world promises move apart. -/
theorem movesApart (natives : Natives σ) (w : World σ) : MovesApart natives w where
  reduce scope id ty n := by
    rw [Expr.reduce]
    exact Reduction.promise_apply id ty ⟨w, n⟩
  exchange id ty := w.heap.readByExchange_eq id ty
  others hne := Heap.promise_readPromise_of_ne hne
  batch _ ids id harrange := Heap.promise_awaitIn harrange ids w.heap id

/-- **Promises are resolved once and shared.** Whatever calls are made, whether they fail or not, they
make a trace, and so does each pass over an expression on the way. In every trace promises only move
forward and none comes to be in flight. Each is resolved with what its own task returns, or rejected
with the message of its own task. Its value is turned into an expression once, for which one instance
at most is made. After a reader has come to something, be it the expression or the message, all
readers of the promise come to the same and change nothing. A rejection moves no other promise. The
plugins may make promises, but must not move any. -/
theorem promises_settle_once (hn : natives.Obeys .spawning)
    (hcalls : Relation.ReflTransGen (Call natives) w₀ w) :
    (∃ reads, Trace w₀ reads w) ∧
      (∀ (e : Expr) scope s, Ends (e.reduce natives scope) s
        (fun _ s' => ∃ reads, Trace s.world reads s'.world)
        fun _ s' => ∃ reads, Trace s.world reads s'.world) ∧
      ∀ reads w', Trace w₀ reads w' → Orderly w₀ reads w' ∧ MovesApart natives w' := by
  refine ⟨?_, fun e scope s => trace_reduce hn e scope s,
    fun reads w' h => ⟨h.orderly, movesApart natives w'⟩⟩
  -- The traces of calls that follow one another make up one trace.
  induction hcalls with
  | refl => exact ⟨[], .start⟩
  | tail _ hcall ih =>
    obtain ⟨reads, h⟩ := ih
    obtain ⟨reads', h'⟩ := hcall.trace hn
    exact ⟨reads ++ reads', h.trans h'⟩

end World

/-! ## Two tasks, one of which fails -/

/-- A class whose properties are answered by its plugin. -/
def remote : ClassBody where
  properties := [⟨"a", .visible, .int, none⟩, ⟨"bad", .visible, .int, none⟩]

/-- A plugin that has the host work for each property: the first one comes to ten, and all others
fail. -/
def Natives.remote : Natives Unit where
  plugins := [(.main, { property := fun _ name => do
    return some (← Effect.spawn .int
      (if name = "a" then .returns (.value .int (.scalar (.int 10))) else .rejects "boom")) })]
  hooks := []

/-- The plugin makes promises, and moves none. -/
theorem Natives.obeys_remote : Natives.remote.Obeys .spawning where
  plugins entry hentry := by
    obtain rfl := List.mem_singleton.mp hentry
    exact {
      property := fun w => Ends.of_ok rfl (.allocPromise .int _)
      element := Asks.obeys (.read_bind .throw)
      operator := Asks.obeys Plugin.steady_plainClass.operator
      call := Asks.obeys (.read_bind .throw)
      onSeal := .pure }
  hooks hook hhook := by cases hhook

/-- Whether the promise is resolved with a given instance. -/
def Promise.isInstance (id : InstanceId) : Promise → Bool
  | .resolved (.object r) => r = id
  | _ => false

/-- A promise that is resolved with an instance. -/
theorem Promise.eq_of_isInstance {id : InstanceId} {p : Promise} (h : p.isInstance id = true) :
    p = .resolved (.object id) := by
  unfold isInstance at h
  split at h
  · rw [of_decide_eq_true h]
  · cases h

namespace World

/-- The world after an instance of the class has been asked for. -/
def withRemote : World Unit :=
  (Effect.construct .remote .main []).after (.ofTypes (.ofClass remote) ())

/-- Two evaluations of the instance fail at the second property alike. They turn the value of the
first one into an expression once, and make one instance at most for it. -/
theorem promises_settle_once_remote :
    let run (w : World Unit) := (Effect.run .remote {} ⟨0⟩).after w
    (∀ w ∈ [withRemote, run withRemote], Ends (Effect.run .remote {} ⟨0⟩) w (fun _ _ => False)
      fun e _ => e = .promiseRejected "boom") ∧
    ∃ reads, Trace withRemote reads (run (run withRemote)) ∧ Read.conversions reads ⟨0⟩ = 1 ∧
      Read.instances reads ⟨0⟩ ≤ 1 := by
  intro run
  refine ⟨by decide +kernel, ?_⟩
  have hfirst : Call .remote withRemote (run withRemote) := .run {} (by
    show 0 < Array.size _
    decide +kernel)
  have hsecond : Call .remote (run withRemote) (run (run withRemote)) := .run {} (by
    show 0 < Array.size _
    decide +kernel)
  obtain ⟨⟨reads, htrace⟩, -, hall⟩ := promises_settle_once Natives.obeys_remote
    ((Relation.ReflTransGen.single hfirst).tail hsecond)
  have horderly := (hall reads _ htrace).1
  have hresolved : (run (run withRemote)).heap.promise ⟨0⟩ = .resolved (.object ⟨1⟩) :=
    Promise.eq_of_isInstance (by decide +kernel)
  have hbefore : withRemote.heap.promise ⟨0⟩ = .rejected "" :=
    Heap.promise_of_not_has (by
      show ¬ 0 < Array.size _
      decide +kernel)
  refine ⟨reads, htrace, ?_, horderly.instances_le ⟨0⟩⟩
  rcases horderly.conversions_eq hresolved with heq | hone
  · rw [hbefore] at heq
    cases heq
  · exact hone

end World

end ObjectGraph
