import Poplar.EventCtl.Partition

/-!
# Destroying a master: event_master_destroy

The nodes freed so far stand beside the heap: a node is read before it is freed, and none
may be freed again. The descriptors, the events buffer and the tables freed with them hold
no nodes.
-/
namespace Poplar.EventCtl
open Chain (next)

/-- The nodes freed, and what the master goes on counting. -/
structure Freeing where
  freed : List NodePtr
  eventsAlloc : Int

/-- `events_alloc--` and `XFREE`, of a node that is read on the way. -/
def eventNodeFree (node : NodePtr) (f : Freeing) : Except Fault Freeing :=
  if f.freed.contains node then .error .useAfterFree
  else .ok { freed := node :: f.freed, eventsAlloc := f.eventsAlloc - 1 }

/-- The loop of `event_list_free` from `t` on. -/
def eventListFreeFrom (heap : Chain.Heap EventNode) : Nat → Option NodePtr → Freeing →
    Except Fault Freeing
  | _, none, f => .ok f
  | 0, some _, _ => .error .diverge
  | fuel + 1, some t, f => do
    let f ← eventNodeFree t f
    eventListFreeFrom heap fuel (next heap t) f

def eventListFree (s : Engine) (list : ListName) (f : Freeing) : Except Fault Freeing :=
  eventListFreeFrom s.heap s.brk (s.list list).head f

/-- `hash_clean` with `event_node_free`: bucket by bucket, each chain from its head on. -/
def hashCleanNodes (hash : Hash NodePtr) (f : Freeing) : Except Fault Freeing :=
  (List.range hash.size).foldlM
    (fun f i => (hash.index i).foldlM (fun f hb => eventNodeFree hb.data f) f) f

/-- The ready list is not among those freed. -/
def eventMasterDestroy (s : Engine) : Except Fault Freeing := do
  let f ← hashCleanNodes s.master.event { freed := [], eventsAlloc := s.master.eventsAlloc }
  let f ← eventListFree s .rear f
  let f ← eventListFree s .unuse f
  eventListFree s .timer f

/-! ## Nodes freed one after the other -/

/-- These nodes went, and no others. -/
structure Frees (nodes : List NodePtr) (f f' : Freeing) : Prop where
  freed : f'.freed = nodes.reverse ++ f.freed
  eventsAlloc : f'.eventsAlloc = f.eventsAlloc - nodes.length

theorem foldlM_frees {nodes : List NodePtr} {f : Freeing} (nodup : nodes.Nodup)
    (apart : ∀ n ∈ nodes, n ∉ f.freed) :
    ∃ f', nodes.foldlM (fun f n => eventNodeFree n f) f = .ok f' ∧ Frees nodes f f' := by
  induction nodes generalizing f with
  | nil => exact ⟨f, rfl, rfl, by simp⟩
  | cons n nodes ih =>
    obtain ⟨fresh, others⟩ := List.nodup_cons.mp nodup
    have first : eventNodeFree n f =
        .ok { freed := n :: f.freed, eventsAlloc := f.eventsAlloc - 1 } :=
      if_neg (by simpa using apart n List.mem_cons_self)
    have later : ∀ m ∈ nodes, m ∉ n :: f.freed := by
      intro m member among
      rcases List.mem_cons.mp among with same | before
      · exact fresh (same ▸ member)
      · exact apart m (List.mem_cons_of_mem n member) before
    obtain ⟨f', run, freed, eventsAlloc⟩ := ih (f := ⟨n :: f.freed, f.eventsAlloc - 1⟩) others later
    refine ⟨f', ?_, ?_, ?_⟩
    · rw [List.foldlM_cons, first]
      exact run
    · rw [freed, List.reverse_cons, List.append_assoc]
      rfl
    · rw [eventsAlloc, List.length_cons]
      push_cast
      ring

/-- All nodes freed, in order. -/
def freeAll (nodes : List NodePtr) (f : Freeing) : Except Fault Freeing :=
  nodes.foldlM (fun f n => eventNodeFree n f) f

theorem freeAll_append (nodes later : List NodePtr) (f : Freeing) :
    freeAll (nodes ++ later) f = freeAll nodes f >>= freeAll later :=
  List.foldlM_append

theorem eventListFreeFrom_eq {heap : Chain.Heap EventNode} {before : Option NodePtr}
    {nodes : List NodePtr} (seg : Chain.Seg heap before none nodes) {fuel : Nat}
    (enough : nodes.length ≤ fuel) (f : Freeing) :
    eventListFreeFrom heap fuel nodes.head? f = freeAll nodes f := by
  induction nodes generalizing before fuel f with
  | nil => cases fuel <;> rfl
  | cons n nodes ih =>
    cases fuel with
    | zero => exact absurd enough (Nat.not_succ_le_zero _)
    | succ fuel =>
      obtain ⟨-, after, rest⟩ := seg
      rw [Option.or_none] at after
      unfold freeAll
      rw [List.head?_cons, eventListFreeFrom, List.foldlM_cons, after]
      apply bind_congr
      intro f
      exact ih rest (Nat.le_of_succ_le_succ enough) f

theorem hashCleanNodes_eq (hash : Hash NodePtr) (f : Freeing) :
    hashCleanNodes hash f = freeAll hash.datas f := by
  unfold hashCleanNodes Hash.datas
  induction List.range hash.size generalizing f with
  | nil => rfl
  | cons i is ih =>
    rw [List.foldlM_cons, List.flatMap_cons, freeAll_append]
    have bucket : (hash.index i).foldlM (fun f hb => eventNodeFree hb.data f) f =
        freeAll ((hash.index i).map HashBacket.data) f := by
      unfold freeAll
      rw [List.foldlM_map]
    rw [bucket]
    apply bind_congr
    exact ih

section Destroy

variable {s : Engine} {queues : Queues}

theorem eventListFree_eq (rep : Rep s queues none) (l : ListName) (f : Freeing) :
    eventListFree s l f = freeAll (queues l) f := by
  unfold eventListFree
  rw [(rep.chain l).head]
  exact eventListFreeFrom_eq (rep.chain l).seg (rep.enough l) f

/-- The nodes a master gives back. -/
def givenBack (s : Engine) (queues : Queues) : List NodePtr :=
  s.master.event.datas ++ queues .rear ++ queues .unuse ++ queues .timer

theorem eventMasterDestroy_eq (rep : Rep s queues none) :
    eventMasterDestroy s =
      freeAll (givenBack s queues) { freed := [], eventsAlloc := s.master.eventsAlloc } := by
  unfold eventMasterDestroy givenBack
  simp only [hashCleanNodes_eq, eventListFree_eq rep, freeAll_append, bind_assoc]

theorem mem_givenBack (rep : Rep s queues none) (n : NodePtr) :
    n ∈ givenBack s queues ↔ s.Allocated n ∧ (s.heap n).type ≠ .ready := by
  have listed : ∀ l, n ∈ queues l ↔ s.Allocated n ∧ (s.heap n).type = l.type := by
    intro l
    simpa using rep.listed l n
  have hashed : n ∈ s.master.event.datas ↔ s.Allocated n ∧ (s.heap n).type = .event := by
    simpa using rep.hashed n
  unfold givenBack
  rw [List.mem_append, List.mem_append, List.mem_append, hashed, listed, listed, listed]
  constructor
  · rintro (((⟨here, type⟩ | ⟨here, type⟩) | ⟨here, type⟩) | ⟨here, type⟩) <;>
      exact ⟨here, by rw [type]; decide⟩
  · rintro ⟨here, apart⟩
    have known := rep.typed n here (by simp)
    cases type : (s.heap n).type with
    | event => exact .inl (.inl (.inl ⟨here, rfl⟩))
    | rear => exact .inl (.inl (.inr ⟨here, rfl⟩))
    | unused => exact .inl (.inr ⟨here, rfl⟩)
    | timer => exact .inr ⟨here, rfl⟩
    | ready => exact absurd type apart
    | immediate => exact absurd type known

/-- Containers of different types have no node in common. -/
theorem givenBack_nodup (rep : Rep s queues none) :
    (givenBack s queues ++ queues .ready).Nodup := by
  have type : ∀ l, ∀ n ∈ queues l, (s.heap n).type = l.type := fun l n member =>
    ((rep.listed l n).mp member).2
  have event : ∀ n ∈ s.master.event.datas, (s.heap n).type = .event := fun n member =>
    ((rep.hashed n).mp member).2
  have apart : ∀ l l' : ListName, l ≠ l' → List.Disjoint (queues l) (queues l') := by
    intro l l' different n member member'
    exact different (ListName.type_injective ((type l n member).symm.trans (type l' n member')))
  have hashed : ∀ l, List.Disjoint s.master.event.datas (queues l) := by
    intro l n member member'
    exact l.type_ne_event ((type l n member').symm.trans (event n member))
  have each := fun l => (rep.chain l).nodup
  unfold givenBack
  simp only [List.nodup_append', List.disjoint_append_left, each, rep.nodup, hashed, and_true,
    apart, ne_eq, reduceCtorEq, not_false_eq_true]

end Destroy

/-- In every run the master can be destroyed: no node is freed twice or read after it was
freed, exactly the nodes of the ready list are left, and they are what is still counted. -/
theorem destroy_leaves_ready {r : Run} (reachable : runs.Reachable r) :
    ∃ f, eventMasterDestroy r.engine = .ok f ∧ f.freed.Nodup ∧
      (∀ n, n ∈ f.freed ↔ r.engine.Allocated n ∧ n ∉ r.engine.nodes .ready) ∧
      f.eventsAlloc = (r.engine.nodes .ready).length := by
  obtain ⟨queues, coherent⟩ := coherent_of_reachable reachable
  have rep := coherent.rep
  have nodup := givenBack_nodup rep
  have all : ∀ n, n ∈ givenBack r.engine queues ++ queues .ready ↔ r.engine.Allocated n := by
    intro n
    rw [List.mem_append, mem_givenBack rep, rep.listed]
    by_cases ready : (r.engine.heap n).type = .ready <;> simp [ready, ListName.type]
  have count :
      (givenBack r.engine queues ++ queues .ready).length = r.engine.master.eventsAlloc := by
    have same : (givenBack r.engine queues ++ queues .ready).toFinset =
        Finset.Ioo Engine.fetchPtr r.engine.brk := by
      apply Finset.ext
      intro n
      rw [List.mem_toFinset, all, Finset.mem_Ioo]
      exact Iff.rfl
    rw [← List.toFinset_card_of_nodup nodup, same, Nat.card_Ioo, rep.alloc]
    omega
  obtain ⟨f, run, frees⟩ := foldlM_frees (f := ⟨[], r.engine.master.eventsAlloc⟩)
    (List.nodup_append.mp nodup).1 (fun _ _ => List.not_mem_nil)
  have freed : f.freed = (givenBack r.engine queues).reverse := by
    rw [frees.freed, List.append_nil]
  refine ⟨f, ?_, ?_, ?_, ?_⟩
  · rw [eventMasterDestroy_eq rep]
    exact run
  · rw [freed, List.nodup_reverse]
    exact (List.nodup_append.mp nodup).1
  · intro n
    rw [freed, List.mem_reverse, mem_givenBack rep, rep.nodes_eq, rep.listed]
    apply and_congr_right
    intro here
    simp [here, ListName.type]
  · rw [frees.eventsAlloc, rep.nodes_eq, ← count, List.length_append]
    push_cast
    ring

/-- Of two nodes reported in one turn the second is ready when the master is destroyed. -/
theorem destroy_leaves_ready_sample : ∃ r f, replayRuns
      [.epollAdd 1 0 1 5, .epollAdd 1 0 1 6,
        .wait (.reported [⟨1, 2⟩, ⟨1, 3⟩] (some ⟨9, 0⟩) true)] 4 1 = some r ∧
    eventMasterDestroy r.engine = .ok f ∧ f.freed.Nodup ∧ 3 ∉ f.freed ∧ f.eventsAlloc = 1 := by
  have finishes : ((replayRuns
      [.epollAdd 1 0 1 5, .epollAdd 1 0 1 6,
        .wait (.reported [⟨1, 2⟩, ⟨1, 3⟩] (some ⟨9, 0⟩) true)] 4 1).map fun r =>
      decide (r.engine.nodes .ready = [3])) = some true := by
    decide +kernel
  obtain ⟨r, replayed, facts⟩ := Option.map_eq_some_iff.mp finishes
  have ready := of_decide_eq_true facts
  have guards : ∀ (r : Run) (op : Op), decide (r.Admits op) = true → runs.guard r op :=
    fun r op admitted => (decide_eq_true_iff (p := r.Admits op)).mp admitted
  obtain ⟨f, run, nodup, freed, left⟩ :=
    destroy_leaves_ready (.replay guards (.start ⟨4, 1, rfl⟩) replayed)
  refine ⟨r, f, replayed, run, nodup, ?_, ?_⟩
  · rw [freed, ready]
    simp
  · rw [left, ready]
    rfl

end Poplar.EventCtl
