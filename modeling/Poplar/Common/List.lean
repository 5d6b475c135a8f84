import Poplar.Fault
import Poplar.Lib.Chain

/-!
# The linked list of common/list.c

Data are pointers. A node in use has one, as `listnode_add` asserts; a cell without is
not allocated, and reading it is a fault.
-/
namespace Poplar

open Chain (next prev setNext setPrev)

structure ListNode (α : Type) where
  next : Option Nat
  prev : Option Nat
  data : Option α
  deriving DecidableEq, Repr

def ListNode.free {α : Type} : ListNode α := ⟨none, none, none⟩

instance {α : Type} : Chain.Linked (ListNode α) where
  next := ListNode.next
  prev := ListNode.prev
  setNext node o := { node with next := o }
  setPrev node o := { node with prev := o }
  next_setNext _ _ := rfl
  prev_setNext _ _ := rfl
  next_setPrev _ _ := rfl
  prev_setPrev _ _ := rfl

theorem blindData {α : Type} : Chain.Blind (@ListNode.data α) :=
  ⟨fun _ _ => rfl, fun _ _ => rfl⟩

/-- A list and the nodes it allocated; no allocation answered an address from `brk` on. The
source's `count` is an `unsigned int`: the number here is its value while fewer than 2^32 nodes
are in the list. -/
structure LinkedList (α : Type) where
  nodes : Chain.Heap (ListNode α)
  brk : Nat
  head : Option Nat
  tail : Option Nat
  count : Nat

variable {α σ : Type}

def listNew (α : Type) : LinkedList α :=
  { nodes := fun _ => .free, brk := 0, head := none, tail := none, count := 0 }

/-- `listgetdata` of a node -/
def listGetData (nodes : Chain.Heap (ListNode α)) (node : Nat) : Except Fault α :=
  match (nodes node).data with
  | some data => .ok data
  | none => .error .useAfterFree

/-- `listnode_add` -/
def listnodeAdd (list : LinkedList α) (val : α) : Except Fault (LinkedList α) :=
  let node := list.brk
  let nodes := Function.update list.nodes node ⟨none, list.tail, some val⟩
  match list.head, list.tail with
  | none, _ => .ok
    { nodes, brk := list.brk + 1, head := some node, tail := some node, count := list.count + 1 }
  | some head, some tail => .ok
    { nodes := setNext nodes tail (some node), brk := list.brk + 1, head := some head,
      tail := some node, count := list.count + 1 }
  | some _, none => .error .outOfObject

/-- The loop of `listnode_delete` up to the node that holds `val`. -/
def listnodeSearch [DecidableEq α] (nodes : Chain.Heap (ListNode α)) (val : α) :
    Nat → Option Nat → Except Fault (Option Nat)
  | _, none => .ok none
  | 0, some _ => .error .diverge
  | fuel + 1, some node => do
    let data ← listGetData nodes node
    if data = val then return some node
    else listnodeSearch nodes val fuel (next nodes node)

/-- What `listnode_delete` does with the node it found. -/
def listDeleteNode (list : LinkedList α) (node : Nat) : LinkedList α :=
  let (nodes, head) := match prev list.nodes node with
    | some p => (setNext list.nodes p (next list.nodes node), list.head)
    | none => (list.nodes, next list.nodes node)
  let (nodes, tail) := match next nodes node with
    | some n => (setPrev nodes n (prev nodes node), list.tail)
    | none => (nodes, prev nodes node)
  { list with
    nodes := Function.update nodes node .free, head := head, tail := tail, count := list.count - 1 }

/-- `listnode_delete` -/
def listnodeDelete [DecidableEq α] (list : LinkedList α) (val : α) :
    Except Fault (LinkedList α) := do
  match ← listnodeSearch list.nodes val list.brk list.head with
  | none => return list
  | some node => return listDeleteNode list node

/-- The loop of `list_delete_all_node`, and the data `del` is called on. -/
def listDeleteAllFrom : Nat → Option Nat → Chain.Heap (ListNode α) →
    Except Fault (List α × Chain.Heap (ListNode α))
  | _, none, nodes => .ok ([], nodes)
  | 0, some _, _ => .error .diverge
  | fuel + 1, some node, nodes => do
    let data ← listGetData nodes node
    let (datas, nodes') ←
      listDeleteAllFrom fuel (next nodes node) (Function.update nodes node .free)
    return (data :: datas, nodes')

/-- `list_delete_all_node` -/
def listDeleteAllNode (list : LinkedList α) : Except Fault (List α × LinkedList α) := do
  let (datas, nodes) ← listDeleteAllFrom list.brk list.head list.nodes
  return (datas, { list with nodes := nodes, head := none, tail := none, count := 0 })

/-- `for(ALL_LIST_ELEMENTS(list, node, nextnode, data))` over the list that `list` names in
the state. A body that answers `none` breaks. -/
def allListElements (list : σ → LinkedList α) (body : α → σ → Except Fault (Option σ)) :
    Nat → Option Nat → σ → Except Fault σ
  | _, none, s => .ok s
  | 0, some _, _ => .error .diverge
  | fuel + 1, some node, s => do
    let data ← listGetData (list s).nodes node
    let nextnode := next (list s).nodes node
    match ← body data s with
    | none => return s
    | some s => allListElements list body fuel nextnode s

/-- What an iteration over the list meets. -/
def LinkedList.datas (list : LinkedList α) : List α :=
  (Chain.walk list.nodes list.brk list.head).filterMap fun node => (list.nodes node).data

/-- `list` is the chain of exactly these nodes, each with its datum. -/
structure LinkedList.Holds (list : LinkedList α) (cells : List (Nat × α)) : Prop where
  chain : Chain.Holds list.nodes list.head list.tail (cells.map Prod.fst)
  data : ∀ cell ∈ cells, (list.nodes cell.1).data = some cell.2
  below : ∀ cell ∈ cells, cell.1 < list.brk
  counted : list.count = cells.length

theorem listNew_holds : (listNew α).Holds [] :=
  ⟨Chain.holds_nil _, by simp, by simp, rfl⟩

variable {list : LinkedList α} {cells xs ys : List (Nat × α)} {p : Nat} {val : α}

theorem LinkedList.Holds.enough (holds : list.Holds cells) : cells.length ≤ list.brk := by
  have within : cells.map Prod.fst ⊆ List.range list.brk := by
    intro q member
    obtain ⟨cell, inCells, rfl⟩ := List.mem_map.mp member
    exact List.mem_range.mpr (holds.below cell inCells)
  simpa using (List.subperm_of_subset holds.chain.nodup within).length_le

theorem LinkedList.Holds.datas (holds : list.Holds cells) : list.datas = cells.map Prod.snd := by
  have walked : Chain.walk list.nodes list.brk list.head = cells.map Prod.fst :=
    holds.chain.walk (by simpa using holds.enough)
  rw [LinkedList.datas, walked, List.filterMap_map, ← List.filterMap_eq_map]
  exact List.filterMap_congr holds.data

theorem LinkedList.Holds.getData (holds : list.Holds (xs ++ (p, val) :: ys)) :
    listGetData list.nodes p = .ok val := by
  simp [listGetData, holds.data (p, val) (by simp)]

theorem LinkedList.Holds.next (holds : list.Holds (xs ++ (p, val) :: ys)) :
    Chain.next list.nodes p = ys.head?.map Prod.fst := by
  have chain := holds.chain
  rw [List.map_append, List.map_cons] at chain
  simpa using chain.middle.2

theorem LinkedList.Holds.head_cell (holds : list.Holds cells) :
    list.head = cells.head?.map Prod.fst := by
  rw [holds.chain.head, List.head?_map]

theorem LinkedList.Holds.tail_cell (holds : list.Holds cells) :
    list.tail = cells.getLast?.map Prod.fst := by
  rw [holds.chain.tail, List.getLast?_map]

theorem LinkedList.Holds.fresh (holds : list.Holds cells) : list.brk ∉ cells.map Prod.fst := by
  intro member
  obtain ⟨cell, inCells, same⟩ := List.mem_map.mp member
  exact absurd (holds.below cell inCells) (same ▸ Nat.lt_irrefl _)

/-- The node is made with the links that `Chain.append` writes. -/
theorem append_made (nodes : Chain.Heap (ListNode α)) (tail : Option Nat) (p : Nat) (val : α) :
    let made := Function.update nodes p (⟨none, tail, some val⟩ : ListNode α)
    setPrev (setNext made p none) p tail = made := by
  funext q
  by_cases same : q = p
  · subst same; simp [setPrev, setNext, Chain.Linked.setNext, Chain.Linked.setPrev]
  · simp [setPrev, setNext, same]

theorem listnodeAdd_holds (holds : list.Holds cells) (val : α) :
    ∃ list', listnodeAdd list val = .ok list' ∧ list'.Holds (cells ++ [(list.brk, val)]) := by
  set made := Function.update list.nodes list.brk (⟨none, list.tail, some val⟩ : ListNode α)
    with hmade
  have kept : ∀ cell ∈ cells, made cell.1 = list.nodes cell.1 := by
    intro cell member
    have different : cell.1 ≠ list.brk := Nat.ne_of_lt (holds.below cell member)
    rw [hmade, Function.update_of_ne different]
  have chain : Chain.Holds made list.head list.tail (cells.map Prod.fst) := by
    apply holds.chain.congr
    intro p member
    obtain ⟨cell, inCells, rfl⟩ := List.mem_map.mp member
    simp only [Chain.next, Chain.prev, kept cell inCells, and_self]
  have grown := chain.append holds.fresh
  have data : ∀ cell ∈ cells ++ [(list.brk, val)],
      (Chain.append made list.tail list.brk cell.1).data = some cell.2 := by
    intro cell member
    rw [blindData.append]
    rcases List.mem_append.mp member with old | new
    · rw [kept cell old, holds.data cell old]
    · rw [List.mem_singleton.mp new, hmade, Function.update_self]
  have below : ∀ cell ∈ cells ++ [(list.brk, val)], cell.1 < list.brk + 1 := by
    intro cell member
    rcases List.mem_append.mp member with old | new
    · exact Nat.lt_succ_of_lt (holds.below cell old)
    · rw [List.mem_singleton.mp new]; exact Nat.lt_succ_self _
  have counted : list.count + 1 = (cells ++ [(list.brk, val)]).length := by
    simp [holds.counted]
  unfold Chain.append at grown data
  rw [append_made] at grown data
  cases headIs : list.head with
  | none =>
      have empty : cells = [] := by simpa [headIs] using holds.chain.head.symm
      have tailIs : list.tail = none := by simp [holds.tail_cell, empty]
      simp only [tailIs, headIs] at grown data
      simp only [listnodeAdd, headIs, tailIs]
      exact ⟨_, rfl, by simpa using grown, data, below, counted⟩
  | some head =>
      cases tailIs : list.tail with
      | none =>
          have empty : cells = [] := by simpa [tailIs] using holds.tail_cell.symm
          simp [empty, headIs] at chain
          cases chain.head
      | some tail =>
          simp only [tailIs, headIs] at grown data
          simp only [listnodeAdd, headIs, tailIs]
          exact ⟨_, rfl, by simpa using grown, data, below, counted⟩

theorem listnodeSearch_finds [DecidableEq α] {nodes : Chain.Heap (ListNode α)}
    {before : Option Nat} (seg : Chain.Seg nodes before none ((xs ++ (p, val) :: ys).map Prod.fst))
    (data : ∀ cell ∈ xs ++ (p, val) :: ys, (nodes cell.1).data = some cell.2)
    (first : ∀ cell ∈ xs, cell.2 ≠ val) {fuel : Nat}
    (enough : (xs ++ (p, val) :: ys).length ≤ fuel) :
    listnodeSearch nodes val fuel ((xs ++ (p, val) :: ys).head?.map Prod.fst) = .ok (some p) := by
  induction xs generalizing before fuel with
  | nil =>
      cases fuel with
      | zero => simp at enough
      | succ fuel => simp [listnodeSearch, listGetData, data (p, val) (by simp), pure_ok]
  | cons cell xs ih =>
      cases fuel with
      | zero => simp at enough
      | succ fuel =>
          obtain ⟨_, link, rest⟩ := seg
          have here := data cell (by simp)
          have different : cell.2 ≠ val := first cell (by simp)
          have later := ih rest (fun c member => data c (List.mem_cons_of_mem cell member))
            (fun c member => first c (List.mem_cons_of_mem cell member))
            (Nat.le_of_succ_le_succ enough)
          simp only [Option.or_none, List.head?_map] at link
          simp only [List.cons_append, List.head?_cons, Option.map_some, listnodeSearch,
            listGetData, here, ok_bind, if_neg different, link]
          exact later

/-- Away from the node taken out the links are those `Chain.unlink` leaves. -/
theorem listDeleteNode_links (list : LinkedList α) {p q : Nat} (different : q ≠ p)
    (apart : next list.nodes p ≠ some p) :
    next (listDeleteNode list p).nodes q = next (Chain.unlink list.nodes p) q ∧
      prev (listDeleteNode list p).nodes q = prev (Chain.unlink list.nodes p) q := by
  have away : ∀ h : Chain.Heap (ListNode α), next (Function.update h p .free) q = next h q ∧
      prev (Function.update h p .free) q = prev h q := by
    intro h
    simp [Chain.next, Chain.prev, different]
  rw [Chain.unlink_next, Chain.unlink_prev _ _ _ apart, if_neg different, if_neg different]
  unfold listDeleteNode
  cases hprev : prev list.nodes p <;> cases hnext : next list.nodes p <;>
    simp [away, hprev, hnext, eq_comm]

theorem listDeleteNode_data (list : LinkedList α) {p q : Nat} (different : q ≠ p) :
    ((listDeleteNode list p).nodes q).data = (list.nodes q).data := by
  unfold listDeleteNode
  cases hprev : prev list.nodes p <;> cases hnext : next list.nodes p <;>
    simp [hprev, hnext, different, blindData.setNext, blindData.setPrev]

theorem listDeleteNode_ends (list : LinkedList α) (p : Nat) :
    (listDeleteNode list p).head =
        (if prev list.nodes p = none then next list.nodes p else list.head) ∧
      (listDeleteNode list p).tail =
        (if next list.nodes p = none then prev list.nodes p else list.tail) := by
  unfold listDeleteNode
  cases hprev : prev list.nodes p <;> cases hnext : next list.nodes p <;> simp [hprev, hnext]

theorem listDeleteNode_holds (holds : list.Holds (xs ++ (p, val) :: ys)) :
    (listDeleteNode list p).Holds (xs ++ ys) := by
  have chain := holds.chain
  rw [List.map_append, List.map_cons] at chain
  have unlinked := chain.unlink
  obtain ⟨notXs, notYs, _⟩ := chain.apart
  have apart : next list.nodes p ≠ some p := by
    rw [chain.middle.2]
    exact fun same => notYs (List.mem_of_mem_head? same)
  have other : ∀ q ∈ (xs ++ ys).map Prod.fst, q ≠ p := by
    intro q member same
    rw [List.map_append, same] at member
    rcases List.mem_append.mp member with inXs | inYs
    · exact notXs inXs
    · exact notYs inYs
  have within : ∀ cell ∈ xs ++ ys, cell ∈ xs ++ (p, val) :: ys := by
    intro cell member
    rcases List.mem_append.mp member with inXs | inYs
    · exact List.mem_append_left _ inXs
    · exact List.mem_append_right _ (List.mem_cons_of_mem _ inYs)
  refine ⟨?_, ?_, fun cell member => ?_, ?_⟩
  · rw [(listDeleteNode_ends list p).1, (listDeleteNode_ends list p).2, List.map_append]
    apply unlinked.congr
    intro q member
    exact listDeleteNode_links list (other q (by rwa [List.map_append])) apart
  · intro cell member
    rw [listDeleteNode_data list (other cell.1 (List.mem_map_of_mem member))]
    exact holds.data cell (within cell member)
  · exact holds.below cell (within cell member)
  · change list.count - 1 = _
    rw [holds.counted]
    simp

theorem listnodeDelete_holds [DecidableEq α] (holds : list.Holds (xs ++ (p, val) :: ys))
    (first : ∀ cell ∈ xs, cell.2 ≠ val) :
    ∃ list', listnodeDelete list val = .ok list' ∧ list'.Holds (xs ++ ys) := by
  have found := listnodeSearch_finds holds.chain.seg holds.data first holds.enough
  refine ⟨listDeleteNode list p, ?_, listDeleteNode_holds holds⟩
  simp only [listnodeDelete, holds.head_cell, found, ok_bind, pure_ok]

theorem listDeleteAllFrom_holds {nodes : Chain.Heap (ListNode α)} {before : Option Nat}
    (seg : Chain.Seg nodes before none (cells.map Prod.fst))
    (data : ∀ cell ∈ cells, (nodes cell.1).data = some cell.2)
    (nodup : (cells.map Prod.fst).Nodup) {fuel : Nat} (enough : cells.length ≤ fuel) :
    ∃ nodes', listDeleteAllFrom fuel (cells.head?.map Prod.fst) nodes =
      .ok (cells.map Prod.snd, nodes') := by
  induction cells generalizing nodes before fuel with
  | nil => exact ⟨nodes, by cases fuel <;> rfl⟩
  | cons cell cells ih =>
      cases fuel with
      | zero => simp at enough
      | succ fuel =>
          obtain ⟨_, link, rest⟩ := seg
          obtain ⟨fresh, nodupRest⟩ := List.nodup_cons.mp nodup
          have other : ∀ c ∈ cells, c.1 ≠ cell.1 := by
            intro c member same
            exact fresh (same ▸ List.mem_map_of_mem member)
          have freed : ∀ c ∈ cells, Function.update nodes cell.1 .free c.1 = nodes c.1 :=
            fun c member => Function.update_of_ne (other c member) _ _
          have later : Chain.Seg (Function.update nodes cell.1 .free) (some cell.1) none
              (cells.map Prod.fst) := by
            apply rest.congr
            intro q member
            obtain ⟨c, inCells, rfl⟩ := List.mem_map.mp member
            simp only [Chain.next, Chain.prev, freed c inCells, and_self]
          obtain ⟨nodes', ran⟩ := ih later
            (fun c member => (congrArg ListNode.data (freed c member)).trans
              (data c (List.mem_cons_of_mem cell member))) nodupRest
            (Nat.le_of_succ_le_succ enough)
          refine ⟨nodes', ?_⟩
          simp only [Option.or_none, List.head?_map] at link
          simp only [List.head?_cons, Option.map_some, listDeleteAllFrom, listGetData,
            data cell (by simp), ok_bind, link, ran, pure_ok, List.map_cons]

theorem listDeleteAllNode_holds (holds : list.Holds cells) :
    ∃ list', listDeleteAllNode list = .ok (cells.map Prod.snd, list') ∧ list'.Holds [] := by
  obtain ⟨nodes, ran⟩ := listDeleteAllFrom_holds holds.chain.seg holds.data holds.chain.nodup
    holds.enough
  refine ⟨{ list with nodes := nodes, head := none, tail := none, count := 0 }, ?_, ?_⟩
  · simp only [listDeleteAllNode, holds.head_cell, ran, ok_bind, pure_ok]
  · exact ⟨Chain.holds_nil _, by simp, by simp, rfl⟩

/-- An iteration whose body works on the nodes passed and the node at hand only: `Inv` keeps
the nodes already passed and those still to come. -/
theorem allListElements_rule (of : σ → LinkedList α) (Post : σ → Prop)
    {body : α → σ → Except Fault (Option σ)} {Inv : List (Nat × α) → List (Nat × α) → σ → Prop}
    (holds : ∀ done todo s, Inv done todo s → (of s).Holds (done ++ todo))
    (step : ∀ done cell todo s, Inv done (cell :: todo) s →
      (body cell.2 s = .ok none ∧ Post s) ∨
        ∃ s' done', body cell.2 s = .ok (some s') ∧ Inv done' todo s')
    (finish : ∀ done s, Inv done [] s → Post s)
    {done todo : List (Nat × α)} {s : σ} (inv : Inv done todo s) {fuel : Nat}
    (enough : todo.length ≤ fuel) :
    ∃ s', allListElements of body fuel (todo.head?.map Prod.fst) s = .ok s' ∧ Post s' := by
  induction todo generalizing done s fuel with
  | nil => exact ⟨s, by cases fuel <;> rfl, finish done s inv⟩
  | cons cell todo ih =>
      cases fuel with
      | zero => simp at enough
      | succ fuel =>
          have link := (holds _ _ _ inv).next
          have data := (holds _ _ _ inv).getData
          simp only [List.head?_cons, Option.map_some, allListElements, data, ok_bind, link]
          rcases step _ _ _ _ inv with ⟨stops, post⟩ | ⟨s', done', goes, inv'⟩
          · exact ⟨s, by simp only [stops, ok_bind, pure_ok], post⟩
          · obtain ⟨final, ran, post⟩ := ih inv' (Nat.le_of_succ_le_succ enough)
            exact ⟨final, by simp only [goes, ok_bind, ran], post⟩

end Poplar
