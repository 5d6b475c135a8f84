import Poplar.Common.List

/-!
# Lists as sequences: common/list.c

The operations that put a node elsewhere than at the end, and what any row of operations makes
of a list: the pointers stand for the sequence that the operations describe.
-/
namespace Poplar

open Chain (next prev setNext setPrev)

variable {α : Type}

/-- `listnode_add_head` -/
def listnodeAddHead (list : LinkedList α) (val : α) : Except Fault (LinkedList α) :=
  let node := list.brk
  let nodes := Function.update list.nodes node ⟨list.head, none, some val⟩
  match list.tail, list.head with
  | none, _ => .ok
    { nodes, brk := list.brk + 1, head := some node, tail := some node, count := list.count + 1 }
  | some tail, some head => .ok
    { nodes := setPrev nodes head (some node), brk := list.brk + 1, head := some node,
      tail := some tail, count := list.count + 1 }
  | some _, none => .error .outOfObject

/-- The loop of `listnode_add_sort` up to the first node that `val` is less than. -/
def sortPlace (nodes : Chain.Heap (ListNode α)) (cmp : α → α → Int) (val : α) :
    Nat → Option Nat → Except Fault (Option Nat)
  | _, none => .ok none
  | 0, some _ => .error .diverge
  | fuel + 1, some n => do
    let data ← listGetData nodes n
    if cmp val data < 0 then return some n
    else sortPlace nodes cmp val fuel (next nodes n)

/-- What `listnode_add_sort` does with its new node: before `n`, or at the end. -/
def linkSorted (list : LinkedList α) (nodes : Chain.Heap (ListNode α)) (new : Nat) :
    Option Nat → LinkedList α
  | some n =>
    let nodes := setNext nodes new (some n)
    let nodes := setPrev nodes new (prev nodes n)
    let (nodes, head) := match prev nodes n with
      | some p => (setNext nodes p (some new), list.head)
      | none => (nodes, some new)
    { nodes := setPrev nodes n (some new), brk := list.brk + 1, head := head, tail := list.tail
      count := list.count + 1 }
  | none =>
    let nodes := setPrev nodes new list.tail
    let (nodes, head) := match list.tail with
      | some tail => (setNext nodes tail (some new), list.head)
      | none => (nodes, some new)
    { nodes := nodes, brk := list.brk + 1, head := head, tail := some new, count := list.count + 1 }

/-- `listnode_add_sort` on a list with this `cmp` -/
def listnodeAddSort (cmp : Option (α → α → Int)) (list : LinkedList α) (val : α) :
    Except Fault (LinkedList α) := do
  let new := list.brk
  let nodes := Function.update list.nodes new ⟨none, none, some val⟩
  match cmp with
  | none => return linkSorted list nodes new none
  | some cmp => return linkSorted list nodes new (← sortPlace nodes cmp val list.brk list.head)

/-- `listnode_add_after` -/
def listnodeAddAfter (list : LinkedList α) (pp : Option Nat) (val : α) : LinkedList α :=
  let nn := list.brk
  let nodes := Function.update list.nodes nn ⟨none, none, some val⟩
  match pp with
  | none =>
    let (nodes, tail) := match list.head with
      | some head => (setPrev nodes head (some nn), list.tail)
      | none => (nodes, some nn)
    let nodes := setPrev (setNext nodes nn list.head) nn none
    { nodes := nodes, brk := list.brk + 1, head := some nn, tail := tail, count := list.count + 1 }
  | some pp =>
    let (nodes, tail) := match next nodes pp with
      | some n => (setPrev nodes n (some nn), list.tail)
      | none => (nodes, some nn)
    let nodes := setPrev (setNext nodes nn (next nodes pp)) nn (some pp)
    { nodes := setNext nodes pp (some nn), brk := list.brk + 1, head := list.head, tail := tail
      count := list.count + 1 }

/-- The loop of `list_add_list` from a node of the list `m` on. -/
def addListFrom (m : LinkedList α) : Nat → Option Nat → LinkedList α → Except Fault (LinkedList α)
  | _, none, l => .ok l
  | 0, some _, _ => .error .diverge
  | fuel + 1, some n, l => do
    let data ← listGetData m.nodes n
    let l ← listnodeAdd l data
    addListFrom m fuel (next m.nodes n) l

/-- `list_add_list` -/
def listAddList (l m : LinkedList α) : Except Fault (LinkedList α) :=
  addListFrom m m.brk m.head l

/-! ## A node linked in -/

section Linking

variable {list : LinkedList α} {cells xs ys : List (Nat × α)} {p q : Nat} {val w : α}
variable {nodes made : Chain.Heap (ListNode α)} {head tail : Option Nat}

/-- The heap with the new node, whatever its links. -/
structure Made (list : LinkedList α) (val : α) (made : Chain.Heap (ListNode α)) : Prop where
  kept : ∀ p, p ≠ list.brk → made p = list.nodes p
  data : (made list.brk).data = some val

theorem made_update (list : LinkedList α) (val : α) (before after : Option Nat) :
    Made list val (Function.update list.nodes list.brk ⟨before, after, some val⟩) := by
  constructor
  · intro p other
    exact Function.update_of_ne other _ _
  · rw [Function.update_self]

theorem Made.chain (is : Made list val made) (holds : list.Holds cells) :
    Chain.Holds made list.head list.tail (cells.map Prod.fst) := by
  apply holds.chain.congr
  intro p member
  obtain ⟨cell, inCells, rfl⟩ := List.mem_map.mp member
  have other : cell.1 ≠ list.brk := Nat.ne_of_lt (holds.below cell inCells)
  simp only [Chain.next, Chain.prev, is.kept cell.1 other, and_self]

/-- A list whose links are those of a chain that the new node belongs to. -/
theorem Made.holds (is : Made list val made) (xs ys : List (Nat × α))
    (holds : list.Holds (xs ++ ys))
    (chain : Chain.Holds nodes head tail ((xs ++ (list.brk, val) :: ys).map Prod.fst))
    (data : ∀ r, (nodes r).data = (made r).data) :
    LinkedList.Holds { nodes, brk := list.brk + 1, head, tail, count := list.count + 1 }
      (xs ++ (list.brk, val) :: ys) := by
  have cases_ : ∀ cell ∈ xs ++ (list.brk, val) :: ys,
      cell ∈ xs ++ ys ∨ cell = (list.brk, val) := by
    intro cell member
    rw [List.mem_append, List.mem_cons] at member
    rw [List.mem_append]
    tauto
  constructor
  · exact chain
  · intro cell member
    rw [data]
    rcases cases_ cell member with old | new
    · rw [is.kept cell.1 (Nat.ne_of_lt (holds.below cell old)), holds.data cell old]
    · rw [new, is.data]
  · intro cell member
    rcases cases_ cell member with old | new
    · exact Nat.lt_succ_of_lt (holds.below cell old)
    · rw [new]
      exact Nat.lt_succ_self _
  · have counted := holds.counted
    rw [List.length_append] at counted
    rw [List.length_append, List.length_cons]
    dsimp only
    omega

/-- A list whose links are those of an append. -/
theorem Made.append (is : Made list val made) (nodes : Chain.Heap (ListNode α))
    (holds : list.Holds cells)
    (links : ∀ r, next nodes r = next (Chain.append made list.tail list.brk) r ∧
      prev nodes r = prev (Chain.append made list.tail list.brk) r)
    (data : ∀ r, (nodes r).data = (made r).data) :
    LinkedList.Holds
      { nodes, brk := list.brk + 1, head := list.head.or (some list.brk), tail := some list.brk
        count := list.count + 1 } (cells ++ [(list.brk, val)]) := by
  have grown := ((is.chain holds).append holds.fresh).congr fun r _ => links r
  apply is.holds cells [] (by rw [List.append_nil]; exact holds) _ data
  rw [List.map_append]
  exact grown

/-- A list whose links are those of an insertion. -/
theorem Made.insert (is : Made list val made) (nodes : Chain.Heap (ListNode α))
    (xs : List (Nat × α)) (holds : list.Holds (xs ++ (q, w) :: ys))
    (links : ∀ r, next nodes r = next (Chain.insertBefore made q list.brk) r ∧
      prev nodes r = prev (Chain.insertBefore made q list.brk) r)
    (data : ∀ r, (nodes r).data = (made r).data) :
    LinkedList.Holds
      { nodes, brk := list.brk + 1
        head := if prev list.nodes q = none then some list.brk else list.head
        tail := list.tail, count := list.count + 1 } (xs ++ (list.brk, val) :: (q, w) :: ys) := by
  have chain := is.chain holds
  have fresh := holds.fresh
  rw [List.map_append, List.map_cons] at chain fresh
  have grown := (chain.insertBefore fresh).congr fun r _ => links r
  have other : q ≠ list.brk := Nat.ne_of_lt (holds.below (q, w) (by simp))
  have same : prev made q = prev list.nodes q := by
    rw [Chain.prev, Chain.prev, is.kept q other]
  rw [same] at grown
  apply is.holds xs ((q, w) :: ys) holds _ data
  rw [List.map_append, List.map_cons, List.map_cons]
  exact grown

theorem LinkedList.Holds.prev (holds : list.Holds (xs ++ (p, val) :: ys)) :
    Chain.prev list.nodes p = xs.getLast?.map Prod.fst := by
  have chain := holds.chain
  rw [List.map_append, List.map_cons] at chain
  rw [chain.middle.1, List.getLast?_map]

theorem LinkedList.Holds.ends_none (holds : list.Holds []) : list.head = none ∧ list.tail = none :=
  ⟨holds.head_cell, holds.tail_cell⟩

theorem LinkedList.Holds.tail_some (holds : list.Holds (xs ++ (p, val) :: ys)) :
    ∃ t, list.tail = some t := by
  have tail := holds.tail_cell
  rw [List.getLast?_append, List.getLast?_cons] at tail
  exact ⟨_, tail⟩

theorem LinkedList.Holds.first (holds : list.Holds ((p, val) :: ys)) :
    list.head = some p ∧ Chain.prev list.nodes p = none ∧ ∃ t, list.tail = some t := by
  have split : list.Holds ([] ++ (p, val) :: ys) := holds
  exact ⟨holds.head_cell, split.prev, split.tail_some⟩

/-- The node is prepended. -/
theorem listnodeAddHead_holds (holds : list.Holds cells) (val : α) :
    ∃ list', listnodeAddHead list val = .ok list' ∧ list'.brk = list.brk + 1 ∧
      list'.Holds ((list.brk, val) :: cells) := by
  have is := made_update list val list.head none
  cases cells with
  | nil =>
      obtain ⟨headIs, tailIs⟩ := holds.ends_none
      have grown := is.append (Function.update list.nodes list.brk
        ⟨list.head, none, some val⟩) holds (by
          intro r
          rw [Chain.append_next _ _ _ _ (by rw [tailIs]; simp), Chain.append_prev, tailIs]
          by_cases same : r = list.brk
          · subst same
            simp [Chain.next, Chain.prev, Chain.Linked.next, Chain.Linked.prev, headIs]
          · simp [same]) fun r => rfl
      rw [listnodeAddHead, tailIs]
      refine ⟨_, rfl, rfl, ?_⟩
      rw [headIs] at grown ⊢
      exact grown
  | cons cell ys =>
      obtain ⟨q, w⟩ := cell
      obtain ⟨headIs, first, t, tailIs⟩ := holds.first
      have other : q ≠ list.brk := Nat.ne_of_lt (holds.below (q, w) (by simp))
      have alone : Chain.prev (Function.update list.nodes list.brk ⟨list.head, none, some val⟩) q =
          none := by
        rw [Chain.prev, Function.update_of_ne other]
        exact first
      have grown := is.insert (setPrev (Function.update list.nodes list.brk
        ⟨list.head, none, some val⟩) q (some list.brk)) [] holds (by
          intro r
          rw [Chain.insertBefore_next _ _ _ _ (by rw [alone]; simp) other.symm,
            Chain.insertBefore_prev, alone, Chain.next_setPrev, Chain.prev_setPrev]
          by_cases same : r = list.brk
          · subst same
            simp [Chain.next, Chain.prev, Chain.Linked.next, Chain.Linked.prev, headIs, other.symm]
          · simp [same]) fun r => blindData.setPrev _ _ _ _
      rw [listnodeAddHead, tailIs, headIs]
      refine ⟨_, rfl, rfl, ?_⟩
      rw [if_pos first, tailIs, headIs] at grown
      exact grown

/-! ### Insertion in the order of `cmp` -/

/-- The cells before the first that `val` is less than. -/
def notBefore (cmp : α → α → Int) (val : α) (cells : List (Nat × α)) : List (Nat × α) :=
  cells.takeWhile fun cell => ¬ cmp val cell.2 < 0

def behindPlace (cmp : α → α → Int) (val : α) (cells : List (Nat × α)) : List (Nat × α) :=
  cells.dropWhile fun cell => ¬ cmp val cell.2 < 0

theorem sortPlace_finds (cmp : α → α → Int) {before : Option Nat}
    (seg : Chain.Seg nodes before none (cells.map Prod.fst))
    (data : ∀ cell ∈ cells, (nodes cell.1).data = some cell.2) {fuel : Nat}
    (enough : cells.length ≤ fuel) :
    sortPlace nodes cmp val fuel (cells.head?.map Prod.fst) =
      .ok ((behindPlace cmp val cells).head?.map Prod.fst) := by
  induction cells generalizing before fuel with
  | nil => cases fuel <;> rfl
  | cons cell cells ih =>
      cases fuel with
      | zero => simp at enough
      | succ fuel =>
          obtain ⟨_, link, rest⟩ := seg
          have here := data cell (by simp)
          have later := ih rest (fun c member => data c (List.mem_cons_of_mem cell member))
            (Nat.le_of_succ_le_succ enough)
          simp only [Option.or_none, List.head?_map] at link
          simp only [List.head?_cons, Option.map_some, sortPlace, listGetData, here, ok_bind, link]
          by_cases less : cmp val cell.2 < 0
          · rw [if_pos less, behindPlace, List.dropWhile_cons_of_neg (by simpa using less)]
            rfl
          · rw [if_neg less, later, behindPlace, behindPlace,
              List.dropWhile_cons_of_pos (by simpa using less)]

theorem linkSorted_before (holds : list.Holds (xs ++ (q, w) :: ys)) (val : α) :
    (linkSorted list (Function.update list.nodes list.brk ⟨none, none, some val⟩) list.brk
      (some q)).Holds (xs ++ (list.brk, val) :: (q, w) :: ys) := by
  have is := made_update list val none none
  have other : q ≠ list.brk := Nat.ne_of_lt (holds.below (q, w) (by simp))
  have before : Chain.prev (Function.update list.nodes list.brk ⟨none, none, some val⟩) q =
      Chain.prev list.nodes q := by
    rw [Chain.prev, Chain.prev, Function.update_of_ne other]
  have grown := is.insert _ xs holds (fun r => ⟨rfl, rfl⟩) fun r => blindData.insertBefore _ _ _ _
  unfold linkSorted
  unfold Chain.insertBefore at grown
  simp only [Chain.prev_setPrev, Chain.prev_setNext, if_neg other, before] at grown ⊢
  cases first : Chain.prev list.nodes q with
  | none =>
      rw [first, if_pos rfl] at grown
      exact grown
  | some r =>
      rw [first, if_neg (by simp)] at grown
      exact grown

theorem linkSorted_end (holds : list.Holds cells) (val : α) :
    (linkSorted list (Function.update list.nodes list.brk ⟨none, none, some val⟩) list.brk
      none).Holds (cells ++ [(list.brk, val)]) := by
  have is := made_update list val none none
  have alone : setNext (Function.update list.nodes list.brk ⟨none, none, some val⟩) list.brk none =
      Function.update list.nodes list.brk (⟨none, none, some val⟩ : ListNode α) := by
    rw [setNext, Function.update_self, Function.update_idem]
    rfl
  have grown := is.append _ holds (fun r => ⟨rfl, rfl⟩) fun r => blindData.append _ _ _ _
  unfold linkSorted
  unfold Chain.append at grown
  rw [alone] at grown
  cases cells with
  | nil =>
      obtain ⟨headIs, tailIs⟩ := holds.ends_none
      rw [headIs, tailIs] at grown
      rw [headIs, tailIs]
      exact grown
  | cons cell ys =>
      obtain ⟨q, w⟩ := cell
      obtain ⟨headIs, _, t, tailIs⟩ := holds.first
      rw [headIs, tailIs] at grown
      rw [headIs, tailIs]
      exact grown

/-- The search reads what the list holds: the new node is not linked yet. -/
theorem Made.finds (is : Made list val made) (holds : list.Holds cells) (cmp : α → α → Int) :
    sortPlace made cmp val list.brk list.head =
      .ok ((behindPlace cmp val cells).head?.map Prod.fst) := by
  rw [holds.head_cell]
  apply sortPlace_finds cmp (is.chain holds).seg
  · intro cell member
    rw [is.kept cell.1 (Nat.ne_of_lt (holds.below cell member))]
    exact holds.data cell member
  · exact holds.enough

/-- The node is put before the first one that the value is less than, or at the end. -/
theorem listnodeAddSort_holds (holds : list.Holds cells) (cmp : α → α → Int) (val : α) :
    ∃ list', listnodeAddSort (some cmp) list val = .ok list' ∧ list'.brk = list.brk + 1 ∧
      list'.Holds (notBefore cmp val cells ++ (list.brk, val) :: behindPlace cmp val cells) := by
  have found := (made_update list val none none).finds holds cmp
  have parts : notBefore cmp val cells ++ behindPlace cmp val cells = cells :=
    List.takeWhile_append_dropWhile
  rw [listnodeAddSort, found, ok_bind, pure_ok]
  cases place : behindPlace cmp val cells with
  | nil =>
      rw [place, List.append_nil] at parts
      rw [parts]
      exact ⟨_, rfl, rfl, linkSorted_end holds val⟩
  | cons cell ys =>
      rw [place] at parts
      have split : list.Holds (notBefore cmp val cells ++ (cell.1, cell.2) :: ys) := by
        rw [parts]
        exact holds
      exact ⟨_, rfl, rfl, linkSorted_before split val⟩

theorem listnodeAddSort_none (holds : list.Holds cells) (val : α) :
    ∃ list', listnodeAddSort none list val = .ok list' ∧ list'.brk = list.brk + 1 ∧
      list'.Holds (cells ++ [(list.brk, val)]) :=
  ⟨_, rfl, rfl, linkSorted_end holds val⟩

/-! ### Insertion behind a node -/

theorem listnodeAddAfter_head (holds : list.Holds cells) (val : α) :
    (listnodeAddAfter list none val).Holds ((list.brk, val) :: cells) := by
  have is := made_update list val none none
  cases cells with
  | nil =>
      obtain ⟨headIs, tailIs⟩ := holds.ends_none
      have grown := is.append (setPrev (setNext (Function.update list.nodes list.brk
        ⟨none, none, some val⟩) list.brk list.head) list.brk none) holds (by
          intro r
          rw [Chain.append_next _ _ _ _ (by rw [tailIs]; simp), Chain.append_prev, tailIs, headIs,
            Chain.next_setPrev, Chain.next_setNext, Chain.prev_setPrev, Chain.prev_setNext]
          simp) fun r => (blindData.setPrev _ _ _ _).trans (blindData.setNext _ _ _ _)
      unfold listnodeAddAfter
      rw [headIs] at grown ⊢
      exact grown
  | cons cell ys =>
      obtain ⟨q, w⟩ := cell
      obtain ⟨headIs, first, _⟩ := holds.first
      have other : q ≠ list.brk := Nat.ne_of_lt (holds.below (q, w) (by simp))
      have alone : Chain.prev (Function.update list.nodes list.brk ⟨none, none, some val⟩) q =
          none := by
        rw [Chain.prev, Function.update_of_ne other]
        exact first
      have grown := is.insert (setPrev (setNext (setPrev (Function.update
        list.nodes list.brk ⟨none, none, some val⟩) q (some list.brk)) list.brk (some q)) list.brk
          none) [] holds (by
          intro r
          rw [Chain.insertBefore_next _ _ _ _ (by rw [alone]; simp) other.symm,
            Chain.insertBefore_prev, alone, Chain.next_setPrev, Chain.next_setNext,
            Chain.next_setPrev, Chain.prev_setPrev, Chain.prev_setNext, Chain.prev_setPrev]
          constructor
          · simp
          · by_cases same : r = list.brk
            · rw [if_pos same, if_neg (same ▸ other.symm), if_pos same]
            · rw [if_neg same, if_neg same])
          fun r => ((blindData.setPrev _ _ _ _).trans (blindData.setNext _ _ _ _)).trans
            (blindData.setPrev _ _ _ _)
      unfold listnodeAddAfter
      rw [if_pos first] at grown
      rw [headIs]
      exact grown

/-- The node is put behind `p`. -/
theorem listnodeAddAfter_holds (holds : list.Holds (xs ++ (p, w) :: ys)) (val : α) :
    (listnodeAddAfter list (some p) val).Holds (xs ++ (p, w) :: (list.brk, val) :: ys) := by
  have is := made_update list val none none
  have other : p ≠ list.brk := Nat.ne_of_lt (holds.below (p, w) (by simp))
  have behind : Chain.next list.nodes p = ys.head?.map Prod.fst := holds.next
  have same : Chain.next (Function.update list.nodes list.brk ⟨none, none, some val⟩) p =
      Chain.next list.nodes p := by
    rw [Chain.next, Chain.next, Function.update_of_ne other]
  cases ys with
  | nil =>
      have tailIs : list.tail = some p := by simpa using holds.tail_cell
      obtain ⟨h, headIs⟩ : ∃ h, list.head = some h := by
        cases xs with
        | nil => exact ⟨p, holds.head_cell⟩
        | cons cell xs => exact ⟨cell.1, holds.head_cell⟩
      have grown := is.append (setNext (setPrev (setNext (Function.update list.nodes
        list.brk ⟨none, none, some val⟩) list.brk none) list.brk (some p)) p (some list.brk)) holds
        (by
          intro r
          rw [Chain.append_next _ _ _ _ (by rw [tailIs]; simpa using other), Chain.append_prev,
            tailIs, Chain.next_setNext, Chain.next_setPrev, Chain.next_setNext, Chain.prev_setNext,
            Chain.prev_setPrev, Chain.prev_setNext]
          constructor
          · by_cases new : r = list.brk
            · rw [if_neg (new ▸ other.symm), if_pos new, if_pos new]
            · simp [new, eq_comm]
          · rfl)
          fun r => ((blindData.setNext _ _ _ _).trans (blindData.setPrev _ _ _ _)).trans
            (blindData.setNext _ _ _ _)
      unfold listnodeAddAfter
      rw [headIs] at grown
      simp only [same, behind, List.head?_nil, Option.map_none, headIs]
      rw [List.append_assoc] at grown
      exact grown
  | cons cell ys =>
      obtain ⟨q, v⟩ := cell
      have split : list.Holds ((xs ++ [(p, w)]) ++ (q, v) :: ys) := by
        rw [List.append_assoc]
        exact holds
      have between : Chain.prev list.nodes q = some p := by
        rw [split.prev]
        simp
      have away : q ≠ list.brk := Nat.ne_of_lt (split.below (q, v) (by simp))
      have link : Chain.prev (Function.update list.nodes list.brk ⟨none, none, some val⟩) q =
          some p := by
        rw [Chain.prev, Function.update_of_ne away]
        exact between
      have grown := is.insert (setNext (setPrev (setNext (setPrev (Function.update
        list.nodes list.brk ⟨none, none, some val⟩) q (some list.brk)) list.brk (some q)) list.brk
          (some p)) p (some list.brk)) (xs ++ [(p, w)]) split (by
          intro r
          rw [Chain.insertBefore_next _ _ _ _ (by rw [link]; simpa using other) away.symm,
            Chain.insertBefore_prev, link, Chain.next_setNext, Chain.next_setPrev,
            Chain.next_setNext, Chain.next_setPrev, Chain.prev_setNext, Chain.prev_setPrev,
            Chain.prev_setNext, Chain.prev_setPrev]
          constructor
          · by_cases new : r = list.brk
            · rw [if_neg (new ▸ other.symm), if_pos new, if_pos new]
            · simp [new, eq_comm]
          · by_cases new : r = list.brk
            · rw [if_pos new, if_neg (new ▸ away.symm), if_pos new]
            · rw [if_neg new, if_neg new])
          fun r => (((blindData.setNext _ _ _ _).trans (blindData.setPrev _ _ _ _)).trans
            (blindData.setNext _ _ _ _)).trans (blindData.setPrev _ _ _ _)
      unfold listnodeAddAfter
      rw [between, if_neg (by simp), List.append_assoc] at grown
      simp only [same, behind, List.head?_cons, Option.map_some, Chain.next_setPrev]
      exact grown

/-! ### Another list behind -/

/-- The nodes that `listnode_add` allocates for these values, one after the other. -/
def placed : Nat → List α → List (Nat × α)
  | _, [] => []
  | fresh, val :: vals => (fresh, val) :: placed (fresh + 1) vals

theorem listnodeAdd_brk {list' : LinkedList α} (ran : listnodeAdd list val = .ok list') :
    list'.brk = list.brk + 1 := by
  unfold listnodeAdd at ran
  cases headIs : list.head <;> cases tailIs : list.tail <;> rw [headIs, tailIs] at ran <;> cases ran
  all_goals rfl

theorem addListFrom_holds {m l : LinkedList α} {todo : List (Nat × α)} {before : Option Nat}
    (seg : Chain.Seg m.nodes before none (todo.map Prod.fst))
    (data : ∀ cell ∈ todo, (m.nodes cell.1).data = some cell.2) {fuel : Nat}
    (enough : todo.length ≤ fuel) (holds : l.Holds cells) :
    ∃ l', addListFrom m fuel (todo.head?.map Prod.fst) l = .ok l' ∧
      l'.brk = l.brk + todo.length ∧ l'.Holds (cells ++ placed l.brk (todo.map Prod.snd)) := by
  induction todo generalizing before fuel l cells with
  | nil =>
      refine ⟨l, ?_, rfl, ?_⟩
      · cases fuel <;> rfl
      · rw [List.map_nil, placed, List.append_nil]
        exact holds
  | cons cell todo ih =>
      cases fuel with
      | zero => simp at enough
      | succ fuel =>
          obtain ⟨_, link, rest⟩ := seg
          have here := data cell (by simp)
          obtain ⟨l₁, added, holds₁⟩ := listnodeAdd_holds holds cell.2
          have brk₁ := listnodeAdd_brk added
          obtain ⟨l', ran, brk', holds'⟩ := ih rest
            (fun c member => data c (List.mem_cons_of_mem cell member))
            (Nat.le_of_succ_le_succ enough) holds₁
          simp only [Option.or_none, List.head?_map] at link
          refine ⟨l', ?_, ?_, ?_⟩
          · simp only [List.head?_cons, Option.map_some, addListFrom, listGetData, here, ok_bind,
              added, link, ran]
          · rw [brk', brk₁, List.length_cons, Nat.add_right_comm, Nat.add_assoc]
          · rw [brk₁, List.append_assoc] at holds'
            exact holds'

theorem listAddList_holds {l m : LinkedList α} {theirs : List (Nat × α)} (holds : l.Holds cells)
    (other : m.Holds theirs) :
    ∃ l', listAddList l m = .ok l' ∧ l'.brk = l.brk + theirs.length ∧
      l'.Holds (cells ++ placed l.brk m.datas) := by
  have added := addListFrom_holds other.chain.seg other.data other.enough holds
  rw [← other.head_cell, ← other.datas] at added
  exact added

/-! ### Values that are not there -/

theorem listnodeSearch_misses [DecidableEq α] {before : Option Nat}
    (seg : Chain.Seg nodes before none (cells.map Prod.fst))
    (data : ∀ cell ∈ cells, (nodes cell.1).data = some cell.2)
    (absent : ∀ cell ∈ cells, cell.2 ≠ val) {fuel : Nat} (enough : cells.length ≤ fuel) :
    listnodeSearch nodes val fuel (cells.head?.map Prod.fst) = .ok none := by
  induction cells generalizing before fuel with
  | nil => cases fuel <;> rfl
  | cons cell cells ih =>
      cases fuel with
      | zero => simp at enough
      | succ fuel =>
          obtain ⟨_, link, rest⟩ := seg
          have here := data cell (by simp)
          have different : cell.2 ≠ val := absent cell (by simp)
          have later := ih rest (fun c member => data c (List.mem_cons_of_mem cell member))
            (fun c member => absent c (List.mem_cons_of_mem cell member))
            (Nat.le_of_succ_le_succ enough)
          simp only [Option.or_none, List.head?_map] at link
          simp only [List.head?_cons, Option.map_some, listnodeSearch, listGetData, here, ok_bind,
            if_neg different, link]
          exact later

theorem listnodeDelete_absent [DecidableEq α] (holds : list.Holds cells)
    (absent : ∀ cell ∈ cells, cell.2 ≠ val) : listnodeDelete list val = .ok list := by
  have missed := listnodeSearch_misses holds.chain.seg holds.data absent holds.enough
  rw [listnodeDelete, holds.head_cell, missed, ok_bind, pure_ok]

end Linking

/-! ## The sequence that a list stands for -/

/-- The values in order, each under the name of its node, and the next name. -/
structure Sequence (α : Type) where
  cells : List (Nat × α)
  fresh : Nat

/-- What a caller does to a list. The nodes it names are pointers it was handed. -/
inductive ListOp (α : Type) where
  | add (val : α)
  | addHead (val : α)
  | addSort (cmp : Option (α → α → Int)) (val : α)
  | addAfter (pp : Option Nat) (val : α)
  | delete (val : α)
  | deleteNode (node : Nat)
  | deleteAll
  | addList (m : LinkedList α)

def ListOp.exec [DecidableEq α] (list : LinkedList α) : ListOp α → Except Fault (LinkedList α)
  | .add val => listnodeAdd list val
  | .addHead val => listnodeAddHead list val
  | .addSort cmp val => listnodeAddSort cmp list val
  | .addAfter pp val => .ok (listnodeAddAfter list pp val)
  | .delete val => listnodeDelete list val
  | .deleteNode node => .ok (listDeleteNode list node)
  | .deleteAll => listDeleteAllNode list >>= fun done => .ok done.2
  | .addList m => listAddList list m

def ListOp.run [DecidableEq α] (list : LinkedList α) : List (ListOp α) →
    Except Fault (LinkedList α)
  | [] => .ok list
  | op :: ops => op.exec list >>= fun list => ListOp.run list ops

/-- `new` behind the first cell of that name -/
def insertAfter (p : Nat) (new : Nat × α) : List (Nat × α) → List (Nat × α)
  | [] => []
  | cell :: cells => if cell.1 = p then cell :: new :: cells else cell :: insertAfter p new cells

namespace Sequence

/-- A value put somewhere takes the next name. -/
def insert (s : Sequence α) (cells : List (Nat × α)) : Sequence α :=
  { cells, fresh := s.fresh + 1 }

/-- The cells after a sorted insertion: behind all that the value is not less than. -/
def sorted (s : Sequence α) (cmp : α → α → Int) (val : α) : List (Nat × α) :=
  notBefore cmp val s.cells ++ (s.fresh, val) :: behindPlace cmp val s.cells

/-- What the operation means. -/
def apply [DecidableEq α] (s : Sequence α) : ListOp α → Sequence α
  | .add val => s.insert (s.cells ++ [(s.fresh, val)])
  | .addHead val => s.insert ((s.fresh, val) :: s.cells)
  | .addSort none val => s.insert (s.cells ++ [(s.fresh, val)])
  | .addSort (some cmp) val => s.insert (s.sorted cmp val)
  | .addAfter none val => s.insert ((s.fresh, val) :: s.cells)
  | .addAfter (some p) val => s.insert (insertAfter p (s.fresh, val) s.cells)
  | .delete val => { s with cells := s.cells.eraseP fun cell => cell.2 = val }
  | .deleteNode p => { s with cells := s.cells.eraseP fun cell => cell.1 = p }
  | .deleteAll => { s with cells := [] }
  | .addList m =>
    { cells := s.cells ++ placed s.fresh m.datas, fresh := s.fresh + m.datas.length }

def applyAll [DecidableEq α] (s : Sequence α) (ops : List (ListOp α)) : Sequence α :=
  ops.foldl apply s

/-- A named node is one of the list, and the other list is one. -/
def Admits (s : Sequence α) : ListOp α → Prop
  | .addAfter (some p) _ | .deleteNode p => p ∈ s.cells.map Prod.fst
  | .addList m => ∃ theirs, m.Holds theirs
  | _ => True

def AdmitsAll [DecidableEq α] (s : Sequence α) : List (ListOp α) → Prop
  | [] => True
  | op :: ops => s.Admits op ∧ (s.apply op).AdmitsAll ops

end Sequence

/-- The pointers of the list are those of the sequence. -/
structure LinkedList.Represents (list : LinkedList α) (s : Sequence α) : Prop where
  holds : list.Holds s.cells
  fresh : list.brk = s.fresh

theorem listNew_represents : (listNew α).Represents ⟨[], 0⟩ :=
  ⟨listNew_holds, rfl⟩

section Sequences

variable {list : LinkedList α} {s : Sequence α} {cells xs ys : List (Nat × α)} {p : Nat} {val : α}

/-- The first cell of a kind, and what stands on its two sides. -/
theorem first_split (kind : Nat × α → Prop) [DecidablePred kind] {cell : Nat × α}
    (member : cell ∈ cells) (hit : kind cell) :
    ∃ xs p w ys, (∀ cell ∈ xs, ¬ kind cell) ∧ kind (p, w) ∧ cells = xs ++ (p, w) :: ys ∧
      cells.eraseP (fun cell => kind cell) = xs ++ ys := by
  obtain ⟨found, xs, ys, first, kindly, parts, erased⟩ :=
    List.exists_of_eraseP (p := fun cell => decide (kind cell)) member (decide_eq_true hit)
  refine ⟨xs, found.1, found.2, ys, ?_, of_decide_eq_true kindly, parts, erased⟩
  intro cell inXs same
  exact first cell inXs (decide_eq_true same)

theorem insertAfter_split (first : ∀ cell ∈ xs, ¬ cell.1 = p) (new : Nat × α) (w : α) :
    insertAfter p new (xs ++ (p, w) :: ys) = xs ++ (p, w) :: new :: ys := by
  induction xs with
  | nil => exact if_pos rfl
  | cons cell xs ih =>
      rw [List.cons_append, insertAfter, if_neg (first cell (by simp)),
        ih fun c member => first c (List.mem_cons_of_mem cell member)]
      rfl

theorem listnodeDelete_brk [DecidableEq α] {list' : LinkedList α}
    (ran : listnodeDelete list val = .ok list') : list'.brk = list.brk := by
  unfold listnodeDelete at ran
  cases found : listnodeSearch list.nodes val list.brk list.head with
  | error fault =>
      rw [found] at ran
      cases ran
  | ok place =>
      rw [found, ok_bind] at ran
      cases place <;> cases ran
      all_goals rfl

theorem listDeleteAllNode_brk {list' : LinkedList α} {datas : List α}
    (ran : listDeleteAllNode list = .ok (datas, list')) : list'.brk = list.brk := by
  unfold listDeleteAllNode at ran
  cases done : listDeleteAllFrom list.brk list.head list.nodes with
  | error fault =>
      rw [done] at ran
      cases ran
  | ok left =>
      rw [done] at ran
      cases ran
      rfl

/-- One operation does to the pointers what it means. -/
theorem exec_represents [DecidableEq α] (repr : list.Represents s) (op : ListOp α)
    (admits : s.Admits op) : ∃ list', op.exec list = .ok list' ∧ list'.Represents (s.apply op) := by
  obtain ⟨cells, fresh⟩ := s
  obtain ⟨holds, fresh⟩ := repr
  change list.Holds cells at holds
  obtain rfl : list.brk = _ := fresh
  cases op with
  | add val =>
      obtain ⟨list', ran, holds'⟩ := listnodeAdd_holds holds val
      exact ⟨list', ran, holds', listnodeAdd_brk ran⟩
  | addHead val =>
      obtain ⟨list', ran, brk, holds'⟩ := listnodeAddHead_holds holds val
      exact ⟨list', ran, holds', brk⟩
  | addSort cmp val =>
      cases cmp with
      | none =>
          obtain ⟨list', ran, brk, holds'⟩ := listnodeAddSort_none holds val
          exact ⟨list', ran, holds', brk⟩
      | some cmp =>
          obtain ⟨list', ran, brk, holds'⟩ := listnodeAddSort_holds holds cmp val
          exact ⟨list', ran, holds', brk⟩
  | addAfter pp val =>
      cases pp with
      | none => exact ⟨_, rfl, listnodeAddAfter_head holds val, rfl⟩
      | some p =>
          have named : p ∈ cells.map Prod.fst := admits
          obtain ⟨cell, member, same⟩ := List.mem_map.mp named
          obtain ⟨xs, q, w, ys, first, here, parts, _⟩ :=
            first_split (fun cell => cell.1 = p) member same
          obtain rfl : q = p := here
          have behind := listnodeAddAfter_holds (parts ▸ holds) val
          refine ⟨_, rfl, ?_, rfl⟩
          change LinkedList.Holds _ (insertAfter q (list.brk, val) cells)
          rw [parts, insertAfter_split first]
          exact behind
  | delete val =>
      by_cases present : ∃ cell ∈ cells, cell.2 = val
      · obtain ⟨cell, member, same⟩ := present
        obtain ⟨xs, q, w, ys, first, here, parts, erased⟩ :=
          first_split (fun cell => cell.2 = val) member same
        obtain rfl : w = val := here
        obtain ⟨list', ran, holds'⟩ := listnodeDelete_holds (parts ▸ holds) first
        refine ⟨list', ran, ?_, listnodeDelete_brk ran⟩
        change list'.Holds (cells.eraseP fun cell => cell.2 = w)
        rw [erased]
        exact holds'
      · have absent : ∀ cell ∈ cells, cell.2 ≠ val :=
          fun cell member same => present ⟨cell, member, same⟩
        refine ⟨list, listnodeDelete_absent holds absent, ?_, rfl⟩
        change list.Holds (cells.eraseP fun cell => cell.2 = val)
        rw [List.eraseP_of_forall_not fun cell member => by simpa using absent cell member]
        exact holds
  | deleteNode p =>
      have named : p ∈ cells.map Prod.fst := admits
      obtain ⟨cell, member, same⟩ := List.mem_map.mp named
      obtain ⟨xs, q, w, ys, _, here, parts, erased⟩ :=
        first_split (fun cell => cell.1 = p) member same
      obtain rfl : q = p := here
      refine ⟨_, rfl, ?_, rfl⟩
      change LinkedList.Holds _ (cells.eraseP fun cell => cell.1 = q)
      rw [erased]
      exact listDeleteNode_holds (parts ▸ holds)
  | deleteAll =>
      obtain ⟨list', ran, holds'⟩ := listDeleteAllNode_holds holds
      refine ⟨list', ?_, holds', listDeleteAllNode_brk ran⟩
      rw [ListOp.exec, ran, ok_bind]
  | addList m =>
      obtain ⟨theirs, other⟩ := admits
      obtain ⟨list', ran, brk, holds'⟩ := listAddList_holds holds other
      refine ⟨list', ran, holds', ?_⟩
      change list'.brk = list.brk + m.datas.length
      rw [brk, other.datas, List.length_map]

/-- Any row of operations does what they mean. -/
theorem run_represents [DecidableEq α] (repr : list.Represents s) (ops : List (ListOp α))
    (admits : s.AdmitsAll ops) :
    ∃ list', ListOp.run list ops = .ok list' ∧ list'.Represents (s.applyAll ops) := by
  induction ops generalizing list s with
  | nil => exact ⟨list, rfl, repr⟩
  | cons op ops ih =>
      obtain ⟨now, later⟩ := admits
      obtain ⟨list₁, ran, repr₁⟩ := exec_represents repr op now
      obtain ⟨list', rest, repr'⟩ := ih repr₁ later
      refine ⟨list', ?_, repr'⟩
      rw [ListOp.run, ran, ok_bind]
      exact rest

/-! ### A sorted list -/

/-- What `cmp` answers is a comparison: total, transitive, ties allowed. -/
structure TotalPreorder (cmp : α → α → Int) : Prop where
  flips : ∀ a b, cmp a b < 0 ↔ 0 < cmp b a
  trans : ∀ a b c, cmp a b ≤ 0 → cmp b c ≤ 0 → cmp a c ≤ 0

def Sorted (cmp : α → α → Int) (vals : List α) : Prop :=
  vals.Pairwise fun a b => cmp a b ≤ 0

variable {cmp : α → α → Int}

theorem TotalPreorder.behind (order : TotalPreorder cmp) {a b : α} (not : ¬ cmp a b < 0) :
    cmp b a ≤ 0 := by
  have := order.flips a b
  omega

/-- The values behind the place are greater, as the first is. -/
theorem behindPlace_greater (order : TotalPreorder cmp) (val : α)
    (sorted : Sorted cmp (cells.map Prod.snd)) :
    ∀ cell ∈ behindPlace cmp val cells, 0 < cmp cell.2 val := by
  induction cells with
  | nil => exact fun cell member => absurd member List.not_mem_nil
  | cons cell cells ih =>
      obtain ⟨least, rest⟩ := List.pairwise_cons.mp sorted
      by_cases less : cmp val cell.2 < 0
      · rw [behindPlace, List.dropWhile_cons_of_neg (by simpa using less)]
        intro c member
        rcases List.mem_cons.mp member with here | later
        · rw [here]
          exact (order.flips _ _).mp less
        · have above := least c.2 (List.mem_map_of_mem later)
          have first := (order.flips _ _).mp less
          by_contra notGreater
          have back := order.trans cell.2 c.2 val above (by omega)
          omega
      · rw [behindPlace, List.dropWhile_cons_of_pos (by simpa using less)]
        exact ih rest

theorem notBefore_atMost (order : TotalPreorder cmp) (val : α) :
    ∀ cell ∈ notBefore cmp val cells, cmp cell.2 val ≤ 0 := by
  intro cell member
  apply order.behind
  simpa using List.mem_takeWhile_imp member

/-- Adding `val` keeps the order of `cmp`, and puts it behind all that are equal to it. -/
def LinkedList.AddsInOrder (list : LinkedList α) (cmp : α → α → Int) (val : α) : Prop :=
  ∃ list' before after, listnodeAddSort (some cmp) list val = .ok list' ∧
    list.datas = before ++ after ∧ list'.datas = before ++ val :: after ∧
    Sorted cmp list'.datas ∧ (∀ x ∈ before, cmp x val ≤ 0) ∧ ∀ y ∈ after, 0 < cmp y val

theorem listnodeAddSort_inOrder (holds : list.Holds cells) (order : TotalPreorder cmp)
    (sorted : Sorted cmp list.datas) (val : α) : list.AddsInOrder cmp val := by
  obtain ⟨list', ran, _, holds'⟩ := listnodeAddSort_holds holds cmp val
  rw [holds.datas] at sorted
  have parts : notBefore cmp val cells ++ behindPlace cmp val cells = cells :=
    List.takeWhile_append_dropWhile
  have atMost : ∀ x ∈ (notBefore cmp val cells).map Prod.snd, cmp x val ≤ 0 := by
    intro x member
    obtain ⟨cell, inCells, rfl⟩ := List.mem_map.mp member
    exact notBefore_atMost order val cell inCells
  have greater : ∀ y ∈ (behindPlace cmp val cells).map Prod.snd, 0 < cmp y val := by
    intro y member
    obtain ⟨cell, inCells, rfl⟩ := List.mem_map.mp member
    exact behindPlace_greater order val sorted cell inCells
  have datas : list'.datas = (notBefore cmp val cells).map Prod.snd ++
      val :: (behindPlace cmp val cells).map Prod.snd := by
    rw [holds'.datas, List.map_append, List.map_cons]
  refine ⟨list', _, _, ran, ?_, datas, ?_, atMost, greater⟩
  · rw [holds.datas, ← List.map_append, parts]
  · rw [← parts, List.map_append] at sorted
    obtain ⟨left, right, across⟩ := List.pairwise_append.mp sorted
    rw [datas]
    apply List.pairwise_append.mpr
    refine ⟨left, ?_, ?_⟩
    · apply List.pairwise_cons.mpr
      refine ⟨?_, right⟩
      intro y member
      have above := (order.flips val y).mpr (greater y member)
      omega
    · intro x inBefore y member
      rcases List.mem_cons.mp member with here | later
      · rw [here]
        exact atMost x inBefore
      · exact across x inBefore y later

/-- Whatever is done to a list, its pointers are those of the sequence that the operations
describe, and a sorted list takes a value in order. -/
theorem list_is_sequence [DecidableEq α] (repr : list.Represents s) (ops : List (ListOp α))
    (admits : s.AdmitsAll ops) :
    ∃ list', ListOp.run list ops = .ok list' ∧ list'.Represents (s.applyAll ops) ∧
      list'.datas = (s.applyAll ops).cells.map Prod.snd ∧
      list'.count = (s.applyAll ops).cells.length ∧
      ∀ cmp val, TotalPreorder cmp → Sorted cmp list'.datas → list'.AddsInOrder cmp val := by
  obtain ⟨list', ran, repr'⟩ := run_represents repr ops admits
  refine ⟨list', ran, repr', repr'.holds.datas, repr'.holds.counted, ?_⟩
  intro cmp val order sorted
  exact listnodeAddSort_inOrder repr'.holds order sorted val

/-- Three values, the first at the head, one behind it and one gone. -/
theorem list_is_sequence_some :
    ∃ list', ListOp.run (listNew Nat)
        [.add 7, .addHead 5, .addAfter (some 1) 6, .delete 7, .addSort (some fun a b => a - b) 6] =
          .ok list' ∧
      list'.datas = [5, 6, 6] ∧ list'.AddsInOrder (fun a b => (a : Int) - b) 6 := by
  have admits : Sequence.AdmitsAll (⟨[], 0⟩ : Sequence Nat) [.add 7, .addHead 5,
      .addAfter (some 1) 6, .delete 7, .addSort (some fun a b => a - b) 6] :=
    ⟨trivial, trivial, List.mem_cons_self, trivial, trivial, trivial⟩
  obtain ⟨list', ran, _, datas, _, inOrder⟩ := list_is_sequence listNew_represents _ admits
  have vals : list'.datas = [5, 6, 6] := datas.trans (by decide)
  have order : TotalPreorder fun a b : Nat => (a : Int) - b := by
    constructor
    · intro a b
      omega
    · intro a b c first second
      omega
  refine ⟨list', ran, vals, inOrder _ _ order ?_⟩
  rw [vals, Sorted]
  decide

end Sequences

end Poplar
