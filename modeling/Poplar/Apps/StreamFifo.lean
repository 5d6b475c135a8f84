import Poplar.Apps.Stream

/-!
# The queues of streams of apps/pop_stream.c

A stream in memory carries the link to the one behind it. `count` is a `size_t`.
-/
namespace Poplar

structure StreamNode where
  next : Option Nat
  stream : Stream

/-- A queue, and the streams allocated; no allocation answered an address from `brk` on. -/
structure StreamFifo where
  nodes : Nat → Option StreamNode
  brk : Nat
  count : Nat
  head : Option Nat
  tail : Option Nat

def streamFifoNew : StreamFifo :=
  { nodes := fun _ => none, brk := 0, count := 0, head := none, tail := none }

namespace StreamFifo

/-- `s->…` -/
def load (fifo : StreamFifo) (s : Nat) : Except Fault StreamNode :=
  match fifo.nodes s with
  | some node => .ok node
  | none => .error .useAfterFree

def put (fifo : StreamFifo) (s : Nat) (node : Option StreamNode) : StreamFifo :=
  { fifo with nodes := Function.update fifo.nodes s node }

/-- A stream as `stream_new` and `stream_dup` leave it, linked to nothing. -/
def alloc (fifo : StreamFifo) (stream : Stream) : Nat × StreamFifo :=
  (fifo.brk, { fifo.put fifo.brk (some ⟨none, stream⟩) with brk := fifo.brk + 1 })

end StreamFifo

def streamFifoPush (fifo : StreamFifo) (s : Nat) : Except Fault StreamFifo := do
  let fifo ← match fifo.tail with
    | some tail => do
      let node ← fifo.load tail
      pure (fifo.put tail (some { node with next := some s }))
    | none => pure { fifo with head := some s }
  return { fifo with tail := some s, count := (fifo.count + 1) % 2 ^ 64 }

/-- `n--` of a `size_t` -/
def sizePred (n : Nat) : Nat := if n = 0 then 2 ^ 64 - 1 else n - 1

theorem sizePred_succ (n : Nat) : sizePred ((n + 1) % 2 ^ 64) = n % 2 ^ 64 := by
  rw [sizePred]
  split <;> omega

def streamFifoPop (fifo : StreamFifo) : Except Fault (Option Nat × StreamFifo) := do
  let s := fifo.head
  let fifo ← match s with
    | some s => do
      let node ← fifo.load s
      pure { fifo with head := node.next, tail := node.next.bind fun _ => fifo.tail }
    | none => pure fifo
  return (s, { fifo with count := sizePred fifo.count })

def streamFifoHead (fifo : StreamFifo) : Option Nat := fifo.head

def streamFree (fifo : StreamFifo) : Option Nat → Except Fault StreamFifo
  | none => .ok fifo
  | some s => do
    let _ ← fifo.load s
    return fifo.put s none

/-- The loop of `stream_fifo_clean`, with at most `n` streams left to free. -/
def cleanLoop : Nat → StreamFifo → Option Nat → Except Fault StreamFifo
  | _, fifo, none => .ok fifo
  | 0, _, some _ => .error .diverge
  | n + 1, fifo, some s => do
    let node ← fifo.load s
    let fifo ← streamFree fifo (some s)
    cleanLoop n fifo node.next

/-- Each turn frees a stream, so `brk` turns are enough. -/
def streamFifoClean (fifo : StreamFifo) : Except Fault StreamFifo := do
  let fifo ← cleanLoop fifo.brk fifo fifo.head
  return { fifo with head := none, tail := none, count := 0 }

/-- The streams met from `s` on along the links, at most `fuel` of them. -/
def StreamFifo.walk (nodes : Nat → Option StreamNode) : Nat → Option Nat → List Stream
  | 0, _ => []
  | _ + 1, none => []
  | fuel + 1, some s =>
    ((nodes s).map fun node => node.stream :: walk nodes fuel node.next).getD []

def StreamFifo.streams (fifo : StreamFifo) : List Stream := walk fifo.nodes fifo.brk fifo.head

/-- The unread parts of the streams in the queue. -/
def StreamFifo.blocks (fifo : StreamFifo) : List (List UInt8) := fifo.streams.map Stream.unread

namespace StreamFifo

/-- These streams are linked in this order, and nothing comes behind the last. -/
def Linked (nodes : Nat → Option StreamNode) : List (Nat × Stream) → Prop
  | [] => True
  | cell :: cells =>
    nodes cell.1 = some ⟨cells.head?.map Prod.fst, cell.2⟩ ∧ Linked nodes cells

/-- The queue is these streams, in this order. -/
structure Queued (fifo : StreamFifo) (cells : List (Nat × Stream)) : Prop where
  linked : Linked fifo.nodes cells
  head : fifo.head = cells.head?.map Prod.fst
  tail : fifo.tail = cells.getLast?.map Prod.fst
  nodup : (cells.map Prod.fst).Nodup
  count : fifo.count = cells.length % 2 ^ 64

structure Holds (fifo : StreamFifo) (cells : List (Nat × Stream)) : Prop extends
    Queued fifo cells where
  below : ∀ cell ∈ cells, cell.1 < fifo.brk

theorem new_holds : streamFifoNew.Holds [] where
  linked := trivial
  head := rfl
  tail := rfl
  nodup := List.nodup_nil
  count := rfl
  below := by simp

variable {fifo : StreamFifo} {nodes nodes' : Nat → Option StreamNode}
variable {cell : Nat × Stream} {cells : List (Nat × Stream)}

theorem Linked.congr (linked : Linked nodes cells)
    (same : ∀ cell ∈ cells, nodes' cell.1 = nodes cell.1) : Linked nodes' cells := by
  induction cells with
  | nil => trivial
  | cons cell cells ih =>
      exact ⟨(same cell (by simp)).trans linked.1,
        ih linked.2 fun c member => same c (List.mem_cons_of_mem cell member)⟩

theorem load_ok {s : Nat} {node : StreamNode} (there : fifo.nodes s = some node) :
    fifo.load s = .ok node := by
  simp [load, there]

theorem Linked.walk (linked : Linked nodes cells) {fuel : Nat} (enough : cells.length ≤ fuel) :
    walk nodes fuel (cells.head?.map Prod.fst) = cells.map Prod.snd := by
  induction cells generalizing fuel with
  | nil => cases fuel <;> rfl
  | cons cell cells ih =>
      cases fuel with
      | zero => simp at enough
      | succ fuel =>
          simp only [List.head?_cons, Option.map_some, StreamFifo.walk, linked.1, Option.getD_some,
            List.map_cons]
          rw [ih linked.2 (Nat.le_of_succ_le_succ enough)]

theorem Holds.enough (holds : fifo.Holds cells) : cells.length ≤ fifo.brk := by
  have within : cells.map Prod.fst ⊆ List.range fifo.brk := by
    intro q member
    obtain ⟨cell, inCells, rfl⟩ := List.mem_map.mp member
    exact List.mem_range.mpr (holds.below cell inCells)
  simpa using (List.subperm_of_subset holds.nodup within).length_le

theorem Holds.blocks (holds : fifo.Holds cells) :
    fifo.blocks = cells.map fun cell => cell.2.unread := by
  rw [StreamFifo.blocks, streams, holds.head, holds.linked.walk holds.enough, List.map_map]
  rfl

theorem Linked.live (linked : Linked nodes cells) (member : cell ∈ cells) :
    ∃ next, nodes cell.1 = some ⟨next, cell.2⟩ := by
  induction cells with
  | nil => cases member
  | cons first cells ih =>
      rcases List.mem_cons.mp member with rfl | later
      · exact ⟨_, linked.1⟩
      · exact ih linked.2 later

theorem Linked.last (linked : Linked nodes (cells ++ [cell])) :
    nodes cell.1 = some ⟨none, cell.2⟩ := by
  induction cells with
  | nil => exact linked.1
  | cons next rest ih => exact ih linked.2

/-- Everything but the link of the last cell stays. -/
theorem Linked.extend {stream : Stream} {p : Nat} (linked : Linked nodes cells)
    (nodup : (cells.map Prod.fst).Nodup)
    (kept : ∀ cell ∈ cells, cells.getLast? ≠ some cell → nodes' cell.1 = nodes cell.1)
    (last : ∀ cell, cells.getLast? = some cell → nodes' cell.1 = some ⟨some p, cell.2⟩)
    (new : nodes' p = some ⟨none, stream⟩) : Linked nodes' (cells ++ [(p, stream)]) := by
  induction cells with
  | nil => exact ⟨new, trivial⟩
  | cons cell cells ih =>
      obtain ⟨fresh, nodupRest⟩ := List.nodup_cons.mp nodup
      cases cells with
      | nil => exact ⟨last cell rfl, new, trivial⟩
      | cons next rest =>
          have notLast : (cell :: next :: rest).getLast? ≠ some cell := by
            rw [List.getLast?_cons_cons]
            exact fun same => fresh (List.mem_map_of_mem (List.mem_of_getLast? same))
          refine ⟨(kept cell (by simp) notLast).trans linked.1, ih linked.2 nodupRest ?_ ?_⟩
          · intro c member other
            exact kept c (List.mem_cons_of_mem cell member) (by rwa [List.getLast?_cons_cons])
          · intro c isLast
            exact last c (by rwa [List.getLast?_cons_cons])

/-- A stream that is in no queue is pushed, whatever its link. -/
theorem Queued.pushes (queued : fifo.Queued cells) (s : Nat) :
    ∃ nodes', streamFifoPush fifo s = .ok { fifo with
        nodes := nodes'
        head := ((cells.map Prod.fst) ++ [s]).head?
        tail := some s
        count := (fifo.count + 1) % 2 ^ 64 } ∧
      (∀ p, (∀ cell ∈ cells, cells.getLast? = some cell → p ≠ cell.1) → nodes' p = fifo.nodes p) ∧
      ∀ cell ∈ cells, cells.getLast? = some cell → nodes' cell.1 = some ⟨some s, cell.2⟩ := by
  rcases List.eq_nil_or_concat cells with rfl | ⟨front, last, rfl⟩
  · have tail : fifo.tail = none := queued.tail
    refine ⟨fifo.nodes, ?_, fun _ _ => rfl, by simp⟩
    simp only [streamFifoPush, tail, pure_ok, ok_bind]
    rfl
  · rw [List.concat_eq_append] at *
    have tail : fifo.tail = some last.1 := by simpa using queued.tail
    have head : fifo.head = ((front ++ [last]).map Prod.fst ++ [s]).head? := by
      rw [queued.head]
      cases front <;> rfl
    have there := load_ok queued.linked.last
    refine ⟨Function.update fifo.nodes last.1 (some ⟨some s, last.2⟩), ?_, ?_, ?_⟩
    · simp only [streamFifoPush, tail, there, StreamFifo.put, ok_bind, pure_ok, head]
    · intro p other
      exact Function.update_of_ne (other last (by simp) List.getLast?_concat) _ _
    · intro cell _ isLast
      rw [List.getLast?_concat, Option.some.injEq] at isLast
      rw [← isLast]
      exact Function.update_self _ _ _

theorem Queued.push {s : Nat} {stream : Stream} (queued : fifo.Queued cells)
    (there : fifo.nodes s = some ⟨none, stream⟩) (fresh : s ∉ cells.map Prod.fst) :
    ∃ fifo', streamFifoPush fifo s = .ok fifo' ∧ fifo'.Queued (cells ++ [(s, stream)]) ∧
      fifo'.brk = fifo.brk ∧ ∀ p, (fifo'.nodes p).isSome = (fifo.nodes p).isSome := by
  obtain ⟨nodes', pushes, kept, joined⟩ := queued.pushes s
  have apart : ∀ cell ∈ cells, cell.1 ≠ s := fun cell member same =>
    fresh (same ▸ List.mem_map_of_mem member)
  refine ⟨_, pushes, ⟨queued.linked.extend queued.nodup ?_ ?_ ?_, ?_, ?_, ?_, ?_⟩, rfl, ?_⟩
  · intro cell member notLast
    refine kept cell.1 fun last inside isLast same => notLast ?_
    rw [isLast, List.inj_on_of_nodup_map queued.nodup member inside same]
  · intro cell isLast
    exact joined cell (List.mem_of_getLast? isLast) isLast
  · exact (kept s fun cell member _ same => apart cell member same.symm).trans there
  · cases cells <;> rfl
  · rw [List.getLast?_concat]
    rfl
  · rw [List.map_append]
    refine List.nodup_append.mpr ⟨queued.nodup, by simp, ?_⟩
    intro q member q' new same
    rw [List.map_singleton, List.mem_singleton] at new
    rw [same, new] at member
    exact fresh member
  · dsimp only
    rw [queued.count, List.length_append, List.length_singleton, Nat.mod_add_mod]
  · intro p
    dsimp only
    by_cases last : ∃ cell ∈ cells, cells.getLast? = some cell ∧ p = cell.1
    · obtain ⟨cell, member, isLast, rfl⟩ := last
      obtain ⟨node, live⟩ := queued.linked.live member
      rw [joined cell member isLast, live]
      rfl
    · rw [kept p fun cell member isLast same => last ⟨cell, member, isLast, same⟩]

theorem Queued.alloc (queued : fifo.Queued cells) (stream : Stream)
    (below : ∀ cell ∈ cells, cell.1 < fifo.brk) : (fifo.alloc stream).2.Queued cells where
  linked := queued.linked.congr fun cell member =>
    Function.update_of_ne (Nat.ne_of_lt (below cell member)) _ _
  head := queued.head
  tail := queued.tail
  nodup := queued.nodup
  count := queued.count

theorem Holds.push (holds : fifo.Holds cells) (stream : Stream) :
    ∃ fifo', streamFifoPush (fifo.alloc stream).2 (fifo.alloc stream).1 = .ok fifo' ∧
      fifo'.Holds (cells ++ [(fifo.brk, stream)]) := by
  have allocated : (fifo.alloc stream).2.nodes fifo.brk = some ⟨none, stream⟩ :=
    Function.update_self _ _ _
  have fresh : fifo.brk ∉ cells.map Prod.fst := by
    intro member
    obtain ⟨cell, inCells, same⟩ := List.mem_map.mp member
    exact Nat.ne_of_lt (holds.below cell inCells) same
  obtain ⟨fifo', pushes, queued, brk, -⟩ :=
    (holds.toQueued.alloc stream holds.below).push allocated fresh
  refine ⟨fifo', pushes, queued, ?_⟩
  intro cell member
  rw [brk]
  rcases List.mem_append.mp member with old | new
  · exact Nat.lt_succ_of_lt (holds.below cell old)
  · rw [List.mem_singleton.mp new]
    exact Nat.lt_succ_self _

theorem Queued.pop (queued : fifo.Queued (cell :: cells)) :
    ∃ fifo', streamFifoPop fifo = .ok (some cell.1, fifo') ∧ fifo'.Queued cells ∧
      fifo'.nodes = fifo.nodes ∧ fifo'.brk = fifo.brk := by
  obtain ⟨there, linked⟩ := queued.linked
  have head : fifo.head = some cell.1 := queued.head
  refine ⟨{ fifo with
    head := cells.head?.map Prod.fst
    tail := (cells.head?.map Prod.fst).bind fun _ => fifo.tail
    count := sizePred fifo.count }, ?_, ⟨linked, rfl, ?_, ?_, ?_⟩, rfl, rfl⟩
  · simp only [streamFifoPop, head, load_ok there, ok_bind, pure_ok]
  · dsimp only
    rw [queued.tail]
    cases cells with
    | nil => rfl
    | cons next rest =>
        rw [List.getLast?_cons_cons]
        rfl
  · exact (List.nodup_cons.mp queued.nodup).2
  · dsimp only
    rw [queued.count, List.length_cons, sizePred_succ]

theorem Queued.free (queued : fifo.Queued cells) {s : Nat} (fresh : s ∉ cells.map Prod.fst) :
    (fifo.put s none).Queued cells where
  linked := queued.linked.congr fun cell member =>
    Function.update_of_ne (fun same : cell.1 = s => fresh (same ▸ List.mem_map_of_mem member)) _ _
  head := queued.head
  tail := queued.tail
  nodup := queued.nodup
  count := queued.count

theorem Holds.pop (holds : fifo.Holds (cell :: cells)) :
    ∃ fifo' fifo'', streamFifoPop fifo = .ok (some cell.1, fifo') ∧
      streamFree fifo' (some cell.1) = .ok fifo'' ∧ fifo''.Holds cells := by
  obtain ⟨fifo', pops, queued, nodes, brk⟩ := holds.toQueued.pop
  have still : fifo'.nodes cell.1 = some ⟨cells.head?.map Prod.fst, cell.2⟩ := by
    rw [nodes]
    exact holds.linked.1
  refine ⟨fifo', fifo'.put cell.1 none, pops, ?_, queued.free (List.nodup_cons.mp holds.nodup).1, ?_⟩
  · simp only [streamFree, load_ok still, ok_bind, pure_ok]
  · intro c member
    exact brk ▸ holds.below c (List.mem_cons_of_mem cell member)

/-- A stream changed in place keeps its link. -/
theorem Holds.put (holds : fifo.Holds (cell :: cells)) (stream : Stream) :
    (fifo.put cell.1 (some ⟨cells.head?.map Prod.fst, stream⟩)).Holds
      ((cell.1, stream) :: cells) := by
  obtain ⟨there, linked⟩ := holds.linked
  obtain ⟨fresh, nodup⟩ := List.nodup_cons.mp holds.nodup
  have kept : ∀ c ∈ cells, Function.update fifo.nodes cell.1
      (some ⟨cells.head?.map Prod.fst, stream⟩) c.1 = fifo.nodes c.1 := by
    intro c member
    have different : c.1 ≠ cell.1 := fun same => fresh (same ▸ List.mem_map_of_mem member)
    rw [Function.update_of_ne different]
  refine ⟨⟨⟨Function.update_self _ _ _, linked.congr kept⟩, holds.head, ?_, holds.nodup,
    holds.count⟩, ?_⟩
  · have tail := holds.tail
    cases cells with
    | nil => exact tail
    | cons next rest => rwa [List.getLast?_cons_cons] at tail ⊢
  · intro c member
    rcases List.mem_cons.mp member with rfl | later
    · exact holds.below cell (by simp)
    · exact holds.below c (List.mem_cons_of_mem cell later)

end StreamFifo

end Poplar
