import Poplar.Lib.Runs
import Poplar.Apps.StreamFifo

/-!
# Runs of a queue of streams

Pushing, popping and cleaning in any order. The queue is what was pushed and neither
popped nor cleaned since, until a stream is pushed that still has a link, or an empty
queue is popped.
-/
namespace Poplar

open StreamFifo

/-- A queue with what it should hold, and the last answer of a pop with what it should be. -/
structure FifoRun where
  fifo : StreamFifo
  pushed : List Nat
  answer : Option Nat
  oldest : Option Nat

inductive FifoOp where
  | push (s : Nat)
  | pop
  | clean
  deriving DecidableEq, Repr

def fifoExec : FifoOp → FifoRun → Except Fault FifoRun
  | .push s, r => do
    let fifo ← streamFifoPush r.fifo s
    return { r with fifo := fifo, pushed := r.pushed ++ [s] }
  | .pop, r => do
    let (answer, fifo) ← streamFifoPop r.fifo
    return { fifo := fifo, pushed := r.pushed.tail, answer := answer, oldest := r.pushed.head? }
  | .clean, r => do
    let fifo ← streamFifoClean r.fifo
    return { r with fifo := fifo, pushed := [] }

/-- A new queue among streams that may have been in other queues, in a memory of 64-bit
addresses. A stream is pushed only while it is in no queue. -/
def fifoSystem : Runs.System FifoRun FifoOp Fault where
  start r := ∃ nodes brk, (∀ p, (nodes p).isSome → 0 < p ∧ p < brk) ∧ brk ≤ 2 ^ 64 ∧
    r = ⟨{ streamFifoNew with nodes := nodes, brk := brk }, [], none, none⟩
  guard r op := match op with
    | .push s => (r.fifo.nodes s).isSome ∧ s ∉ r.pushed
    | .pop => True
    | .clean => True
  exec := fifoExec

/-- The chain from `head` is what was pushed, `tail` its last stream, and `count` its length;
a pop answered the oldest stream; and no operation fails. -/
structure FifoRun.Right (r : FifoRun) : Prop where
  queued : ∃ cells, cells.map Prod.fst = r.pushed ∧ r.fifo.Queued cells
  count : r.fifo.count = r.pushed.length
  empty : r.fifo.count = 0 ↔ r.fifo.head = none
  answered : r.answer = r.oldest
  runs : ∀ op, fifoSystem.guard r op → ∃ r', fifoExec op r = .ok r'

/-- A stream pushed has no link, and an empty queue is not popped. -/
def FifoRun.Careful (r : FifoRun) : FifoOp → Prop
  | .push s => ((r.fifo.nodes s).bind fun node => node.next) = none
  | .pop => r.pushed ≠ []
  | .clean => True

/-! ## The memory -/

structure FifoRun.Bounded (r : FifoRun) : Prop where
  live : ∀ p, (r.fifo.nodes p).isSome → 0 < p ∧ p < r.fifo.brk
  brk : r.fifo.brk ≤ 2 ^ 64

/-- Streams are freed, but none is made. -/
structure Kept (fifo fifo' : StreamFifo) : Prop where
  live : ∀ p, (fifo'.nodes p).isSome → (fifo.nodes p).isSome
  brk : fifo'.brk = fifo.brk

theorem Kept.trans {fifo mid fifo' : StreamFifo} (first : Kept fifo mid) (second : Kept mid fifo') :
    Kept fifo fifo' where
  live p live := first.live p (second.live p live)
  brk := second.brk.trans first.brk

section Memory

variable {fifo fifo' : StreamFifo} {s : Nat}

theorem load_live {node : StreamNode} (loads : fifo.load s = .ok node) :
    fifo.nodes s = some node := by
  unfold StreamFifo.load at loads
  split at loads
  · cases loads
    assumption
  · cases loads

theorem streamFifoPush_kept (pushes : streamFifoPush fifo s = .ok fifo') : Kept fifo fifo' := by
  unfold streamFifoPush at pushes
  cases tail : fifo.tail with
  | none =>
      simp only [tail, pure_ok, ok_bind] at pushes
      cases pushes
      exact ⟨fun _ live => live, rfl⟩
  | some t =>
      simp only [tail] at pushes
      cases loads : fifo.load t with
      | error fault => simp [loads] at pushes
      | ok node =>
          simp only [loads, pure_ok, ok_bind] at pushes
          cases pushes
          refine ⟨fun p live => ?_, rfl⟩
          by_cases here : p = t
          · rw [here, load_live loads]
            rfl
          · dsimp only [StreamFifo.put] at live
            rwa [Function.update_of_ne here] at live

theorem streamFifoPop_kept {answer : Option Nat} (pops : streamFifoPop fifo = .ok (answer, fifo')) :
    Kept fifo fifo' := by
  unfold streamFifoPop at pops
  cases head : fifo.head with
  | none =>
      simp only [head, pure_ok, ok_bind] at pops
      cases pops
      exact ⟨fun _ live => live, rfl⟩
  | some p =>
      simp only [head] at pops
      cases loads : fifo.load p with
      | error fault => simp [loads] at pops
      | ok node =>
          simp only [loads, pure_ok, ok_bind] at pops
          cases pops
          exact ⟨fun _ live => live, rfl⟩

theorem put_none_kept (fifo : StreamFifo) (s : Nat) : Kept fifo (fifo.put s none) where
  live p live := by
    by_cases here : p = s
    · simp [StreamFifo.put, here] at live
    · dsimp only [StreamFifo.put] at live
      rwa [Function.update_of_ne here] at live
  brk := rfl

theorem cleanLoop_kept {n : Nat} {next : Option Nat} (cleans : cleanLoop n fifo next = .ok fifo') :
    Kept fifo fifo' := by
  induction n generalizing fifo next with
  | zero =>
      cases next with
      | none =>
          cases cleans
          exact ⟨fun _ live => live, rfl⟩
      | some s => cases cleans
  | succ n ih =>
      cases next with
      | none =>
          cases cleans
          exact ⟨fun _ live => live, rfl⟩
      | some s =>
          unfold cleanLoop at cleans
          cases loads : fifo.load s with
          | error fault => simp [loads] at cleans
          | ok node =>
              simp only [loads, streamFree, pure_ok, ok_bind] at cleans
              exact (put_none_kept fifo s).trans (ih cleans)

theorem streamFifoClean_kept (cleans : streamFifoClean fifo = .ok fifo') : Kept fifo fifo' := by
  unfold streamFifoClean at cleans
  cases loop : cleanLoop fifo.brk fifo fifo.head with
  | error fault => simp [loop] at cleans
  | ok mid =>
      simp only [loop, pure_ok, ok_bind] at cleans
      cases cleans
      have kept := cleanLoop_kept loop
      exact ⟨kept.live, kept.brk⟩

end Memory

/-- What the operations are in terms of the queue. -/
theorem fifoExec_kept {op : FifoOp} {r r' : FifoRun} (runs : fifoExec op r = .ok r') :
    Kept r.fifo r'.fifo := by
  cases op with
  | push s =>
      unfold fifoExec at runs
      cases pushes : streamFifoPush r.fifo s with
      | error fault => simp [pushes] at runs
      | ok fifo =>
          simp only [pushes, pure_ok, ok_bind] at runs
          cases runs
          exact streamFifoPush_kept pushes
  | pop =>
      unfold fifoExec at runs
      cases pops : streamFifoPop r.fifo with
      | error fault => simp [pops] at runs
      | ok result =>
          simp only [pops, pure_ok, ok_bind] at runs
          cases runs
          exact streamFifoPop_kept pops
  | clean =>
      unfold fifoExec at runs
      cases cleans : streamFifoClean r.fifo with
      | error fault => simp [cleans] at runs
      | ok fifo =>
          simp only [cleans, pure_ok, ok_bind] at runs
          cases runs
          exact streamFifoClean_kept cleans

theorem Kept.bounded {r r' : FifoRun} (kept : Kept r.fifo r'.fifo) (bounded : r.Bounded) :
    r'.Bounded where
  live p live := by
    rw [kept.brk]
    exact bounded.live p (kept.live p live)
  brk := by
    rw [kept.brk]
    exact bounded.brk

theorem bounded_of_reachable {r : FifoRun} (reachable : fifoSystem.Reachable r) : r.Bounded := by
  refine reachable.invariant ?_ ?_
  · rintro r ⟨nodes, brk, live, small, rfl⟩
    exact ⟨live, small⟩
  · intro r op r' bounded _ runs
    exact (fifoExec_kept runs).bounded bounded

/-! ## The queue -/

section Queue

variable {r r' : FifoRun} {cells : List (Nat × Stream)}

/-- A queue is shorter than the memory, whose first address is no stream's. -/
theorem FifoRun.Bounded.length_lt (bounded : r.Bounded) (queued : r.fifo.Queued cells) :
    cells.length = 0 ∨ cells.length < r.fifo.brk := by
  have within : cells.map Prod.fst ⊆ List.range' 1 (r.fifo.brk - 1) := by
    intro p member
    obtain ⟨cell, inside, rfl⟩ := List.mem_map.mp member
    obtain ⟨next, there⟩ := queued.linked.live inside
    have place := bounded.live cell.1 (by rw [there]; rfl)
    exact List.mem_range'_1.mpr ⟨place.1, by omega⟩
  have fits := (List.subperm_of_subset queued.nodup within).length_le
  rw [List.length_map, List.length_range'] at fits
  omega

theorem Queued.head_eq_none (queued : r.fifo.Queued cells) :
    r.fifo.head = none ↔ cells.length = 0 := by
  rw [queued.head, List.length_eq_zero_iff]
  cases cells <;> simp

/-- Cleaning frees the streams of the queue one after the other. -/
theorem cleanLoop_ok {nodes : Nat → Option StreamNode} {n : Nat} {fifo : StreamFifo}
    (same : ∀ cell ∈ cells, fifo.nodes cell.1 = nodes cell.1) (linked : Linked nodes cells)
    (nodup : (cells.map Prod.fst).Nodup) (enough : cells.length ≤ n) :
    ∃ fifo', cleanLoop n fifo (cells.head?.map Prod.fst) = .ok fifo' := by
  induction cells generalizing n fifo with
  | nil => exact ⟨fifo, by cases n <;> rfl⟩
  | cons cell cells ih =>
      cases n with
      | zero => cases enough
      | succ n =>
          obtain ⟨fresh, others⟩ := List.nodup_cons.mp nodup
          have there := load_ok ((same cell (by simp)).trans linked.1)
          have left : ∀ c ∈ cells, (fifo.put cell.1 none).nodes c.1 = nodes c.1 := by
            intro c member
            have apart : c.1 ≠ cell.1 := fun other => fresh (other ▸ List.mem_map_of_mem member)
            exact (Function.update_of_ne apart _ _).trans (same c (List.mem_cons_of_mem cell member))
          obtain ⟨fifo', cleans⟩ := ih left linked.2 others (Nat.le_of_succ_le_succ enough)
          refine ⟨fifo', ?_⟩
          rw [List.head?_cons, Option.map_some, cleanLoop]
          simp only [there, streamFree, ok_bind, pure_ok]
          exact cleans

/-- Every operation on a queue returns. -/
theorem queued_runs (bounded : r.Bounded) (queued : r.fifo.Queued cells) (op : FifoOp) :
    ∃ r', fifoExec op r = .ok r' := by
  cases op with
  | push s =>
      obtain ⟨nodes', pushes, -⟩ := queued.pushes s
      exact ⟨_, by rw [fifoExec, pushes]; rfl⟩
  | pop =>
      cases cells with
      | nil =>
          have head : r.fifo.head = none := queued.head
          have pops : streamFifoPop r.fifo =
              .ok (none, { r.fifo with count := sizePred r.fifo.count }) := by
            simp only [streamFifoPop, head, pure_ok, ok_bind]
          exact ⟨_, by rw [fifoExec, pops]; rfl⟩
      | cons cell cells =>
          obtain ⟨fifo', pops, -⟩ := queued.pop
          exact ⟨_, by rw [fifoExec, pops]; rfl⟩
  | clean =>
      have enough : cells.length ≤ r.fifo.brk := by
        have fits := bounded.length_lt queued
        omega
      obtain ⟨fifo', loop⟩ := cleanLoop_ok (fun _ _ => rfl) queued.linked queued.nodup enough
      rw [← queued.head] at loop
      exact ⟨_, by rw [fifoExec, streamFifoClean, loop]; rfl⟩

/-- All that is right follows from the queue and the last answer. -/
theorem right_of_queued (bounded : r.Bounded) (queued : r.fifo.Queued cells)
    (pushed : cells.map Prod.fst = r.pushed) (answered : r.answer = r.oldest) : r.Right := by
  have fits := bounded.length_lt queued
  have small : cells.length < 2 ^ 64 := by
    have := bounded.brk
    omega
  have count : r.fifo.count = cells.length := by
    rw [queued.count, Nat.mod_eq_of_lt small]
  exact {
    queued := ⟨cells, pushed, queued⟩
    count := by rw [count, ← pushed, List.length_map]
    empty := by rw [count, Queued.head_eq_none queued]
    answered := answered
    runs := fun op _ => queued_runs bounded queued op }

/-- A stream at the end of a queue has no link. -/
theorem Queued.last_unlinked {s : Nat} {front : List Nat} {fifo : StreamFifo}
    (queued : fifo.Queued cells) (ends : cells.map Prod.fst = front ++ [s]) :
    ((fifo.nodes s).bind fun node => node.next) = none := by
  obtain ⟨before, cell, rfl⟩ : ∃ before cell, cells = before ++ [cell] := by
    rcases List.eq_nil_or_concat cells with rfl | ⟨before, cell, rfl⟩
    · simp at ends
    · exact ⟨before, cell, List.concat_eq_append⟩
  rw [List.map_append, List.map_singleton] at ends
  have same : cell.1 = s := by
    have tails := (List.append_inj' ends rfl).2
    exact (List.cons.inj tails).1
  rw [← same, queued.linked.last]
  rfl

end Queue

section Steps

variable {r r' : FifoRun}

theorem push_right_iff {s : Nat} (bounded : r'.Bounded) (right : r.Right)
    (guard : (r.fifo.nodes s).isSome ∧ s ∉ r.pushed) (runs : fifoExec (.push s) r = .ok r') :
    r'.Right ↔ r.Careful (.push s) := by
  obtain ⟨cells, pushed, queued⟩ := right.queued
  obtain ⟨node, there⟩ := Option.isSome_iff_exists.mp guard.1
  have fresh : s ∉ cells.map Prod.fst := by
    rw [pushed]
    exact guard.2
  constructor
  · intro right'
    obtain ⟨nodes', pushes, kept, -⟩ := queued.pushes s
    rw [fifoExec, pushes] at runs
    cases runs
    obtain ⟨cells', pushed', queued'⟩ := right'.queued
    have unlinked := Queued.last_unlinked queued' pushed'
    have same : nodes' s = r.fifo.nodes s :=
      kept s fun cell member _ here => fresh (here ▸ List.mem_map_of_mem member)
    dsimp only at unlinked
    rw [same] at unlinked
    exact unlinked
  · intro careful
    have unlinked : node.next = none := by
      rw [FifoRun.Careful, there] at careful
      exact careful
    have last : r.fifo.nodes s = some ⟨none, node.stream⟩ := by
      rw [there, ← unlinked]
    obtain ⟨fifo', pushes, queued', -⟩ := queued.push last fresh
    rw [fifoExec, pushes] at runs
    cases runs
    exact right_of_queued bounded queued' (by rw [List.map_append, pushed]; rfl) right.answered

theorem pop_right_iff (bounded : r'.Bounded) (right : r.Right) (runs : fifoExec .pop r = .ok r') :
    r'.Right ↔ r.Careful .pop := by
  obtain ⟨cells, pushed, queued⟩ := right.queued
  cases cells with
  | nil =>
      have head : r.fifo.head = none := queued.head
      have pops : streamFifoPop r.fifo =
          .ok (none, { r.fifo with count := sizePred r.fifo.count }) := by
        simp only [streamFifoPop, head, pure_ok, ok_bind]
      have zero : r.fifo.count = 0 := queued.count
      rw [fifoExec, pops] at runs
      cases runs
      refine iff_of_false (fun right' => ?_) (not_not_intro pushed.symm)
      have count := right'.count
      simp [← pushed, zero, sizePred] at count
  | cons cell cells =>
      obtain ⟨fifo', pops, queued', -⟩ := queued.pop
      rw [fifoExec, pops] at runs
      cases runs
      refine iff_of_true (right_of_queued bounded queued' ?_ ?_) ?_
      · rw [← pushed]
        rfl
      · rw [← pushed]
        rfl
      · rw [FifoRun.Careful, ← pushed]
        simp

theorem clean_right (bounded : r'.Bounded) (right : r.Right) (runs : fifoExec .clean r = .ok r') :
    r'.Right := by
  rw [fifoExec, streamFifoClean] at runs
  cases loop : cleanLoop r.fifo.brk r.fifo r.fifo.head with
  | error fault => simp [loop] at runs
  | ok mid =>
      simp only [loop, ok_bind, pure_ok] at runs
      cases runs
      have queued : StreamFifo.Queued { mid with head := none, tail := none, count := 0 } [] :=
        ⟨trivial, rfl, rfl, List.nodup_nil, rfl⟩
      exact right_of_queued bounded queued rfl right.answered

end Steps

theorem start_right {r : FifoRun} (start : fifoSystem.start r) : r.Right := by
  have bounded := bounded_of_reachable (.start start)
  obtain ⟨nodes, brk, live, small, rfl⟩ := start
  have queued : StreamFifo.Queued { streamFifoNew with nodes := nodes, brk := brk } [] :=
    ⟨trivial, rfl, rfl, List.nodup_nil, rfl⟩
  exact right_of_queued bounded queued rfl rfl

/-- The queue is right throughout a run exactly if each operation is careful. -/
theorem queue_right_iff {r : FifoRun} (start : fifoSystem.start r) (ops : List FifoOp) :
    fifoSystem.Every FifoRun.Right ops r ↔ fifoSystem.Each FifoRun.Careful ops r := by
  refine Runs.System.Reachable.every_iff ?_ (.start start) (start_right start) ops
  intro r op r' reachable right guard runs
  have bounded := (fifoExec_kept runs).bounded (bounded_of_reachable reachable)
  cases op with
  | push s => exact push_right_iff bounded right guard runs
  | pop => exact pop_right_iff bounded right runs
  | clean => exact iff_of_true (clean_right bounded right runs) trivial

/-- A memory of two streams and a queue of none. -/
def twoStreams : FifoRun where
  fifo := { streamFifoNew with
    nodes := fun p => if p = 1 ∨ p = 2 then some ⟨none, received []⟩ else none
    brk := 3 }
  pushed := []
  answer := none
  oldest := none

theorem twoStreams_start : fifoSystem.start twoStreams := by
  refine ⟨_, _, ?_, by simp, rfl⟩
  intro p live
  split at live
  · omega
  · cases live

theorem queue_right_sample :
    fifoSystem.Every FifoRun.Right [.push 1, .push 2, .pop, .clean] twoStreams := by
  apply (queue_right_iff twoStreams_start _).mpr
  intro first _ runs
  cases runs
  refine ⟨rfl, fun second _ runs => ?_⟩
  cases runs
  refine ⟨rfl, fun third _ runs => ?_⟩
  cases runs
  refine ⟨List.cons_ne_nil 1 [2], fun last _ runs => ⟨trivial, ?_⟩⟩
  trivial

/-- The counter of an empty queue that is popped wraps around. -/
theorem empty_pop_wraps :
    ¬ ∀ r, fifoSystem.start r → ∀ ops, fifoSystem.Every FifoRun.Right ops r := by
  intro all
  have popped := ((all twoStreams twoStreams_start [.pop]).2 _ trivial rfl).count
  simp [twoStreams, streamFifoNew, sizePred] at popped

end Poplar
