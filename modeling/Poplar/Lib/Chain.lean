import Mathlib

/-!
# Intrusive doubly linked chains

Cells of any type carry a next and a previous link. A finite list of addresses
represents a chain when the two links of each cell name its neighbours in the
list. The chain operations only rewrite links, so every payload of a cell is
untouched, and a chain that shares no cell with the one worked on survives.
-/
namespace Chain

/-- A cell type with two link fields. -/
class Linked (α : Type) where
  next : α → Option Nat
  prev : α → Option Nat
  setNext : α → Option Nat → α
  setPrev : α → Option Nat → α
  next_setNext : ∀ a o, next (setNext a o) = o
  prev_setNext : ∀ a o, prev (setNext a o) = prev a
  next_setPrev : ∀ a o, next (setPrev a o) = next a
  prev_setPrev : ∀ a o, prev (setPrev a o) = o

/-- Cells by address; `none` is the null link, so every address is a cell. -/
abbrev Heap (α : Type) := Nat → α

variable {α : Type} [Linked α]

def next (h : Heap α) (p : Nat) : Option Nat := Linked.next (h p)
def prev (h : Heap α) (p : Nat) : Option Nat := Linked.prev (h p)

/-- `p->next = o` -/
def setNext (h : Heap α) (p : Nat) (o : Option Nat) : Heap α :=
  Function.update h p (Linked.setNext (h p) o)

/-- `p->prev = o` -/
def setPrev (h : Heap α) (p : Nat) (o : Option Nat) : Heap α :=
  Function.update h p (Linked.setPrev (h p) o)

@[simp] theorem next_setNext (h : Heap α) (p q : Nat) (o : Option Nat) :
    next (setNext h p o) q = if q = p then o else next h q := by
  by_cases same : q = p
  · subst same; simp [next, setNext, Linked.next_setNext]
  · simp [next, setNext, same]

@[simp] theorem prev_setNext (h : Heap α) (p q : Nat) (o : Option Nat) :
    prev (setNext h p o) q = prev h q := by
  by_cases same : q = p
  · subst same; simp [prev, setNext, Linked.prev_setNext]
  · simp [prev, setNext, same]

@[simp] theorem next_setPrev (h : Heap α) (p q : Nat) (o : Option Nat) :
    next (setPrev h p o) q = next h q := by
  by_cases same : q = p
  · subst same; simp [next, setPrev, Linked.next_setPrev]
  · simp [next, setPrev, same]

@[simp] theorem prev_setPrev (h : Heap α) (p q : Nat) (o : Option Nat) :
    prev (setPrev h p o) q = if q = p then o else prev h q := by
  by_cases same : q = p
  · subst same; simp [prev, setPrev, Linked.prev_setPrev]
  · simp [prev, setPrev, same]

/-- A payload: what neither link write of a cell changes. -/
structure Blind {β : Type} (g : α → β) : Prop where
  keepNext : ∀ a o, g (Linked.setNext a o) = g a
  keepPrev : ∀ a o, g (Linked.setPrev a o) = g a

theorem Blind.setNext {β : Type} {g : α → β} (blind : Blind g) (h : Heap α) (p q : Nat)
    (o : Option Nat) : g (setNext h p o q) = g (h q) := by
  by_cases same : q = p
  · subst same; simp [Chain.setNext, blind.keepNext]
  · simp [Chain.setNext, same]

theorem Blind.setPrev {β : Type} {g : α → β} (blind : Blind g) (h : Heap α) (p q : Nat)
    (o : Option Nat) : g (setPrev h p o q) = g (h q) := by
  by_cases same : q = p
  · subst same; simp [Chain.setPrev, blind.keepPrev]
  · simp [Chain.setPrev, same]

/-- The cells of `ps` are linked in this order, from `before` to `after`. -/
def Seg (h : Heap α) (before after : Option Nat) : List Nat → Prop
  | [] => True
  | p :: ps => prev h p = before ∧ next h p = ps.head?.or after ∧ Seg h (some p) after ps

theorem seg_append (h : Heap α) (before after : Option Nat) (xs ys : List Nat) :
    Seg h before after (xs ++ ys) ↔
      Seg h before (ys.head?.or after) xs ∧ Seg h (xs.getLast?.or before) after ys := by
  induction xs generalizing before with
  | nil => simp [Seg]
  | cons x xs ih =>
      simp only [List.cons_append, Seg, ih, and_assoc]
      cases xs with
      | nil => simp
      | cons y ys' => simp [List.getLast?_eq_some_getLast]

theorem Seg.congr {h h' : Heap α} {before after : Option Nat} {ps : List Nat}
    (seg : Seg h before after ps) (links : ∀ p ∈ ps, next h' p = next h p ∧ prev h' p = prev h p) :
    Seg h' before after ps := by
  induction ps generalizing before with
  | nil => trivial
  | cons p ps ih =>
      obtain ⟨hprev, hnext, rest⟩ := seg
      obtain ⟨sameNext, samePrev⟩ := links p (by simp)
      exact ⟨samePrev.trans hprev, sameNext.trans hnext,
        ih rest fun q member => links q (List.mem_cons_of_mem p member)⟩

/-- Only the next link of the last cell moves. -/
theorem Seg.retarget_after {h h' : Heap α} {before after after' : Option Nat} {ps : List Nat}
    (seg : Seg h before after ps)
    (keepPrev : ∀ p ∈ ps, prev h' p = prev h p)
    (keepNext : ∀ p ∈ ps, ps.getLast? ≠ some p → next h' p = next h p)
    (last : ∀ p, ps.getLast? = some p → next h' p = after') (nodup : ps.Nodup) :
    Seg h' before after' ps := by
  induction ps generalizing before with
  | nil => trivial
  | cons p ps ih =>
      obtain ⟨hprev, hnext, rest⟩ := seg
      obtain ⟨fresh, nodupRest⟩ := List.nodup_cons.mp nodup
      cases ps with
      | nil => exact ⟨(keepPrev p (by simp)).trans hprev, by simpa using last p (by simp), trivial⟩
      | cons q qs =>
          have lastMem : (q :: qs).getLast? ≠ some p := fun eq =>
            fresh (List.mem_of_getLast? eq)
          refine ⟨(keepPrev p (by simp)).trans hprev, ?_, ?_⟩
          · have kept := keepNext p (by simp) (by rwa [List.getLast?_cons_cons])
            simpa using kept.trans hnext
          · refine ih rest (fun r member => keepPrev r (List.mem_cons_of_mem p member)) ?_ ?_ nodupRest
            · intro r member notLast
              exact keepNext r (List.mem_cons_of_mem p member) (by rwa [List.getLast?_cons_cons])
            · intro r isLast
              exact last r (by rwa [List.getLast?_cons_cons])

/-- Only the previous link of the first cell moves. -/
theorem Seg.retarget_before {h h' : Heap α} {before before' after : Option Nat} {ps : List Nat}
    (seg : Seg h before after ps)
    (keepNext : ∀ p ∈ ps, next h' p = next h p)
    (keepPrev : ∀ p ∈ ps, ps.head? ≠ some p → prev h' p = prev h p)
    (first : ∀ p, ps.head? = some p → prev h' p = before') (nodup : ps.Nodup) :
    Seg h' before' after ps := by
  cases ps with
  | nil => trivial
  | cons p ps =>
      obtain ⟨_, hnext, rest⟩ := seg
      obtain ⟨fresh, _⟩ := List.nodup_cons.mp nodup
      refine ⟨first p rfl, (keepNext p (by simp)).trans hnext, rest.congr ?_⟩
      intro q member
      have different : p ≠ q := fun same => fresh (same ▸ member)
      exact ⟨keepNext q (List.mem_cons_of_mem p member),
        keepPrev q (List.mem_cons_of_mem p member) (by simpa using different)⟩

/-- `head` and `tail` bound the chain of exactly the cells `ps`, in this order. -/
structure Holds (h : Heap α) (head tail : Option Nat) (ps : List Nat) : Prop where
  head : head = ps.head?
  tail : tail = ps.getLast?
  seg : Seg h none none ps
  nodup : ps.Nodup

theorem holds_nil (h : Heap α) : Holds h none none [] :=
  ⟨rfl, rfl, trivial, List.nodup_nil⟩

theorem holds_single {h : Heap α} {p : Nat} :
    Holds h (some p) (some p) [p] ↔ next h p = none ∧ prev h p = none := by
  constructor
  · intro holds
    obtain ⟨hprev, hnext, _⟩ := holds.seg
    exact ⟨hnext, hprev⟩
  · intro ⟨hnext, hprev⟩
    exact ⟨rfl, rfl, ⟨hprev, hnext, trivial⟩, List.nodup_singleton p⟩

theorem Holds.congr {h h' : Heap α} {head tail : Option Nat} {ps : List Nat}
    (holds : Holds h head tail ps)
    (links : ∀ p ∈ ps, next h' p = next h p ∧ prev h' p = prev h p) : Holds h' head tail ps :=
  ⟨holds.head, holds.tail, holds.seg.congr links, holds.nodup⟩

/-- Link `p` in behind the tail. -/
def append (h : Heap α) (tail : Option Nat) (p : Nat) : Heap α :=
  let h := setPrev (setNext h p none) p tail
  match tail with
  | some t => setNext h t (some p)
  | none => h

/-- Link `p` in before the cell `q`. -/
def insertBefore (h : Heap α) (q p : Nat) : Heap α :=
  let h := setNext h p (some q)
  let h := setPrev h p (prev h q)
  let h := match prev h q with
    | some r => setNext h r (some p)
    | none => h
  setPrev h q (some p)

/-- Take `p` out and null its links. -/
def unlink (h : Heap α) (p : Nat) : Heap α :=
  let h := match next h p with
    | some n => setPrev h n (prev h p)
    | none => h
  let h := match prev h p with
    | some r => setNext h r (next h p)
    | none => h
  setPrev (setNext h p none) p none

theorem append_next (h : Heap α) (tail : Option Nat) (p q : Nat) (different : tail ≠ some p) :
    next (append h tail p) q =
      if q = p then none else if tail = some q then some p else next h q := by
  cases tail with
  | none => by_cases same : q = p <;> simp [append, same]
  | some t =>
      have apart : p ≠ t := fun same => different (congrArg some same.symm)
      by_cases same : q = p
      · subst same; simp [append, apart]
      · by_cases atTail : q = t
        · subst atTail; simp [append, same]
        · simp [append, same, atTail, Ne.symm atTail]

theorem append_prev (h : Heap α) (tail : Option Nat) (p q : Nat) :
    prev (append h tail p) q = if q = p then tail else prev h q := by
  cases tail <;> simp [append]

theorem Holds.append {h : Heap α} {head tail : Option Nat} {ps : List Nat}
    (holds : Holds h head tail ps) {p : Nat} (fresh : p ∉ ps) :
    Holds (append h tail p) (head.or (some p)) (some p) (ps ++ [p]) := by
  have apart : tail ≠ some p := fun same =>
    fresh (List.mem_of_getLast? (holds.tail.symm.trans same))
  refine ⟨?_, by simp, ?_, ?_⟩
  · rw [holds.head]; cases ps <;> rfl
  · refine (seg_append _ _ _ _ _).mpr ⟨?_, ?_⟩
    · refine holds.seg.retarget_after ?_ ?_ ?_ holds.nodup
      · intro q member
        have different : q ≠ p := fun same => fresh (same ▸ member)
        simp [append_prev, different]
      · intro q member notLast
        have different : q ≠ p := fun same => fresh (same ▸ member)
        rw [append_next _ _ _ _ apart, if_neg different, if_neg (holds.tail ▸ notLast)]
      · intro q isLast
        have different : q ≠ p := fun same => fresh (same ▸ List.mem_of_getLast? isLast)
        rw [append_next _ _ _ _ apart, if_neg different, if_pos (holds.tail.trans isLast)]
        rfl
    · refine ⟨?_, ?_, trivial⟩
      · simp [append_prev, holds.tail]
      · simp [append_next _ _ _ _ apart]
  · exact List.nodup_append.mpr ⟨holds.nodup, by simp, by
      intro a member b same
      rw [List.mem_singleton] at same
      exact fun eq => fresh (same ▸ eq ▸ member)⟩

/-- The links of the cell between `xs` and `ys`. -/
theorem Holds.middle {h : Heap α} {head tail : Option Nat} {xs ys : List Nat} {p : Nat}
    (holds : Holds h head tail (xs ++ p :: ys)) :
    prev h p = xs.getLast? ∧ next h p = ys.head? := by
  obtain ⟨_, hprev, hnext, _⟩ := (seg_append _ _ _ _ _).mp holds.seg
  exact ⟨by simpa using hprev, by simpa using hnext⟩

theorem Holds.apart {h : Heap α} {head tail : Option Nat} {xs ys : List Nat} {p : Nat}
    (holds : Holds h head tail (xs ++ p :: ys)) :
    p ∉ xs ∧ p ∉ ys ∧ xs.Nodup ∧ ys.Nodup ∧ ∀ q ∈ xs, q ∉ ys := by
  obtain ⟨left, right, disjoint⟩ := List.nodup_append.mp holds.nodup
  obtain ⟨fresh, nodup⟩ := List.nodup_cons.mp right
  exact ⟨fun member => disjoint p member p (by simp) rfl, fresh, left, nodup,
    fun q member later => disjoint q member q (List.mem_cons_of_mem p later) rfl⟩

theorem insertBefore_next (h : Heap α) (p q r : Nat) (apart : prev h q ≠ some p)
    (different : p ≠ q) :
    next (insertBefore h q p) r =
      if r = p then some q else if prev h q = some r then some p else next h r := by
  unfold insertBefore
  cases hprev : prev h q with
  | none => by_cases same : r = p <;> simp [hprev, same]
  | some t =>
      have other : p ≠ t := fun same => apart (hprev.trans (congrArg some same.symm))
      by_cases same : r = p
      · subst same; simp [hprev, other]
      · by_cases atPrev : r = t
        · subst atPrev; simp [hprev, same]
        · simp [hprev, same, atPrev, Ne.symm atPrev]

theorem insertBefore_prev (h : Heap α) (p q r : Nat) :
    prev (insertBefore h q p) r =
      if r = q then some p else if r = p then prev h q else prev h r := by
  unfold insertBefore
  cases hprev : prev h q with
  | none => simp [hprev]
  | some t => simp [hprev]

theorem Holds.insertBefore {h : Heap α} {head tail : Option Nat} {xs ys : List Nat} {p q : Nat}
    (holds : Holds h head tail (xs ++ q :: ys)) (fresh : p ∉ xs ++ q :: ys) :
    Holds (insertBefore h q p) (if prev h q = none then some p else head) tail
      (xs ++ p :: q :: ys) := by
  obtain ⟨hprev, _⟩ := holds.middle
  obtain ⟨notXs, notYs, nodupXs, nodupYs, disjoint⟩ := holds.apart
  obtain ⟨segXs, _, nextQ, segYs⟩ := (seg_append _ _ _ _ _).mp holds.seg
  simp only [List.mem_append, List.mem_cons, not_or] at fresh
  obtain ⟨freshXs, different, freshYs⟩ := fresh
  have apart : prev h q ≠ some p := by
    rw [hprev]; exact fun same => freshXs (List.mem_of_getLast? same)
  refine ⟨?_, ?_, ?_, ?_⟩
  · rw [hprev, holds.head]
    cases xs with
    | nil => simp
    | cons x xs => simp [List.getLast?_eq_some_getLast]
  · rw [holds.tail]; simp [List.getLast?_append]
  · refine (seg_append _ _ _ _ _).mpr ⟨?_, ?_, ?_, ?_, ?_, ?_⟩
    · refine segXs.retarget_after ?_ ?_ ?_ nodupXs
      · intro r member
        have notQ : r ≠ q := fun same => notXs (same ▸ member)
        have notP : r ≠ p := fun same => freshXs (same ▸ member)
        simp [insertBefore_prev, notQ, notP]
      · intro r member notLast
        have notP : r ≠ p := fun same => freshXs (same ▸ member)
        rw [insertBefore_next _ _ _ _ apart different, if_neg notP, if_neg (hprev ▸ notLast)]
      · intro r isLast
        have notP : r ≠ p := fun same => freshXs (same ▸ List.mem_of_getLast? isLast)
        rw [insertBefore_next _ _ _ _ apart different, if_neg notP, if_pos (hprev.trans isLast)]
        rfl
    · simp [insertBefore_prev, different, hprev]
    · simp [insertBefore_next _ _ _ _ apart different]
    · simp [insertBefore_prev]
    · have notPrev : prev h q ≠ some q := by
        rw [hprev]; exact fun same => notXs (List.mem_of_getLast? same)
      rw [insertBefore_next _ _ _ _ apart different, if_neg (Ne.symm different), if_neg notPrev,
        nextQ]
    · refine segYs.congr fun r member => ?_
      have notQ : r ≠ q := fun same => notYs (same ▸ member)
      have notP : r ≠ p := fun same => freshYs (same ▸ member)
      have notPrev : prev h q ≠ some r := by
        rw [hprev]; exact fun same => disjoint r (List.mem_of_getLast? same) member
      exact ⟨by rw [insertBefore_next _ _ _ _ apart different, if_neg notP, if_neg notPrev],
        by simp [insertBefore_prev, notQ, notP]⟩
  · have moved : (p :: (xs ++ q :: ys)).Perm (xs ++ p :: q :: ys) := List.perm_middle.symm
    refine moved.nodup_iff.mp (List.nodup_cons.mpr ⟨?_, holds.nodup⟩)
    simp [freshXs, different, freshYs]

theorem unlink_next (h : Heap α) (p r : Nat) :
    next (unlink h p) r =
      if r = p then none else if prev h p = some r then next h p else next h r := by
  unfold unlink
  cases hnext : next h p <;> cases hprev : prev h p <;> by_cases same : r = p <;>
    simp [hnext, hprev, same, eq_comm]

theorem unlink_prev (h : Heap α) (p r : Nat) (apart : next h p ≠ some p) :
    prev (unlink h p) r =
      if r = p then none else if next h p = some r then prev h p else prev h r := by
  unfold unlink
  cases hnext : next h p with
  | none => cases hprev : prev h p <;> by_cases same : r = p <;> simp [hprev, same]
  | some n =>
      have other : p ≠ n := fun same => apart (hnext.trans (congrArg some same.symm))
      cases hprev : prev h p <;> by_cases same : r = p <;>
        simp [hprev, same, other, eq_comm]

theorem Holds.unlink {h : Heap α} {head tail : Option Nat} {xs ys : List Nat} {p : Nat}
    (holds : Holds h head tail (xs ++ p :: ys)) :
    Holds (unlink h p) (if prev h p = none then next h p else head)
      (if next h p = none then prev h p else tail) (xs ++ ys) := by
  obtain ⟨hprev, hnext⟩ := holds.middle
  obtain ⟨notXs, notYs, nodupXs, nodupYs, disjoint⟩ := holds.apart
  obtain ⟨segXs, _, _, segYs⟩ := (seg_append _ _ _ _ _).mp holds.seg
  have apartNext : next h p ≠ some p := by
    rw [hnext]; exact fun same => notYs (List.mem_of_mem_head? same)
  refine ⟨?_, ?_, ?_, ?_⟩
  · rw [hprev, hnext, holds.head]
    cases xs with
    | nil => simp
    | cons x xs => simp [List.getLast?_eq_some_getLast]
  · rw [hprev, hnext, holds.tail]
    cases ys with
    | nil => simp
    | cons y ys => simp [List.getLast?_eq_some_getLast]
  · refine (seg_append _ _ _ _ _).mpr ⟨?_, ?_⟩
    · refine segXs.retarget_after ?_ ?_ ?_ nodupXs
      · intro r member
        have notP : r ≠ p := fun same => notXs (same ▸ member)
        have notNext : next h p ≠ some r := by
          rw [hnext]; exact fun same => disjoint r member (List.mem_of_mem_head? same)
        rw [unlink_prev _ _ _ apartNext, if_neg notP, if_neg notNext]
      · intro r member notLast
        have notP : r ≠ p := fun same => notXs (same ▸ member)
        rw [unlink_next, if_neg notP, if_neg (hprev ▸ notLast)]
      · intro r isLast
        have notP : r ≠ p := fun same => notXs (same ▸ List.mem_of_getLast? isLast)
        rw [unlink_next, if_neg notP, if_pos (hprev.trans isLast), hnext]
        simp
    · refine segYs.retarget_before ?_ ?_ ?_ nodupYs
      · intro r member
        have notP : r ≠ p := fun same => notYs (same ▸ member)
        have notPrev : prev h p ≠ some r := by
          rw [hprev]; exact fun same => disjoint r (List.mem_of_getLast? same) member
        rw [unlink_next, if_neg notP, if_neg notPrev]
      · intro r member notHead
        have notP : r ≠ p := fun same => notYs (same ▸ member)
        rw [unlink_prev _ _ _ apartNext, if_neg notP, if_neg (hnext ▸ notHead)]
      · intro r isHead
        have notP : r ≠ p := fun same => notYs (same ▸ List.mem_of_mem_head? isHead)
        rw [unlink_prev _ _ _ apartNext, if_neg notP, if_pos (hnext.trans isHead), hprev]
        simp
  · exact List.nodup_append.mpr ⟨nodupXs, nodupYs, fun a left b right same =>
      disjoint a left (same ▸ right)⟩

section Frame

variable {h : Heap α} {head tail : Option Nat} {ps qs : List Nat}

/-- A chain that shares no cell with the one appended to. -/
theorem Holds.append_frame (other : Holds h head tail qs) {last : Option Nat} {p : Nat}
    (apart : last ≠ some p) (notLast : ∀ q ∈ qs, last ≠ some q) (fresh : p ∉ qs) :
    Holds (Chain.append h last p) head tail qs := by
  refine other.congr fun q member => ?_
  have different : q ≠ p := fun same => fresh (same ▸ member)
  exact ⟨by rw [append_next _ _ _ _ apart, if_neg different, if_neg (notLast q member)],
    by rw [append_prev, if_neg different]⟩

theorem Holds.insertBefore_frame (other : Holds h head tail qs) {xs ys : List Nat} {p q : Nat}
    {first last : Option Nat} (holds : Holds h first last (xs ++ q :: ys))
    (fresh : p ∉ xs ++ q :: ys) (disjoint : ∀ r ∈ qs, r ∉ xs ++ q :: ys) (notP : p ∉ qs) :
    Holds (Chain.insertBefore h q p) head tail qs := by
  obtain ⟨hprev, _⟩ := holds.middle
  simp only [List.mem_append, List.mem_cons, not_or] at fresh disjoint
  have apart : prev h q ≠ some p := by
    rw [hprev]; exact fun same => fresh.1 (List.mem_of_getLast? same)
  refine other.congr fun r member => ?_
  obtain ⟨outXs, notQ, _⟩ := disjoint r member
  have different : r ≠ p := fun same => notP (same ▸ member)
  have notPrev : prev h q ≠ some r := by
    rw [hprev]; exact fun same => outXs (List.mem_of_getLast? same)
  exact ⟨by rw [insertBefore_next _ _ _ _ apart fresh.2.1, if_neg different, if_neg notPrev],
    by rw [insertBefore_prev, if_neg notQ, if_neg different]⟩

theorem Holds.unlink_frame (other : Holds h head tail qs) {xs ys : List Nat} {p : Nat}
    {first last : Option Nat} (holds : Holds h first last (xs ++ p :: ys))
    (disjoint : ∀ r ∈ qs, r ∉ xs ++ p :: ys) : Holds (Chain.unlink h p) head tail qs := by
  obtain ⟨hprev, hnext⟩ := holds.middle
  obtain ⟨_, notYs, _⟩ := holds.apart
  simp only [List.mem_append, List.mem_cons, not_or] at disjoint
  refine other.congr fun r member => ?_
  obtain ⟨outXs, different, outYs⟩ := disjoint r member
  have apartNext : next h p ≠ some p := by
    rw [hnext]; exact fun same => notYs (List.mem_of_mem_head? same)
  have notPrev : prev h p ≠ some r := by
    rw [hprev]; exact fun same => outXs (List.mem_of_getLast? same)
  have notNext : next h p ≠ some r := by
    rw [hnext]; exact fun same => outYs (List.mem_of_mem_head? same)
  exact ⟨by rw [unlink_next, if_neg different, if_neg notPrev],
    by rw [unlink_prev _ _ _ apartNext, if_neg different, if_neg notNext]⟩

end Frame

section Payload

variable {β : Type} {g : α → β}

theorem Blind.append (blind : Blind g) (h : Heap α) (tail : Option Nat) (p q : Nat) :
    g (append h tail p q) = g (h q) := by
  cases tail <;> simp [Chain.append, blind.setNext, blind.setPrev]

theorem Blind.insertBefore (blind : Blind g) (h : Heap α) (p q r : Nat) :
    g (insertBefore h q p r) = g (h r) := by
  unfold Chain.insertBefore
  cases hprev : prev h q <;> simp [hprev, blind.setNext, blind.setPrev]

theorem Blind.unlink (blind : Blind g) (h : Heap α) (p q : Nat) :
    g (unlink h p q) = g (h q) := by
  unfold Chain.unlink
  cases hnext : next h p <;> cases hprev : prev h p <;>
    simp [hprev, blind.setNext, blind.setPrev]

end Payload

/-- The cells met from `p` on, at most `fuel` of them. -/
def walk (h : Heap α) : Nat → Option Nat → List Nat
  | 0, _ => []
  | _ + 1, none => []
  | fuel + 1, some p => p :: walk h fuel (next h p)

theorem walk_seg {h : Heap α} {before : Option Nat} {ps : List Nat} (seg : Seg h before none ps)
    {fuel : Nat} (enough : ps.length ≤ fuel) : walk h fuel ps.head? = ps := by
  induction ps generalizing before fuel with
  | nil => cases fuel <;> rfl
  | cons p ps ih =>
      cases fuel with
      | zero => simp at enough
      | succ fuel =>
          obtain ⟨_, hnext, rest⟩ := seg
          simp only [List.head?_cons, walk, hnext, Option.or_none]
          rw [ih rest (Nat.le_of_succ_le_succ enough)]

theorem Holds.walk {h : Heap α} {head tail : Option Nat} {ps : List Nat}
    (holds : Holds h head tail ps) {fuel : Nat} (enough : ps.length ≤ fuel) :
    Chain.walk h fuel head = ps :=
  holds.head ▸ walk_seg holds.seg enough

end Chain
