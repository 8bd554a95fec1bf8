import Mempool.Model.Run

/-!
# `Spec/Lifo.lean` — what a pool is for

A pool is `N` equal blocks at `blocksStart + i * blockSize`, handed out last-freed-first. Its
whole state, as a client can observe it, is the stack `S` of free block indices, top first:
`mempool_init` and `mempool_reset` set it to `[N-1, ..., 1, 0]`, `mempool_alloc` pops, and
`mempool_free` of a block that is not on the stack pushes it. Nothing here mentions memory,
bitmaps or `uint32_t`; `Proof/Refinement.lean` shows the code computes exactly this.

The geometry is a `Geometry`, fixed at init. A pointer names block `i` when it is
`blocksStart + i * blockSize` with `i < totalBlocks` (`Geometry.indexOf`); every other non-`NULL`
pointer is `MEMPOOL_ERR_INVALID_BLOCK` to `free`.
-/

set_option autoImplicit false

namespace Mempool

/-- Where block 0 starts, the stride between blocks, and how many there are. -/
structure Geometry where
  blocksStart : Nat
  blockSize : Nat
  totalBlocks : Nat
  deriving DecidableEq, Repr

namespace Geometry

variable (g : Geometry)

/-- The address of block `i`. -/
def addr (i : Nat) : Nat := g.blocksStart + i * g.blockSize

/-- The block a pointer names, if it names one. -/
def indexOf (p : Nat) : Option Nat :=
  if g.blocksStart ≤ p ∧ (p - g.blocksStart) % g.blockSize = 0 ∧
      (p - g.blocksStart) / g.blockSize < g.totalBlocks
  then some ((p - g.blocksStart) / g.blockSize) else none

variable {g}

theorem indexOf_eq_some_iff (hpos : 0 < g.blockSize) {p i : Nat} :
    g.indexOf p = some i ↔ i < g.totalBlocks ∧ p = g.addr i := by
  unfold indexOf addr
  constructor
  · intro h
    split at h
    · rename_i hp
      obtain ⟨h₁, h₂, h₃⟩ := hp
      cases h
      refine ⟨h₃, ?_⟩
      have := Nat.div_add_mod (p - g.blocksStart) g.blockSize
      rw [h₂, Nat.mul_comm] at this
      omega
    · cases h
  · rintro ⟨hi, rfl⟩
    rw [Nat.add_sub_cancel_left, Nat.mul_div_cancel _ hpos, Nat.mul_mod_left, if_pos]
    exact ⟨Nat.le_add_right _ _, rfl, hi⟩

theorem indexOf_addr (hpos : 0 < g.blockSize) {i : Nat} (hi : i < g.totalBlocks) :
    g.indexOf (g.addr i) = some i :=
  (indexOf_eq_some_iff hpos).2 ⟨hi, rfl⟩

theorem addr_injective (hpos : 0 < g.blockSize) : Function.Injective g.addr := fun i j h =>
  Nat.eq_of_mul_eq_mul_right hpos (by simp only [addr] at h; omega)

end Geometry

namespace Lifo

variable (g : Geometry)

/-- The free stack after `mempool_init` or `mempool_reset`: `[N-1, ..., 1, 0]`. -/
def fresh : List Nat := (List.range g.totalBlocks).reverse

/-- One call on the abstract pool. -/
def step (S : List Nat) : Call → Answer × List Nat
  | .alloc block =>
    if block = 0 then (.code .errNullPtr, S)
    else match S with
      | [] => (.code .errOutOfMemory, [])
      | i :: S => (.block (g.addr i), S)
  | .free p =>
    if p = 0 then (.code .errNullPtr, S)
    else match g.indexOf p with
      | none => (.code .errInvalidBlock, S)
      | some i => if i ∈ S then (.code .errDoubleFree, S) else (.code .ok, i :: S)
  | .reset => (.code .ok, fresh g)
  | .getStats stats => (.code (if stats = 0 then .errNullPtr else .ok), S)
  | .contains p => (.member (p != 0 && decide (g.blocksStart ≤ p ∧ p < g.addr g.totalBlocks)), S)
  | .setSync _ _ _ => (.code .ok, S)

/-- The stack after a sequence of calls (the most recent first) made on a fresh pool. -/
def run : List Call → List Nat
  | [] => fresh g
  | c :: cs => (step g (run cs) c).2

/-- The answers to a sequence of calls, the most recent first. -/
def answers : List Call → List Answer
  | [] => []
  | c :: cs => (step g (run g cs) c).1 :: answers cs

/-! ## The stack discipline

These are the observable consequences of the model: the free stack only ever holds distinct
blocks below `N`, allocation from a fresh stack goes down from block `N - 1` (`take_fresh`), and
a block freed is the next one allocated (`alloc_after_free`). `Proof/Refinement.lean` carries the
last two over to the code. -/

/-- The stack only ever holds distinct blocks below `N`. -/
structure Valid (S : List Nat) : Prop where
  nodup : S.Nodup
  lt : ∀ i ∈ S, i < g.totalBlocks

variable {g}

theorem fresh_valid : Valid g (fresh g) :=
  ⟨List.nodup_reverse.2 (List.nodup_range _), fun i hi => by simpa [fresh] using hi⟩

theorem step_valid (hpos : 0 < g.blockSize) {S : List Nat} (hS : Valid g S) (c : Call) :
    Valid g (step g S c).2 := by
  cases c with
  | alloc block =>
    simp only [step]
    split
    · exact hS
    · cases S with
      | nil => exact hS
      | cons i S =>
        exact ⟨(List.nodup_cons.1 hS.nodup).2, fun j hj => hS.lt j (List.mem_cons_of_mem _ hj)⟩
  | free p =>
    simp only [step]
    split
    · exact hS
    · split
      · exact hS
      · rename_i i hidx
        split
        · exact hS
        · rename_i hiS
          refine ⟨List.nodup_cons.2 ⟨hiS, hS.nodup⟩, fun j hj => ?_⟩
          rcases List.mem_cons.1 hj with rfl | hj
          · exact ((Geometry.indexOf_eq_some_iff hpos).1 hidx).1
          · exact hS.lt j hj
  | reset => exact fresh_valid
  | getStats _ => exact hS
  | contains _ => exact hS
  | setSync _ _ _ => exact hS

theorem run_valid (hpos : 0 < g.blockSize) (cs : List Call) : Valid g (run g cs) := by
  induction cs with
  | nil => exact fresh_valid
  | cons c cs ih => exact step_valid hpos ih c

/-- The top `n` blocks of a fresh stack are `N-1, N-2, ..., N-n`: allocation from a fresh pool goes
down from the last block. -/
theorem take_fresh {n : Nat} (hn : n ≤ g.totalBlocks) :
    (fresh g).take n = (List.range n).map fun j => g.totalBlocks - 1 - j := by
  apply List.ext_getElem
  · simp [fresh, hn]
  · intro j h₁ h₂
    simp only [fresh, List.getElem_take, List.getElem_reverse, List.getElem_range,
      List.getElem_map, List.length_range]

/-- A block just freed is the next one allocated, and allocating it restores the stack. -/
theorem alloc_after_free {S : List Nat} {p block : Nat} (hb : block ≠ 0)
    (hp : 0 < g.blockSize) (hok : (step g S (.free p)).1 = .code .ok) :
    step g (step g S (.free p)).2 (.alloc block) = (.block p, S) := by
  simp only [step] at hok ⊢
  split at hok
  · cases hok
  · rename_i hp0
    split at hok
    · cases hok
    · rename_i i hidx
      split at hok
      · cases hok
      · rename_i hiS
        simp only [if_neg hp0, hidx, if_neg hiS, if_neg hb]
        rw [((Geometry.indexOf_eq_some_iff hp).1 hidx).2]

/-! ## What the client holds

`outstanding` reads the blocks a client holds off its history. On a history whose answers are the
abstract pool's, it is exactly the blocks not on the stack, each once: no block is handed out
twice, and none is lost. -/

/-- The client holds `out`: each block not on the stack `S`, once, and nothing else. -/
structure Held (g : Geometry) (S out : List Nat) : Prop where
  nodup : out.Nodup
  mem_iff : ∀ p, p ∈ out ↔ ∃ i < g.totalBlocks, i ∉ S ∧ p = g.addr i
  length_eq : out.length + S.length = g.totalBlocks

theorem fresh_held : Held g (fresh g) [] := by
  refine ⟨List.nodup_nil, fun p => ⟨fun h => absurd h (List.not_mem_nil _), ?_⟩, by simp [fresh]⟩
  rintro ⟨i, hi, hiS, -⟩
  exact absurd (by simpa [fresh] using hi) hiS

/-- One call keeps `Held`, whatever it answers, as long as it answers what the abstract pool does. -/
theorem held_step (hpos : 0 < g.blockSize) {S : List Nat} {h : History} (hS : Valid g S)
    (hh : Held g S (outstanding h)) (c : Call) (r : Reply) (hr : r.answer = (step g S c).1) :
    Held g (step g S c).2 (outstanding ((c, r) :: h)) := by
  -- a call that leaves both the stack and the holdings alone
  have same : outstanding ((c, r) :: h) = outstanding h → (step g S c).2 = S →
      Held g (step g S c).2 (outstanding ((c, r) :: h)) := fun h₁ h₂ => by rw [h₁, h₂]; exact hh
  cases c with
  | alloc block =>
    by_cases hb : block = 0
    · have hst : step g S (.alloc block) = (.code .errNullPtr, S) := by simp [step, hb]
      rw [hst] at hr
      exact same (by simp only [outstanding, hr]) (by rw [hst])
    cases S with
    | nil =>
      have hst : step g [] (.alloc block) = (.code .errOutOfMemory, []) := by simp [step, hb]
      rw [hst] at hr
      exact same (by simp only [outstanding, hr]) (by rw [hst])
    | cons i S =>
      have hst : step g (i :: S) (.alloc block) = (.block (g.addr i), S) := by simp [step, hb]
      rw [hst] at hr ⊢
      simp only [outstanding, hr]
      obtain ⟨hiS, hnd⟩ := List.nodup_cons.1 hS.nodup
      have hi := hS.lt i (List.mem_cons_self _ _)
      refine ⟨List.nodup_cons.2 ⟨fun hmem => ?_, hh.nodup⟩, fun p => ?_, ?_⟩
      · obtain ⟨j, -, hj, hij⟩ := (hh.mem_iff _).1 hmem
        exact hj (Geometry.addr_injective hpos hij ▸ List.mem_cons_self _ _)
      · rw [List.mem_cons, hh.mem_iff]
        constructor
        · rintro (rfl | ⟨j, hj, hjS, rfl⟩)
          · exact ⟨i, hi, hiS, rfl⟩
          · exact ⟨j, hj, fun h => hjS (List.mem_cons_of_mem _ h), rfl⟩
        · rintro ⟨j, hj, hjS, rfl⟩
          by_cases hji : j = i
          · exact .inl (by rw [hji])
          · exact .inr ⟨j, hj, by simp [hji, hjS], rfl⟩
      · have := hh.length_eq
        simp only [List.length_cons] at this ⊢
        omega
  | free p =>
    by_cases hp : p = 0
    · have hst : step g S (.free p) = (.code .errNullPtr, S) := by simp [step, hp]
      rw [hst] at hr
      exact same (by simp only [outstanding, hr]) (by rw [hst])
    cases hidx : g.indexOf p with
    | none =>
      have hst : step g S (.free p) = (.code .errInvalidBlock, S) := by simp [step, hp, hidx]
      rw [hst] at hr
      exact same (by simp only [outstanding, hr]) (by rw [hst])
    | some i =>
      obtain ⟨hi, rfl⟩ := (Geometry.indexOf_eq_some_iff hpos).1 hidx
      by_cases hiS : i ∈ S
      · have hst : step g S (.free (g.addr i)) = (.code .errDoubleFree, S) := by
          simp [step, hp, hidx, hiS]
        rw [hst] at hr
        exact same (by simp only [outstanding, hr]) (by rw [hst])
      have hst : step g S (.free (g.addr i)) = (.code .ok, i :: S) := by simp [step, hp, hidx, hiS]
      rw [hst] at hr ⊢
      simp only [outstanding, hr]
      have hmem : g.addr i ∈ outstanding h := (hh.mem_iff _).2 ⟨i, hi, hiS, rfl⟩
      refine ⟨hh.nodup.erase _, fun q => ?_, ?_⟩
      swap
      · have := hh.length_eq
        have := List.length_erase_of_mem hmem
        have := List.length_pos_of_mem hmem
        simp only [List.length_cons] at *
        omega
      rw [hh.nodup.mem_erase_iff, hh.mem_iff]
      constructor
      · rintro ⟨hq, j, hj, hjS, rfl⟩
        have hji : j ≠ i := fun e => hq (by rw [e])
        exact ⟨j, hj, by simp [hji, hjS], rfl⟩
      · rintro ⟨j, hj, hjS, rfl⟩
        have hji : j ≠ i := fun e => hjS (by simp [e])
        exact ⟨fun e => hji (Geometry.addr_injective hpos e), j, hj,
          fun h => hjS (List.mem_cons_of_mem _ h), rfl⟩
  | reset =>
    have hst : step g S .reset = (.code .ok, fresh g) := rfl
    rw [hst] at hr ⊢
    simp only [outstanding, hr]
    exact fresh_held
  | getStats stats =>
    refine same ?_ rfl
    by_cases hs : stats = 0 <;> simp [step, hs] at hr <;> simp only [outstanding, hr]
  | contains q => exact same (by simp only [step] at hr; simp only [outstanding, hr]) rfl
  | setSync lock unlock userCtx =>
    exact same (by simp only [step] at hr; simp only [outstanding, hr]) rfl

/-- On every history whose answers are the abstract pool's, the client holds exactly the blocks
not on the stack, each once. -/
theorem held_run (hpos : 0 < g.blockSize) :
    ∀ h : History, h.map (fun e => e.2.answer) = answers g (h.map Prod.fst) →
      Held g (run g (h.map Prod.fst)) (outstanding h)
  | [], _ => fresh_held
  | (c, r) :: h, hans => by
    simp only [List.map_cons, answers, List.cons.injEq] at hans
    exact held_step hpos (run_valid hpos _) (held_run hpos h hans.2) c r hans.1

/-- A free the abstract pool accepts names a block off the stack. -/
theorem free_ok_inv (hpos : 0 < g.blockSize) {S : List Nat} {p : Nat}
    (hok : (step g S (.free p)).1 = .code .ok) : ∃ i < g.totalBlocks, i ∉ S ∧ p = g.addr i := by
  simp only [step] at hok
  split at hok
  · cases hok
  · split at hok
    · cases hok
    · rename_i i hidx
      split at hok
      · cases hok
      · obtain ⟨hi, rfl⟩ := (Geometry.indexOf_eq_some_iff hpos).1 hidx
        exact ⟨i, hi, ‹_›, rfl⟩

/-- Since the last reset, successful allocations are successful frees plus the blocks held. -/
theorem counts_run (hpos : 0 < g.blockSize) :
    ∀ h : History, h.map (fun e => e.2.answer) = answers g (h.map Prod.fst) →
      allocsSinceReset h = freesSinceReset h + (outstanding h).length
  | [], _ => rfl
  | (c, r) :: h, hans => by
    simp only [List.map_cons, answers, List.cons.injEq] at hans
    have ih := counts_run hpos h hans.2
    have hh := held_run hpos h hans.2
    cases c with
    | free p =>
      simp only [allocsSinceReset, freesSinceReset, outstanding]
      cases hra : r.answer with
      | code e =>
        cases e with
        | ok =>
          obtain ⟨i, hi, hiS, rfl⟩ := free_ok_inv hpos (hans.1 ▸ hra)
          have hmem : g.addr i ∈ outstanding h := (hh.mem_iff _).2 ⟨i, hi, hiS, rfl⟩
          have := List.length_erase_of_mem hmem
          have := List.length_pos_of_mem hmem
          simp only
          omega
        | _ => exact ih
      | _ => exact ih
    | alloc b =>
      simp only [allocsSinceReset, freesSinceReset, outstanding]
      cases hra : r.answer with
      | block p => simp only [List.length_cons]; omega
      | _ => exact ih
    | reset =>
      simp only [allocsSinceReset, freesSinceReset, outstanding]
      cases hra : r.answer with
      | code e => cases e <;> first | rfl | exact ih
      | _ => exact ih
    | _ => exact ih

end Lifo

end Mempool
