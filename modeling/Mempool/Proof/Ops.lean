import Mempool.Proof.Rep
import Mempool.Spec.Lifo

/-!
# `Proof/Ops.lean` — one specification per operation

For each critical section, what it does to a state that represents a free stack `S`: the
result, the state after it written out, and that the state after it represents the stack the
operation should leave. `allocBody_cons` pops, `freeBody_blockAddr` pushes or reports a double
free, `resetBody_eq` rebuilds `[N-1, ..., 0]`. The later files never unfold an operation; they
cite these.
-/

set_option autoImplicit false

namespace Mempool

namespace Layout

variable {A : Arch} {p : Pool}

theorem afterAlloc (hl : Layout A p) (next : Nat) : Layout A (p.afterAlloc next) :=
  ⟨hl.initialized, hl.ptrSize_le, hl.bitmapBytes_eq, hl.bitmap_le, hl.start_pos, hl.end_lt,
    hl.aligned⟩

theorem afterFree (hl : Layout A p) (block : Nat) : Layout A (p.afterFree block) :=
  ⟨hl.initialized, hl.ptrSize_le, hl.bitmapBytes_eq, hl.bitmap_le, hl.start_pos, hl.end_lt,
    hl.aligned⟩

theorem afterReset (hl : Layout A p) (head : Nat) : Layout A (p.afterReset head) :=
  ⟨hl.initialized, hl.ptrSize_le, hl.bitmapBytes_eq, hl.bitmap_le, hl.start_pos, hl.end_lt,
    hl.aligned⟩

/-- The link word of block `i` and any byte of block `j ≠ i` lie apart. -/
theorem word_apart (hl : Layout A p) {i j t : Nat} (hij : i ≠ j) (ht : t < p.blockSize.toNat) :
    p.blockAddr j + t < p.blockAddr i ∨ p.blockAddr i + A.ptrSize ≤ p.blockAddr j + t := by
  have := hl.ptrSize_le
  rcases Nat.lt_or_gt_of_ne hij with h | h
  · have := @blockAddr_add_le p i j h; omega
  · have := @blockAddr_add_le p j i h; omega

/-- The bitmap `mempool_free` leaves after pushing block `i`, on any memory: the link word it
writes into block `i` lies above the bitmap, and the byte it stores clears bit `i` and no other. -/
theorem bitAt_freeStore (hl : Layout A p) {m : Mem} {i next j : Nat} (hi : i < p.totalBlocks.toNat)
    (hj : j < 8 * p.bitmapBytes.toNat) :
    bitAt (storeByte (storeWord A.ptrSize m (p.blockAddr i) next) (p.bitmap + i / 8)
        (m (p.bitmap + i / 8) &&& ~~~bitMask (UInt32.ofNat i % 8))) p.bitmap j =
      (bitAt m p.bitmap j && !decide (j = i)) := by
  have hword : ∀ k < p.bitmapBytes.toNat,
      storeWord A.ptrSize m (p.blockAddr i) next (p.bitmap + k) = m (p.bitmap + k) := fun k hk =>
    storeWord_apply_of_not_mem (.inl (hl.bitmap_lt_blockAddr hk i))
  rw [← hword _ (hl.div8_lt_bitmapBytes hi), bitAt_clearBit (Nat.lt_trans hi (u32_toNat_lt _)),
    bitAt_congr (hword _ (Nat.div_lt_of_lt_mul hj))]

end Layout

namespace Rep

variable {A : Arch} {s : State} {S : List Nat}

theorem freeList_eq_zero_iff (hr : Rep A s S) : s.pool.freeList = 0 ↔ S = [] := by
  rw [hr.chain.eq_zero_iff, List.map_eq_nil_iff]

theorem freeList_lt (hr : Rep A s S) : s.pool.freeList < A.modulus := by
  cases S with
  | nil => rw [hr.freeList_eq_zero_iff.2 rfl]; exact A.modulus_pos
  | cons i S =>
    rw [hr.chain.head_eq]
    have := @Layout.blockAddr_lt s.pool i (hr.lt i (List.mem_cons_self _ _))
    have := hr.layout.end_lt
    have := hr.layout.blockSize_pos
    omega

/-- The head of the free list, a block or `NULL`, converts to `free_node_t *`. -/
theorem nodePtr_freeList (hr : Rep A s S) : A.nodePtr s.pool.freeList = some s.pool.freeList := by
  cases S with
  | nil => rw [hr.freeList_eq_zero_iff.2 rfl]; exact Arch.nodePtr_of_aligned (Nat.zero_mod _)
  | cons i S =>
    rw [hr.chain.head_eq]
    exact hr.layout.nodePtr_blockAddr (hr.lt i (List.mem_cons_self _ _))

theorem lt_two_pow_32 (hr : Rep A s S) {i : Nat} (hi : i ∈ S) : i < 2 ^ 32 :=
  Nat.lt_trans (hr.lt i hi) (u32_toNat_lt _)

/-- A stack of distinct blocks below `N` that misses one of them is shorter than `N`. -/
theorem length_lt (hr : Rep A s S) {i : Nat} (hi : i < s.pool.totalBlocks.toNat) (hiS : i ∉ S) :
    S.length < s.pool.totalBlocks.toNat := by
  have hsub : (i :: S).toFinset ⊆ Finset.range s.pool.totalBlocks.toNat := by
    intro j hj
    simp only [List.mem_toFinset, List.mem_cons] at hj
    rcases hj with rfl | hj
    · exact Finset.mem_range.2 hi
    · exact Finset.mem_range.2 (hr.lt j hj)
  have := Finset.card_le_card hsub
  rw [List.toFinset_card_of_nodup (List.nodup_cons.2 ⟨hiS, hr.nodup⟩), Finset.card_range] at this
  simpa using this

end Rep

/-! ## `mempool_alloc` -/

namespace Rep

variable {A : Arch} {s : State} {S : List Nat}

theorem allocBody_nil (hr : Rep A s []) : allocBody A s = some (.errOutOfMemory, s, none) := by
  rw [allocBody, if_pos (hr.freeList_eq_zero_iff.2 rfl)]

/-- The state a successful `mempool_alloc` of block `i` leaves. -/
def allocState (A : Arch) (s : State) (i : Nat) : State :=
  ⟨s.pool.afterAlloc (loadWord A.ptrSize s.mem (s.pool.blockAddr i)),
    storeByte s.mem (s.pool.bitmap + i / 8)
      (s.mem (s.pool.bitmap + i / 8) ||| bitMask (UInt32.ofNat i % 8))⟩

theorem allocBody_cons {i : Nat} (hr : Rep A s (i :: S)) :
    allocBody A s = some (.ok, allocState A s i, some (s.pool.blockAddr i)) := by
  have hl := hr.layout
  have hi := hr.lt i (List.mem_cons_self _ _)
  have hi32 := hr.lt_two_pow_32 (List.mem_cons_self _ _)
  have hfb : s.pool.freeBlocks ≠ 0 := fun h => by
    have := hr.freeBlocks_eq; rw [h] at this; simp at this
  have hidx : mempoolBlockIndex A (s.pool.afterAlloc (loadWord A.ptrSize s.mem (s.pool.blockAddr i)))
      (s.pool.blockAddr i) = some (UInt32.ofNat i) := hl.blockIndex_blockAddr hi
  have hbyte : UInt32.ofNat i / 8 < s.pool.bitmapBytes := by
    rw [u32_lt_iff, div8_ofNat32 hi32]; exact hl.div8_lt_bitmapBytes hi
  rw [allocBody, hr.chain.head_eq, if_neg (Nat.pos_iff_ne_zero.1 (hl.blockAddr_pos i)), if_neg hfb]
  simp only [hl.nodePtr_blockAddr hi, hidx, Option.bind_eq_bind, Option.some_bind,
    Option.pure_def, if_pos hbyte, div8_ofNat32 hi32]
  rfl

/-- Popping block `i` leaves a state that represents the rest of the stack. -/
theorem allocState_rep {i : Nat} (hr : Rep A s (i :: S)) : Rep A (allocState A s i) S := by
  have hl := hr.layout
  have hi := hr.lt i (List.mem_cons_self _ _)
  have hi32 := hr.lt_two_pow_32 (List.mem_cons_self _ _)
  obtain ⟨hiS, hnd⟩ := List.nodup_cons.1 hr.nodup
  have hfb := hr.freeBlocks_eq
  simp only [List.length_cons] at hfb
  refine ⟨hl.afterAlloc _, ?_, hnd, fun j hj => hr.lt j (List.mem_cons_of_mem _ hj), ?_, ?_,
    hr.stats_totalBlocks, rfl, rfl, hr.stats_blockSize⟩
  · -- the rest of the list, read past a store to a bitmap byte
    have htail := hr.chain.tail
    rw [hr.chain.head_eq] at htail
    refine htail.frame fun q hq t _ => ?_
    show storeByte s.mem _ _ (q + t) = s.mem (q + t)
    obtain ⟨j, -, rfl⟩ := List.mem_map.1 hq
    have := hl.bitmap_lt_blockAddr (hl.div8_lt_bitmapBytes hi) j
    rw [storeByte_apply, if_neg (by omega)]
  · show (s.pool.freeBlocks - 1).toNat = S.length
    rw [u32_toNat_sub]
    have := u32_toNat_lt s.pool.freeBlocks
    have h1 : (1 : UInt32).toNat = 1 := rfl
    omega
  · intro j hj
    change j < 8 * s.pool.bitmapBytes.toNat at hj
    show bitAt (storeByte s.mem (s.pool.bitmap + i / 8) _) s.pool.bitmap j =
      decide (j < s.pool.totalBlocks.toNat ∧ j ∉ S)
    rw [bitAt_setBit hi32, hr.bit_eq j hj]
    by_cases hji : j = i
    · subst hji; simp [hi, hiS]
    · simp [hji]

end Rep

/-! ## `mempool_free` -/

namespace Rep

variable {A : Arch} {s : State} {S : List Nat}

/-- The state a successful `mempool_free` of block `i` leaves. -/
def freeState (A : Arch) (s : State) (i : Nat) : State :=
  ⟨s.pool.afterFree (s.pool.blockAddr i),
    storeByte (storeWord A.ptrSize s.mem (s.pool.blockAddr i) s.pool.freeList)
      (s.pool.bitmap + i / 8) (s.mem (s.pool.bitmap + i / 8) &&& ~~~bitMask (UInt32.ofNat i % 8))⟩

/-- Block `i`'s bit is clear exactly when `i` is on the free stack. -/
theorem bitAt_eq_false_iff (hr : Rep A s S) {i : Nat} (hi : i < s.pool.totalBlocks.toNat) :
    bitAt s.mem s.pool.bitmap i = false ↔ i ∈ S := by
  rw [hr.bit_eq i (by have := hr.layout.div8_lt_bitmapBytes hi; omega)]
  simp [hi]

/-- The double-free test `(byte & mask) == 0U` on block `i` reads whether `i` is on the stack. -/
theorem bitTest_iff (hr : Rep A s S) {i : Nat} (hi : i < s.pool.totalBlocks.toNat) :
    (s.mem (s.pool.bitmap + (UInt32.ofNat i / 8).toNat) &&& bitMask (UInt32.ofNat i % 8) = 0) ↔
      i ∈ S := by
  have hi32 : i < 2 ^ 32 := Nat.lt_trans hi (u32_toNat_lt _)
  rw [and_bitMask_eq_zero (by rw [mod8_ofNat32 hi32]; omega), mod8_ofNat32 hi32,
    div8_ofNat32 hi32]
  exact hr.bitAt_eq_false_iff hi

theorem freeBody_blockAddr {i : Nat} (hr : Rep A s S) (hi : i < s.pool.totalBlocks.toNat) :
    freeBody A s (s.pool.blockAddr i) =
      some (if i ∈ S then (.errDoubleFree, s, none) else (.ok, freeState A s i, none)) := by
  have hl := hr.layout
  have hi32 : i < 2 ^ 32 := Nat.lt_trans hi (u32_toNat_lt _)
  have hbyte : ¬ s.pool.bitmapBytes ≤ UInt32.ofNat i / 8 := by
    rw [u32_le_iff, div8_ofNat32 hi32]; exact Nat.not_le_of_lt (hl.div8_lt_bitmapBytes hi)
  have hbit := hr.bitTest_iff hi
  simp only [freeBody, hl.blockIndex_blockAddr hi, Option.bind_eq_bind, Option.some_bind,
    Option.pure_def, if_neg hbyte]
  by_cases hiS : i ∈ S
  · rw [if_pos (hbit.2 hiS), if_pos hiS]
  · rw [if_neg (mt hbit.1 hiS), if_neg hiS, hl.nodePtr_blockAddr hi, Option.some_bind,
      hr.nodePtr_freeList, Option.some_bind, div8_ofNat32 hi32]; rfl

/-- Pushing block `i`, not on the stack, leaves a state that represents `i :: S`. -/
theorem freeState_rep {i : Nat} (hr : Rep A s S) (hi : i < s.pool.totalBlocks.toNat)
    (hiS : i ∉ S) : Rep A (freeState A s i) (i :: S) := by
  have hl := hr.layout
  have hlen := hr.length_lt hi hiS
  have hfb : s.pool.freeBlocks < s.pool.totalBlocks := by
    rw [u32_lt_iff, hr.freeBlocks_eq]; exact hlen
  have hbm := hl.bitmap_lt_blockAddr (hl.div8_lt_bitmapBytes hi)
  -- the store to the bitmap byte misses every block
  have hmiss : ∀ j t, s.pool.blockAddr j + t ≠ s.pool.bitmap + i / 8 := fun j t => by
    have := hbm j; omega
  refine ⟨hl.afterFree _, ?_, List.nodup_cons.2 ⟨hiS, hr.nodup⟩, ?_, ?_, ?_,
    hr.stats_totalBlocks, rfl, rfl, hr.stats_blockSize⟩
  · show Chain A.ptrSize (freeState A s i).mem (s.pool.blockAddr i)
      (s.pool.blockAddr i :: S.map s.pool.blockAddr)
    refine .cons (Nat.pos_iff_ne_zero.1 (hl.blockAddr_pos i)) ?_
    have hload : loadWord A.ptrSize (freeState A s i).mem (s.pool.blockAddr i) = s.pool.freeList := by
      rw [@loadWord_congr A.ptrSize (storeWord A.ptrSize s.mem (s.pool.blockAddr i) s.pool.freeList)
        _ _ fun t _ => by show storeByte _ _ _ _ = _; rw [storeByte_apply, if_neg (hmiss i t)],
        loadWord_storeWord (by rw [← A.modulus_eq]; exact hr.freeList_lt)]
    rw [hload]
    refine hr.chain.frame fun q hq t ht => ?_
    obtain ⟨j, hj, rfl⟩ := List.mem_map.1 hq
    have hji : i ≠ j := fun h => hiS (h ▸ hj)
    show storeByte _ _ _ _ = _
    rw [storeByte_apply, if_neg (hmiss j t),
      storeWord_apply_of_not_mem (hl.word_apart hji (Nat.lt_of_lt_of_le ht hl.ptrSize_le))]
  · intro j hj
    rcases List.mem_cons.1 hj with rfl | hj
    · exact hi
    · exact hr.lt j hj
  · show (if s.pool.freeBlocks < s.pool.totalBlocks then s.pool.freeBlocks + 1
      else s.pool.freeBlocks).toNat = (i :: S).length
    rw [if_pos hfb, u32_toNat_add, hr.freeBlocks_eq, List.length_cons]
    have := u32_toNat_lt s.pool.totalBlocks
    exact Nat.mod_eq_of_lt (by show S.length + 1 < 2 ^ 32; omega)
  · intro j hj
    change j < 8 * s.pool.bitmapBytes.toNat at hj
    show bitAt (freeState A s i).mem s.pool.bitmap j =
      decide (j < s.pool.totalBlocks.toNat ∧ j ∉ i :: S)
    rw [freeState, hl.bitAt_freeStore hi hj, hr.bit_eq j hj]
    by_cases hji : j = i
    · subst hji; simp
    · simp [hji]

end Rep

/-! ## `mempool_reset`

The loop is the one `mempool_init` runs, so the fact is stated for any pool of a given layout
and any memory: `Proof/InitSpec.lean` uses it too. -/

namespace Layout

variable {A : Arch} {p : Pool}

/-- Clearing the bitmap and threading the blocks, on a pool of layout `p` over any memory, has no
undefined behaviour and leaves the pool representing the fresh stack. It writes nothing
outside the bitmap and the block region. -/
theorem thread_rep (hl : Layout A p) (m : Mem) :
    ∃ m' head, threadFreeList A p.blockSize.toNat p.totalBlocks.toNat
        (memset0 m p.bitmap p.bitmapBytes.toNat) p.blocksStart 0 = some (m', head) ∧
      Rep A ⟨p.afterReset head, m'⟩ (List.range p.totalBlocks.toNat).reverse ∧
      ∀ b, b < p.blocksStart ∨ p.blocksStart + p.totalBlocks.toNat * p.blockSize.toNat ≤ b →
        m' b = memset0 m p.bitmap p.bitmapBytes.toNat b := by
  obtain ⟨m', head, hrun, hchain, hframe⟩ := threadFreeList_spec hl.ptrSize_le hl.start_pos
    hl.end_lt hl.aligned A.modulus_pos (@Chain.null A.ptrSize (memset0 m p.bitmap p.bitmapBytes.toNat))
    fun _ h => absurd h (List.not_mem_nil _)
  rw [List.append_nil] at hchain
  refine ⟨m', head, hrun, ⟨hl.afterReset head, hchain, List.nodup_reverse.2 (List.nodup_range _),
    fun i hi => by simpa using hi, by simp [Pool.afterReset], fun i hi => ?_, rfl, rfl,
    (u32_sub_self _).symm, rfl⟩,
    hframe⟩
  -- every bitmap byte lies below the blocks, so it still holds the `memset` zero
  have hi8 : i / 8 < p.bitmapBytes.toNat := by
    change i < 8 * p.bitmapBytes.toNat at hi; omega
  have hzero : m' (p.bitmap + i / 8) = 0 := by
    rw [hframe _ (Or.inl (by simpa [Pool.blockAddr] using hl.bitmap_lt_blockAddr hi8 0)),
      memset0_apply, if_pos ⟨Nat.le_add_right _ _, by omega⟩]
  show byteBit (m' (p.bitmap + i / 8)) (i % 8) = _
  rw [hzero]
  simp [byteBit, Pool.afterReset]

end Layout

namespace Rep

variable {A : Arch} {s : State}

theorem resetBody_eq (hl : Layout A s.pool) :
    ∃ m' head, resetBody A s = some (.ok, ⟨s.pool.afterReset head, m'⟩, none) ∧
      Rep A ⟨s.pool.afterReset head, m'⟩ (List.range s.pool.totalBlocks.toNat).reverse ∧
      ∀ b, b < s.pool.blocksStart ∨
          s.pool.blocksStart + s.pool.totalBlocks.toNat * s.pool.blockSize.toNat ≤ b →
        m' b = memset0 s.mem s.pool.bitmap s.pool.bitmapBytes.toNat b := by
  obtain ⟨m', head, hrun, hrep, hframe⟩ := hl.thread_rep s.mem
  exact ⟨m', head, by simp only [resetBody, hrun, Option.bind_eq_bind, Option.some_bind,
    Option.pure_def], hrep, hframe⟩

end Rep

end Mempool
