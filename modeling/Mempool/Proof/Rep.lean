import Mempool.Proof.FreeList

/-!
# `Proof/Rep.lean` — what a pool's bytes mean

A pool's state is read against a stack `S` of free block indices, top first. `Rep A s S` says
the state represents `S`: the free list read from memory is exactly `S`'s blocks in order, the
bitmap marks exactly the blocks not in `S`, and the counters agree. `Layout` is the part no
call after `mempool_init` changes: where the bitmap and the blocks are, and that the whole
block region is addressable.

The rest of the file is address arithmetic under `Layout`: block `i` starts at
`blockAddr i`, `mempool_block_index` inverts that exactly, block `i`'s bitmap byte lies below
every block, distinct blocks do not overlap, and every block converts to a `free_node_t *`. Every operation's proof in `Proof/Ops.lean`
uses these and nothing else about numbers.
-/

set_option autoImplicit false

namespace Mempool

namespace Pool

/-- Where block `i` starts. -/
def blockAddr (p : Pool) (i : Nat) : Nat := p.blocksStart + i * p.blockSize.toNat

end Pool

/-- Bit `i mod 8` of bitmap byte `i / 8`: whether block `i` is marked allocated. -/
def bitAt (m : Mem) (bitmap i : Nat) : Bool := byteBit (m (bitmap + i / 8)) (i % 8)

/-- The shape `mempool_init` gives a pool, which no later call changes. -/
structure Layout (A : Arch) (p : Pool) : Prop where
  initialized : p.initialized = true
  ptrSize_le : A.ptrSize ≤ p.blockSize.toNat
  bitmapBytes_eq : p.bitmapBytes.toNat = (p.totalBlocks.toNat + 7) / 8
  bitmap_le : p.bitmap + p.bitmapBytes.toNat ≤ p.blocksStart
  start_pos : 0 < p.blocksStart
  end_lt : p.blocksStart + p.totalBlocks.toNat * p.blockSize.toNat < A.modulus
  aligned : ∀ i < p.totalBlocks.toNat, p.blockAddr i % A.ptrSize = 0

/-- The state represents the free stack `S` (block indices, top first). -/
structure Rep (A : Arch) (s : State) (S : List Nat) : Prop where
  layout : Layout A s.pool
  chain : Chain A.ptrSize s.mem s.pool.freeList (S.map s.pool.blockAddr)
  nodup : S.Nodup
  lt : ∀ i ∈ S, i < s.pool.totalBlocks.toNat
  freeBlocks_eq : s.pool.freeBlocks.toNat = S.length
  bit_eq : ∀ i < 8 * s.pool.bitmapBytes.toNat,
    bitAt s.mem s.pool.bitmap i = decide (i < s.pool.totalBlocks.toNat ∧ i ∉ S)
  stats_totalBlocks : s.pool.stats.totalBlocks = s.pool.totalBlocks
  stats_freeBlocks : s.pool.stats.freeBlocks = s.pool.freeBlocks
  stats_usedBlocks : s.pool.stats.usedBlocks = s.pool.totalBlocks - s.pool.freeBlocks
  stats_blockSize : s.pool.stats.blockSize = s.pool.blockSize

namespace Layout

variable {A : Arch} {p : Pool}

theorem blockSize_pos (hl : Layout A p) : 0 < p.blockSize.toNat :=
  Nat.lt_of_lt_of_le (by have := A.ptrSize_ge; omega) hl.ptrSize_le

theorem offset_lt (hl : Layout A p) {i : Nat} (hi : i < p.totalBlocks.toNat) :
    i * p.blockSize.toNat < A.modulus :=
  Nat.lt_of_le_of_lt (Nat.le_trans (Nat.mul_le_mul_right _ (Nat.le_of_lt hi)) (Nat.le_add_left _ _)) hl.end_lt

/-- Blocks end where the next begins: `blockAddr i + blockSize ≤ blockAddr j` for `i < j`. -/
theorem blockAddr_add_le {i j : Nat} (hij : i < j) :
    p.blockAddr i + p.blockSize.toNat ≤ p.blockAddr j := by
  have := Nat.mul_le_mul_right p.blockSize.toNat hij
  simp only [Pool.blockAddr, Nat.succ_mul] at *
  omega

/-- Distinct blocks do not share a byte. -/
theorem blockAddr_add_ne {i j x y : Nat} (hij : i ≠ j) (hx : x < p.blockSize.toNat)
    (hy : y < p.blockSize.toNat) : p.blockAddr i + x ≠ p.blockAddr j + y := by
  rcases Nat.lt_or_gt_of_ne hij with h | h
  · have := @blockAddr_add_le p i j h; omega
  · have := @blockAddr_add_le p j i h; omega

theorem blockAddr_injective (hl : Layout A p) : Function.Injective p.blockAddr := by
  intro i j h
  by_contra hij
  exact blockAddr_add_ne hij hl.blockSize_pos hl.blockSize_pos (by rw [h])

theorem blockAddr_pos (hl : Layout A p) (i : Nat) : 0 < p.blockAddr i :=
  Nat.lt_of_lt_of_le hl.start_pos (Nat.le_add_right _ _)

theorem blockAddr_lt {i : Nat} (hi : i < p.totalBlocks.toNat) :
    p.blockAddr i + p.blockSize.toNat ≤ p.blocksStart + p.totalBlocks.toNat * p.blockSize.toNat := by
  have := Nat.mul_le_mul_right p.blockSize.toNat (Nat.succ_le_of_lt hi)
  simp only [Pool.blockAddr, Nat.succ_mul] at *
  omega

/-- Every bitmap byte lies below every block. -/
theorem bitmap_lt_blockAddr (hl : Layout A p) {q : Nat} (hq : q < p.bitmapBytes.toNat) (j : Nat) :
    p.bitmap + q < p.blockAddr j := by
  have := hl.bitmap_le
  simp only [Pool.blockAddr]
  omega

theorem div8_lt_bitmapBytes (hl : Layout A p) {i : Nat} (hi : i < p.totalBlocks.toNat) :
    i / 8 < p.bitmapBytes.toNat := by
  rw [hl.bitmapBytes_eq]; omega

/-- `mempool_block_index` inverts `blockAddr`. -/
theorem blockIndex_blockAddr (hl : Layout A p) {i : Nat} (hi : i < p.totalBlocks.toNat) :
    mempoolBlockIndex A p (p.blockAddr i) = some (UInt32.ofNat i) := by
  have hoff := hl.offset_lt hi
  simp only [mempoolBlockIndex, Pool.blockAddr]
  rw [Arch.sub_of_le (Nat.le_add_right _ _) (by omega), Nat.add_sub_cancel_left,
    udiv_of_pos hl.blockSize_pos, Nat.mul_div_cancel _ hl.blockSize_pos]
  rfl

/-- A block, and `NULL`, convert to `free_node_t *`. -/
theorem nodePtr_blockAddr (hl : Layout A p) {i : Nat} (hi : i < p.totalBlocks.toNat) :
    A.nodePtr (p.blockAddr i) = some (p.blockAddr i) :=
  Arch.nodePtr_of_aligned (hl.aligned i hi)

/-- The end of the block region, as `mempool_free` computes it, is exact. -/
theorem blocksEndAddr_eq (hl : Layout A p) :
    blocksEndAddr A p = p.blocksStart + p.totalBlocks.toNat * p.blockSize.toNat := by
  have hprod : A.wrap (p.totalBlocks.toNat * p.blockSize.toNat) =
      p.totalBlocks.toNat * p.blockSize.toNat := Arch.wrap_of_lt (by have := hl.end_lt; omega)
  rw [blocksEndAddr, hprod, Arch.wrap_of_lt hl.end_lt]

end Layout

theorem toNat_ofNat32_of_lt {n : Nat} (h : n < 2 ^ 32) : (UInt32.ofNat n).toNat = n := by
  rw [toNat_ofNat32, Nat.mod_eq_of_lt h]

theorem div8_ofNat32 {i : Nat} (h : i < 2 ^ 32) : (UInt32.ofNat i / 8).toNat = i / 8 := by
  rw [UInt32.toNat_div, toNat_ofNat32_of_lt h]; rfl

theorem mod8_ofNat32 {i : Nat} (h : i < 2 ^ 32) : (UInt32.ofNat i % 8).toNat = i % 8 := by
  rw [UInt32.toNat_mod, toNat_ofNat32_of_lt h]; rfl

/-- A store to bitmap byte `q` changes only the bits of blocks `8q, ..., 8q + 7`. -/
theorem bitAt_storeByte (m : Mem) (bitmap q i : Nat) (v : UInt8) :
    bitAt (storeByte m (bitmap + q) v) bitmap i =
      if i / 8 = q then byteBit v (i % 8) else bitAt m bitmap i := by
  simp only [bitAt, storeByte_apply, Nat.add_left_cancel_iff]
  split <;> rfl

/-- A bit depends on its own byte only. -/
theorem bitAt_congr {m m' : Mem} {bitmap i : Nat} (h : m' (bitmap + i / 8) = m (bitmap + i / 8)) :
    bitAt m' bitmap i = bitAt m bitmap i := by
  simp only [bitAt, h]

section Bits

variable {m : Mem} {bitmap i : Nat}

/-- A store to block `i`'s bitmap byte whose new bits are a function `f` of the old bit and of
whether the bit is block `i`'s changes block `i`'s bit by `f _ true` and every other block's bit
by `f _ false`. -/
theorem bitAt_store_own {v : UInt8} {f : Bool → Bool → Bool}
    (hv : ∀ k, byteBit v k = f (byteBit (m (bitmap + i / 8)) k) (decide (i % 8 = k))) (j : Nat) :
    bitAt (storeByte m (bitmap + i / 8) v) bitmap j =
      if j / 8 = i / 8 then f (bitAt m bitmap j) (decide (j = i)) else bitAt m bitmap j := by
  rw [bitAt_storeByte]
  split
  · rename_i hq
    have hji : decide (i % 8 = j % 8) = decide (j = i) :=
      decide_eq_decide.2 ⟨fun h => by omega, fun h => by rw [h]⟩
    rw [hv, hji, bitAt, hq]
  · rfl

/-- The byte `mempool_alloc` stores sets block `i`'s bit and no other. -/
theorem bitAt_setBit (hi : i < 2 ^ 32) (j : Nat) :
    bitAt (storeByte m (bitmap + i / 8)
        (m (bitmap + i / 8) ||| bitMask (UInt32.ofNat i % 8))) bitmap j =
      (bitAt m bitmap j || decide (j = i)) := by
  have hmask : (UInt32.ofNat i % 8).toNat < 8 := by rw [mod8_ofNat32 hi]; omega
  rw [bitAt_store_own (f := (· || ·)) (by intro k; rw [byteBit_or_mask hmask, mod8_ofNat32 hi])]
  split
  · rfl
  · rename_i hq
    rw [decide_eq_false (by rintro rfl; exact hq rfl), Bool.or_false]

/-- The byte `mempool_free` stores clears block `i`'s bit and no other. -/
theorem bitAt_clearBit (hi : i < 2 ^ 32) (j : Nat) :
    bitAt (storeByte m (bitmap + i / 8)
        (m (bitmap + i / 8) &&& ~~~bitMask (UInt32.ofNat i % 8))) bitmap j =
      (bitAt m bitmap j && !decide (j = i)) := by
  have hmask : (UInt32.ofNat i % 8).toNat < 8 := by rw [mod8_ofNat32 hi]; omega
  rw [bitAt_store_own (f := fun b c => b && !c) (by
    intro k; rw [byteBit_and_not_mask hmask, mod8_ofNat32 hi])]
  split
  · rfl
  · rename_i hq
    rw [decide_eq_false (by rintro rfl; exact hq rfl), Bool.not_false, Bool.and_true]

end Bits

end Mempool
