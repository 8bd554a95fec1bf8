import Mempool.Proof.Refinement

/-!
# `Proof/Index.lean` — block addresses, indices and bitmap bits

`mempool_block_index` turns an address into an index by dividing its offset from `blocks_start`
by `block_size`, and the bitmap keeps block `i`'s state in bit `i % 8` of byte `i / 8`. On a
laid-out pool the three agree exactly: the index of block `i`'s address is `i`
(`Layout.blockIndex_blockAddr`), an aligned address of the block region is the address of its
index, every block's byte lies inside the bitmap, and the critical sections of `mempool_alloc`
and `mempool_free` set and clear that block's bit and no other.

The bit facts hold of the critical sections run over any memory: they read only the layout, not
the free list the memory holds.
-/

set_option autoImplicit false

namespace Mempool

/-! ## Addresses and indices -/

namespace Layout

variable {A : Arch} {p : Pool}

/-- An address of the block region at a multiple of `block_size` from its start is the address
of the index `mempool_block_index` gives it. -/
theorem blockIndex_of_aligned (hl : Layout A p) {q : Nat} (h₁ : p.blocksStart ≤ q)
    (h₂ : q < p.blocksStart + p.totalBlocks.toNat * p.blockSize.toNat)
    (h₃ : (q - p.blocksStart) % p.blockSize.toNat = 0) :
    ∃ idx, mempoolBlockIndex A p q = some idx ∧
      q = p.blocksStart + idx.toNat * p.blockSize.toNat := by
  have hpos := hl.blockSize_pos
  have hdiv := Nat.div_add_mod (q - p.blocksStart) p.blockSize.toNat
  rw [h₃, Nat.add_zero, Nat.mul_comm] at hdiv
  have hq : q = p.blockAddr ((q - p.blocksStart) / p.blockSize.toNat) := by
    unfold Pool.blockAddr; omega
  have hi : (q - p.blocksStart) / p.blockSize.toNat < p.totalBlocks.toNat :=
    (Nat.div_lt_iff_lt_mul hpos).2 (by omega)
  generalize (q - p.blocksStart) / p.blockSize.toNat = k at hq hi
  subst hq
  refine ⟨_, hl.blockIndex_blockAddr hi, ?_⟩
  rw [toNat_ofNat32_of_lt (Nat.lt_trans hi (u32_toNat_lt _))]
  rfl

/-- `mempool_alloc`'s critical section, handing out block `i` of a laid-out pool over any memory,
sets block `i`'s bit and leaves every other bit as it was. -/
theorem allocBody_bitAt (hl : Layout A p) {m : Mem} {t : State} {i : Nat}
    (hi : i < p.totalBlocks.toNat) (h : allocBody A ⟨p, m⟩ = some (.ok, t, some (p.blockAddr i)))
    (j : Nat) : bitAt t.mem p.bitmap j = (bitAt m p.bitmap j || decide (j = i)) := by
  have hi32 : i < 2 ^ 32 := Nat.lt_trans hi (u32_toNat_lt _)
  have hbyte : UInt32.ofNat i / 8 < p.bitmapBytes := by
    rw [u32_lt_iff, div8_ofNat32 hi32]; exact hl.div8_lt_bitmapBytes hi
  dsimp only [allocBody] at h
  split at h
  · cases h
  split at h
  · cases h
  simp only [Option.bind_eq_bind, Option.bind_eq_some, Option.pure_def, Option.some.injEq,
    Prod.mk.injEq, true_and] at h
  obtain ⟨node, -, idx, hidx, rfl, rfl⟩ := h
  have hidx' : mempoolBlockIndex A (p.afterAlloc (loadWord A.ptrSize m (p.blockAddr i)))
      (p.blockAddr i) = some (UInt32.ofNat i) := hl.blockIndex_blockAddr hi
  obtain rfl := Option.some.inj (hidx.symm.trans hidx')
  dsimp only
  rw [if_pos hbyte, div8_ofNat32 hi32, bitAt_setBit hi32]

/-- `mempool_free`'s critical section, taking back block `i` of a laid-out pool over any memory,
clears block `i`'s bit and leaves every other bit of the bitmap as it was. -/
theorem freeBody_bitAt (hl : Layout A p) {m : Mem} {t : State} {i : Nat}
    (hi : i < p.totalBlocks.toNat) (h : freeBody A ⟨p, m⟩ (p.blockAddr i) = some (.ok, t, none))
    {j : Nat} (hj : j < 8 * p.bitmapBytes.toNat) :
    bitAt t.mem p.bitmap j = (bitAt m p.bitmap j && !decide (j = i)) := by
  have hi32 : i < 2 ^ 32 := Nat.lt_trans hi (u32_toNat_lt _)
  have hbyte : ¬ p.bitmapBytes ≤ UInt32.ofNat i / 8 := by
    rw [u32_le_iff, div8_ofNat32 hi32]; exact Nat.not_le_of_lt (hl.div8_lt_bitmapBytes hi)
  simp only [freeBody, hl.blockIndex_blockAddr hi, hl.nodePtr_blockAddr hi, Option.bind_eq_bind,
    Option.some_bind, Option.pure_def, if_neg hbyte, div8_ofNat32 hi32] at h
  split at h
  · cases h
  simp only [Option.bind_eq_some, Option.some.injEq, Prod.mk.injEq, true_and, and_true] at h
  obtain ⟨next, -, rfl⟩ := h
  exact hl.bitAt_freeStore hi hj

end Layout

section FromInit

variable {A : Arch} {prior : Pool} {mem : Mem}
  {stateBuffer stateBufferSize poolBuffer poolBufferSize blockSize alignment poolOut : Nat}
  {o : InitOutcome}
  (hinit : mempoolInit A prior mem stateBuffer stateBufferSize poolBuffer poolBufferSize blockSize
    alignment poolOut = some o)
  (hok : o.result = .ok) (hsize : poolBufferSize < A.modulus)
  (hbs : blockSize < A.modulus) (hal : alignment < A.modulus)
  (hround : roundUp blockSize alignment ≤ 2 ^ 32 - 1)

include hinit hok hsize hbs hal hround

/-- Block addresses, block indices and bitmap positions correspond exactly, in every state a
pool reaches. `mempool_block_index` of block `i`'s address is `i`; an address of the block region
at a multiple of `block_size` from its start is `blocks_start` plus its index times
`block_size`; block `i`'s byte `i / 8` is inside the bitmap; and over any memory, the critical
section of `mempool_alloc` handing out block `i` sets bit `i`, and that of `mempool_free` taking
block `i` back clears it, each leaving every other bit of the bitmap as it was. -/
theorem block_index_correspondence {s : State} {h : History}
    (hreach : Reachable A ⟨o.pool, o.mem⟩ s h) :
    (∀ i < s.pool.totalBlocks.toNat,
      (mempoolBlockIndex A s.pool (s.pool.blocksStart + i * s.pool.blockSize.toNat)).map
        UInt32.toNat = some i) ∧
    (∀ q, s.pool.blocksStart ≤ q →
      q < s.pool.blocksStart + s.pool.totalBlocks.toNat * s.pool.blockSize.toNat →
      (q - s.pool.blocksStart) % s.pool.blockSize.toNat = 0 →
      ∃ idx, mempoolBlockIndex A s.pool q = some idx ∧
        q = s.pool.blocksStart + idx.toNat * s.pool.blockSize.toNat) ∧
    ∀ i < s.pool.totalBlocks.toNat, i / 8 < s.pool.bitmapBytes.toNat ∧ ∀ (m : Mem) (t : State),
      (allocBody A ⟨s.pool, m⟩ =
          some (.ok, t, some (s.pool.blocksStart + i * s.pool.blockSize.toNat)) →
        ∀ j, bitAt t.mem s.pool.bitmap j = (bitAt m s.pool.bitmap j || decide (j = i))) ∧
      (freeBody A ⟨s.pool, m⟩ (s.pool.blocksStart + i * s.pool.blockSize.toNat) =
          some (.ok, t, none) →
        ∀ j < 8 * s.pool.bitmapBytes.toNat,
          bitAt t.mem s.pool.bitmap j = (bitAt m s.pool.bitmap j && !decide (j = i))) := by
  have hl := (Reachable.refines hinit hok hsize hbs hal hround hreach).rep.layout
  refine ⟨fun i hi => ?_, fun q => hl.blockIndex_of_aligned, fun i hi =>
    ⟨hl.div8_lt_bitmapBytes hi, fun m t => ⟨fun h => ?_, fun h j => ?_⟩⟩⟩
  · rw [show s.pool.blocksStart + i * s.pool.blockSize.toNat = s.pool.blockAddr i from rfl,
      hl.blockIndex_blockAddr hi, Option.map_some',
      toNat_ofNat32_of_lt (Nat.lt_trans hi (u32_toNat_lt _))]
  · exact hl.allocBody_bitAt hi h
  · exact hl.freeBody_bitAt hi h

end FromInit

theorem block_index_correspondence_sample :
    let s : State := sampleRun.2
    (∀ i < s.pool.totalBlocks.toNat,
      (mempoolBlockIndex lp64 s.pool (s.pool.blocksStart + i * s.pool.blockSize.toNat)).map
        UInt32.toNat = some i) ∧
    (∀ q, s.pool.blocksStart ≤ q →
      q < s.pool.blocksStart + s.pool.totalBlocks.toNat * s.pool.blockSize.toNat →
      (q - s.pool.blocksStart) % s.pool.blockSize.toNat = 0 →
      ∃ idx, mempoolBlockIndex lp64 s.pool q = some idx ∧
        q = s.pool.blocksStart + idx.toNat * s.pool.blockSize.toNat) ∧
    ∀ i < s.pool.totalBlocks.toNat, i / 8 < s.pool.bitmapBytes.toNat ∧ ∀ (m : Mem) (t : State),
      (allocBody lp64 ⟨s.pool, m⟩ =
          some (.ok, t, some (s.pool.blocksStart + i * s.pool.blockSize.toNat)) →
        ∀ j, bitAt t.mem s.pool.bitmap j = (bitAt m s.pool.bitmap j || decide (j = i))) ∧
      (freeBody lp64 ⟨s.pool, m⟩ (s.pool.blocksStart + i * s.pool.blockSize.toNat) =
          some (.ok, t, none) →
        ∀ j < 8 * s.pool.bitmapBytes.toNat,
          bitAt t.mem s.pool.bitmap j = (bitAt m s.pool.bitmap j && !decide (j = i))) :=
  block_index_correspondence (Option.some_get _).symm (by decide) (by decide) (by decide)
    (by decide) (by decide) sampleRun_reachable

end Mempool
