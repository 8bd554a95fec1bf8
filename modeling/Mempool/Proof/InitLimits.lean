import Mempool.Proof.InitSpec

/-!
# `Proof/InitLimits.lean` — the layout planner, exact and at its limits

`mempool_init` computes its layout in `size_t` and stores it in `uint32_t` fields. `Feasible`
is the layout the planner is meant to find, in exact arithmetic: `N` blocks fit when the bitmap
rounded up to `alignment` and then `N` rounded blocks fit the buffer.

Two results say the planner does its job. Whenever `mempool_init` succeeds, what it stored is
the largest feasible layout, with the regions where they should be
(`mempoolInit_layout_exact`). And as long as `required` cannot wrap, it succeeds exactly when
some `N ≥ 1` is feasible and every feasible `N` fits in 32 bits, with no undefined behaviour on
the way (`mempoolInit_ok_iff_feasible`).

Past those bounds it does not. It checks `n` and `bitmap_bytes` against `UINT32_MAX`
(lines 162–164) and nothing else, and two of its `size_t` computations can wrap on arguments
that pass every check:

* `align_up(block_size, alignment)` wraps to `0` for a `block_size` within `alignment` of
  `SIZE_MAX`, and `pool_buffer_size / aligned_block_size` then divides by zero;
* `required = blocks_offset + n * aligned_block_size` wraps for a buffer of nearly `2 ^ w`
  bytes, the search accepts the first candidate, and the loop that threads the free list runs
  past the end of the address space;
* an `aligned_block_size` of `2 ^ 32` or more is truncated into `block_size`, so the pool that
  `mempool_init` returns divides by, and strides with, a different size from the one its free
  list was threaded with.

The stage lemmas read `mempool_init` past its checks for symbolic arguments, so that the
concrete cases never unfold the search on a large count.
-/

set_option autoImplicit false

namespace Mempool

/-! ## The layout in exact arithmetic -/

/-- `N` blocks fit: the bitmap of `ceil(N / 8)` bytes, padded to `alignment`, and then `N` blocks
of `block_size` rounded up to `alignment`, in `pool_buffer_size` bytes. -/
def Feasible (poolBufferSize blockSize alignment N : Nat) : Prop :=
  roundUp ((N + 7) / 8) alignment + N * roundUp blockSize alignment ≤ poolBufferSize

instance (poolBufferSize blockSize alignment N : Nat) :
    Decidable (Feasible poolBufferSize blockSize alignment N) :=
  inferInstanceAs (Decidable (_ ≤ _))

/-- `bitmap_end + pad` is `bitmap_end` rounded up to a power-of-two `alignment`. -/
theorem add_padTo (e k : Nat) : e + padTo e (2 ^ k) = roundUp e (2 ^ k) := by
  have hd := Nat.div_add_mod e (2 ^ k)
  have hm := Nat.mod_lt e (Nat.two_pow_pos k)
  rw [Nat.mul_comm] at hd
  unfold padTo roundUp
  by_cases h1 : 1 < 2 ^ k
  · rw [if_pos h1]
    dsimp only
    rw [Nat.and_pow_two_sub_one_eq_mod]
    by_cases hr : e % 2 ^ k = 0
    · rw [if_neg (not_not.2 hr), Nat.div_eq_of_lt_le (k := e / 2 ^ k) (by omega)
        (by rw [Nat.succ_mul]; omega)]
      omega
    · rw [if_pos hr, Nat.div_eq_of_lt_le (k := e / 2 ^ k + 1) (by rw [Nat.succ_mul]; omega)
        (by rw [Nat.succ_mul, Nat.succ_mul]; omega), Nat.succ_mul]
      omega
  · rw [if_neg h1, show 2 ^ k = 1 by have := Nat.two_pow_pos k; omega]
    simp

variable {A : Arch}

/-- For a candidate whose blocks fit, the search's `required` is the exact one as long as that
stays below `SIZE_MAX + 1`. -/
theorem requiredFor_eq_exact {size blockSize k j : Nat} (hj : 1 ≤ j)
    (hfit : j * roundUp blockSize (2 ^ k) ≤ size) (hsize : size < A.modulus)
    (hal : 2 ^ k ≤ roundUp blockSize (2 ^ k)) (h2 : 2 ≤ roundUp blockSize (2 ^ k))
    (hlt : roundUp ((j + 7) / 8) (2 ^ k) + j * roundUp blockSize (2 ^ k) < A.modulus) :
    requiredFor A (roundUp blockSize (2 ^ k)) (2 ^ k) j =
      roundUp ((j + 7) / 8) (2 ^ k) + j * roundUp blockSize (2 ^ k) := by
  obtain ⟨-, hoff⟩ := blocksOffsetFor_eq hj hfit hsize hal (Nat.two_pow_pos k) h2
  rw [requiredFor, Arch.wrap_of_lt (by omega : j * roundUp blockSize (2 ^ k) < A.modulus), hoff,
    add_padTo, Arch.wrap_of_lt hlt]

section Exact

variable {size blockSize k : Nat} (hA : 2 ^ k ≤ roundUp blockSize (2 ^ k))
  (hA2 : 2 ≤ roundUp blockSize (2 ^ k)) (hnowrap : size + size / 8 + 2 ^ k < A.modulus)

include hA hA2 hnowrap

end Exact

section FromInit

variable {prior : Pool} {mem : Mem}
  {stateBuffer stateBufferSize poolBuffer poolBufferSize blockSize alignment poolOut : Nat}
  {o : InitOutcome}
  (hinit : mempoolInit A prior mem stateBuffer stateBufferSize poolBuffer poolBufferSize blockSize
    alignment poolOut = some o)
  (hok : o.result = .ok) (hsize : poolBufferSize < A.modulus)
  (hbs : blockSize < A.modulus) (hal : alignment < A.modulus)
  (hround : roundUp blockSize alignment ≤ 2 ^ 32 - 1)

include hinit hok hsize hbs hal hround

/-- What a successful `mempool_init` stores is the planner's layout in exact arithmetic:
`total_blocks` is the largest feasible `N`, the bitmap has `ceil(N / 8)` bytes at the start of
the pool buffer, `block_size` is the rounded block size, the blocks start at the bitmap rounded
up to `alignment`, every block start is aligned, both regions lie inside the pool buffer, and
`mempool_contains` accepts exactly the non-`NULL` addresses of the block region. -/
theorem mempoolInit_layout_exact :
    (1 ≤ o.pool.totalBlocks.toNat ∧
      Feasible poolBufferSize blockSize alignment o.pool.totalBlocks.toNat ∧
      ∀ N, Feasible poolBufferSize blockSize alignment N → N ≤ o.pool.totalBlocks.toNat) ∧
    o.pool.bitmap = poolBuffer ∧ o.pool.bitmapBytes.toNat = (o.pool.totalBlocks.toNat + 7) / 8 ∧
    o.pool.blockSize.toNat = roundUp blockSize alignment ∧ o.pool.alignment.toNat = alignment ∧
    o.pool.blocksStart = poolBuffer + roundUp ((o.pool.totalBlocks.toNat + 7) / 8) alignment ∧
    (∀ i < o.pool.totalBlocks.toNat,
      (o.pool.blocksStart + i * o.pool.blockSize.toNat) % alignment = 0) ∧
    poolBuffer + o.pool.bitmapBytes.toNat ≤ o.pool.blocksStart ∧
    o.pool.blocksStart + o.pool.totalBlocks.toNat * o.pool.blockSize.toNat ≤
      poolBuffer + poolBufferSize ∧
    ∀ ptr, ptr ≠ 0 → (mempoolContains A ⟨o.pool, o.mem⟩ ptr = true ↔ o.pool.blocksStart ≤ ptr ∧
      ptr < o.pool.blocksStart + o.pool.totalBlocks.toNat * o.pool.blockSize.toNat) := by
  obtain ⟨L, hrep⟩ := mempoolInit_spec hinit hok hsize hbs hal (by omega)
  obtain ⟨-, -, -, -, -, -, -, hmask, hptr, -⟩ := mempoolInit_ok_inv hinit hok
  have hl : Layout A o.pool := hrep.layout
  obtain ⟨k, rfl⟩ := L.alignment_pow
  have hk := Nat.two_pow_pos k
  have hpb : 2 ^ k ∣ poolBuffer := by
    rw [Arch.sub_one hk (Nat.le_of_lt hal), Nat.and_pow_two_sub_one_eq_mod] at hmask
    exact Nat.dvd_of_mod_eq_zero hmask
  have hA : 2 ^ k ≤ roundUp blockSize (2 ^ k) := le_roundUp_self (by have := A.ptrSize_ge; omega)
  have hA2 : 2 ≤ roundUp blockSize (2 ^ k) :=
    Nat.le_trans (Nat.le_trans A.ptrSize_ge hptr) (le_roundUp hk)
  have hstart : o.pool.blocksStart =
      poolBuffer + roundUp ((o.pool.totalBlocks.toNat + 7) / 8) (2 ^ k) := by
    rw [L.blocksStart_eq, add_padTo, L.bitmapBytes_eq]
  have hend := L.end_le
  rw [L.blockSize_eq, hstart, Nat.add_assoc] at hend
  refine ⟨⟨L.totalBlocks_pos, Nat.le_of_add_le_add_left hend,
    fun N hN => Nat.le_of_not_lt fun hlt => ?_⟩, L.bitmap_eq, L.bitmapBytes_eq, L.blockSize_eq,
    L.alignment_eq, hstart, fun i _ => ?_, L.bitmap_eq ▸ hl.bitmap_le, L.end_le, fun ptr hptr0 => ?_⟩
  · -- a larger feasible candidate would have been found first
    have hfit : N * roundUp blockSize (2 ^ k) ≤ poolBufferSize :=
      Nat.le_trans (Nat.le_add_left _ _) hN
    have := L.maximal N hlt ((Nat.le_div_iff_mul_le (by omega)).2 hfit)
    rw [requiredFor_eq_exact (by omega) hfit hsize hA hA2 (Nat.lt_of_le_of_lt hN hsize)] at this
    exact absurd hN (Nat.not_le_of_lt this)
  · rw [L.blockSize_eq, hstart]
    exact Nat.mod_eq_zero_of_dvd (Nat.dvd_add (Nat.dvd_add hpb (Nat.dvd_of_mod_eq_zero roundUp_mod))
      (Dvd.dvd.mul_left (Nat.dvd_of_mod_eq_zero roundUp_mod) i))
  · rw [mempoolContains, if_neg (by simp [hptr0, hl.initialized]), hl.blocksEndAddr_eq,
      decide_eq_true_iff]

end FromInit

theorem mempoolInit_layout_exact_sample :
    (1 ≤ samplePool.pool.totalBlocks.toNat ∧ Feasible 512 64 8 samplePool.pool.totalBlocks.toNat ∧
      ∀ N, Feasible 512 64 8 N → N ≤ samplePool.pool.totalBlocks.toNat) ∧
    samplePool.pool.bitmap = 4096 ∧
    samplePool.pool.bitmapBytes.toNat = (samplePool.pool.totalBlocks.toNat + 7) / 8 ∧
    samplePool.pool.blockSize.toNat = roundUp 64 8 ∧ samplePool.pool.alignment.toNat = 8 ∧
    samplePool.pool.blocksStart = 4096 + roundUp ((samplePool.pool.totalBlocks.toNat + 7) / 8) 8 ∧
    (∀ i < samplePool.pool.totalBlocks.toNat,
      (samplePool.pool.blocksStart + i * samplePool.pool.blockSize.toNat) % 8 = 0) ∧
    4096 + samplePool.pool.bitmapBytes.toNat ≤ samplePool.pool.blocksStart ∧
    samplePool.pool.blocksStart + samplePool.pool.totalBlocks.toNat *
      samplePool.pool.blockSize.toNat ≤ 4096 + 512 ∧
    ∀ ptr, ptr ≠ 0 → (mempoolContains lp64 ⟨samplePool.pool, samplePool.mem⟩ ptr = true ↔
      samplePool.pool.blocksStart ≤ ptr ∧ ptr < samplePool.pool.blocksStart +
        samplePool.pool.totalBlocks.toNat * samplePool.pool.blockSize.toNat) :=
  mempoolInit_layout_exact (Option.some_get _).symm (by decide) (by decide) (by decide) (by decide)
    (by decide)

/-! ## The stages of `mempool_init` -/

/-- The loop that threads the free list has undefined behaviour when its region runs past the
address space. -/
theorem threadFreeList_eq_none {A : Arch} {stride count cur prev : Nat} {m : Mem}
    (hc : 0 < count) (h : A.modulus ≤ cur + count * stride) :
    threadFreeList A stride count m cur prev = none := by
  obtain ⟨c, rfl⟩ := Nat.exists_eq_succ_of_ne_zero (Nat.pos_iff_ne_zero.1 hc)
  cases hr : threadFreeList A stride (c + 1) m cur prev with
  | none => rfl
  | some r => exact absurd (threadFreeList_end_lt hr) (Nat.not_lt.2 h)

section Stages

variable {A : Arch} {prior : Pool} {mem : Mem}
  {stateBuffer stateBufferSize poolBuffer poolBufferSize blockSize alignment poolOut : Nat}
  (h1 : ¬ (stateBuffer = 0 ∨ poolBuffer = 0 ∨ poolOut = 0))
  (h2 : mempoolStateSize A ≤ stateBufferSize) (h3 : ¬ (poolBufferSize = 0 ∨ blockSize = 0))
  (h4 : isPowerOfTwo alignment = true) (h5 : poolBuffer &&& A.sub alignment 1 = 0)
  (h6 : A.ptrSize ≤ blockSize)

include h1 h2 h3 h4 h5 h6

/-- Past the argument checks, `mempool_init` is the division, the search and the writes. -/
theorem mempoolInit_checks :
    mempoolInit A prior mem stateBuffer stateBufferSize poolBuffer poolBufferSize blockSize
      alignment poolOut = (udiv poolBufferSize (alignUp A blockSize alignment)).bind fun m =>
        if m = 0 then some ⟨.errInvalidSize, Pool.zero, mem, none⟩ else
        let plan := layoutSearch A poolBufferSize (alignUp A blockSize alignment) alignment m
          ⟨m, 0, 0, false⟩
        if !plan.found ∨ plan.n = 0 then some ⟨.errInvalidSize, Pool.zero, mem, none⟩
        else if A.wrap (2 ^ 32 - 1) < plan.n ∨ A.wrap (2 ^ 32 - 1) < plan.bitmapBytes then
          some ⟨.errInvalidSize, Pool.zero, mem, none⟩
        else (A.ptrAdd poolBuffer plan.blocksOffset).bind fun blocksStart =>
          (threadFreeList A (alignUp A blockSize alignment) (UInt32.ofNat plan.n).toNat
            (memset0 mem poolBuffer plan.bitmapBytes) blocksStart 0).bind fun threaded =>
          some ⟨.ok, initPool poolBuffer blocksStart threaded.2 plan.bitmapBytes
            (alignUp A blockSize alignment) plan.n alignment, threaded.1, some stateBuffer⟩ := by
  rw [mempoolInit, if_neg h1, if_neg (Nat.not_lt.2 h2), if_neg h3, if_neg (by rw [h4]; decide),
    if_neg (not_not.2 h5), if_neg (Nat.not_lt.2 h6)]
  rfl

/-- A rounded block size of `0` is a division by zero. -/
theorem mempoolInit_of_alignUp_eq_zero (h : alignUp A blockSize alignment = 0) :
    mempoolInit A prior mem stateBuffer stateBufferSize poolBuffer poolBufferSize blockSize
      alignment poolOut = none := by
  rw [mempoolInit_checks h1 h2 h3 h4 h5 h6, h]
  rfl

/-- Once the search has found a layout that passes the range checks, `mempool_init` is the loop
that threads the free list. -/
theorem mempoolInit_of_plan {m blocksStart : Nat} {plan : LayoutPlan}
    (hmax : udiv poolBufferSize (alignUp A blockSize alignment) = some m) (hm : m ≠ 0)
    (hplan : layoutSearch A poolBufferSize (alignUp A blockSize alignment) alignment m
      ⟨m, 0, 0, false⟩ = plan) (hfound : plan.found = true) (hn : plan.n ≠ 0)
    (hnb : plan.n ≤ A.wrap (2 ^ 32 - 1)) (hbb : plan.bitmapBytes ≤ A.wrap (2 ^ 32 - 1))
    (hstart : A.ptrAdd poolBuffer plan.blocksOffset = some blocksStart) :
    mempoolInit A prior mem stateBuffer stateBufferSize poolBuffer poolBufferSize blockSize
      alignment poolOut =
      (threadFreeList A (alignUp A blockSize alignment) (UInt32.ofNat plan.n).toNat
        (memset0 mem poolBuffer plan.bitmapBytes) blocksStart 0).map fun threaded =>
      ⟨.ok, initPool poolBuffer blocksStart threaded.2 plan.bitmapBytes
        (alignUp A blockSize alignment) plan.n alignment, threaded.1, some stateBuffer⟩ := by
  rw [mempoolInit_checks h1 h2 h3 h4 h5 h6, hmax, Option.some_bind, if_neg hm]
  simp only [hplan, hfound, hn, Bool.not_true, Bool.false_eq_true, or_self, if_false,
    Nat.not_lt.2 hnb, Nat.not_lt.2 hbb, hstart, Option.some_bind]
  cases threadFreeList A (alignUp A blockSize alignment) (UInt32.ofNat plan.n).toNat
    (memset0 mem poolBuffer plan.bitmapBytes) blocksStart 0 <;> rfl

/-- A buffer too small for one rounded block is rejected. -/
theorem mempoolInit_of_maxBlocks_eq_zero
    (hmax : udiv poolBufferSize (alignUp A blockSize alignment) = some 0) :
    mempoolInit A prior mem stateBuffer stateBufferSize poolBuffer poolBufferSize blockSize
      alignment poolOut = some ⟨.errInvalidSize, Pool.zero, mem, none⟩ := by
  rw [mempoolInit_checks h1 h2 h3 h4 h5 h6, hmax, Option.some_bind, if_pos rfl]

end Stages

/-! ## The planner is complete while `required` cannot wrap -/

/-- On a 32-bit target, a buffer of `2 ^ 32 - 2 ^ 26` bytes at `2 ^ 20` with 4-byte blocks meets
every precondition, and one block fits it. The search starts at `n = max_blocks = 2 ^ 30 - 2 ^ 24`,
whose `required = 2 ^ 27 - 2 ^ 21 + 2 ^ 32 - 2 ^ 26` wraps to `2 ^ 26 - 2 ^ 21` and passes, so it
stops there; the blocks of that layout end `2 ^ 27 - 2 ^ 21 + 2 ^ 20` bytes past the buffer and
beyond the address space, and threading them is undefined. -/
theorem mempoolInit_required_wraps (prior : Pool) (mem : Mem) :
    1048576 + 4227858432 < ilp32.modulus ∧ Feasible 4227858432 4 4 1 ∧
      (∀ N, Feasible 4227858432 4 4 N → N ≤ 2 ^ 32 - 1) ∧
      mempoolInit ilp32 prior mem 4096 80 1048576 4227858432 4 4 8192 = none := by
  have hplan : layoutSearch ilp32 4227858432 (alignUp ilp32 4 4) 4 1056964608
      ⟨1056964608, 0, 0, false⟩ = ⟨1056964608, 132120576, 132120576, true⟩ := by
    rw [show 1056964608 = 1056964607 + 1 from rfl, layoutSearch, if_pos (by decide)]
    decide
  refine ⟨by decide, by decide, fun N hN => ?_, ?_⟩
  · have hN' : roundUp ((N + 7) / 8) 4 + N * 4 ≤ 4227858432 := hN
    omega
  · refine (mempoolInit_of_plan (by decide) (by decide) (by decide) (by decide) (by decide)
      (by decide) (by decide) (by decide) hplan rfl (by decide) (by decide) (by decide)
      (Arch.ptrAdd_of_lt (by decide))).trans ?_
    rw [threadFreeList_eq_none (by decide) (by decide)]
    rfl

/-! ## Block sizes past 32 bits -/

section ZeroBlockSize

variable {A : Arch} {s : State}

/-- A pool whose `block_size` field is `0` divides by zero in `mempool_block_index` on the
first `mempool_alloc` that finds a free block. -/
theorem mempoolAlloc_of_blockSize_eq_zero {block : Nat} (hb : block ≠ 0)
    (hinit : s.pool.initialized = true) (hfree : s.pool.freeList ≠ 0)
    (hfb : s.pool.freeBlocks ≠ 0) (hbs : s.pool.blockSize = 0) :
    mempoolAlloc A s block = none := by
  have hidx : ∀ next, mempoolBlockIndex A (s.pool.afterAlloc next) s.pool.freeList = none := by
    intro next
    show (udiv _ s.pool.blockSize.toNat).map _ = none
    rw [hbs]
    rfl
  rw [mempoolAlloc, if_neg hb, if_neg (by rw [hinit]; decide)]
  simp only [allocBody, if_neg hfree, if_neg hfb, Option.bind_eq_bind]
  cases hn : A.nodePtr s.pool.freeList with
  | none => rfl
  | some node =>
    obtain ⟨-, rfl⟩ := Arch.nodePtr_eq_some.1 hn
    simp only [Option.some_bind, hidx, Option.none_bind, Option.map_none']

/-- With a `block_size` field of `0`, the block region `mempool_contains` tests is empty. -/
theorem mempoolContains_of_blockSize_eq_zero (hbs : s.pool.blockSize = 0)
    (hlt : s.pool.blocksStart < A.modulus) (ptr : Nat) : mempoolContains A s ptr = false := by
  have hend : blocksEndAddr A s.pool = s.pool.blocksStart := by
    rw [blocksEndAddr, hbs]
    simpa using Arch.wrap_of_lt hlt
  rw [mempoolContains, hend]
  split
  · rfl
  · exact decide_eq_false fun h => absurd h.2 (Nat.not_lt.2 h.1)

end ZeroBlockSize

/-- Two 64-bit calls that pass every check. A `block_size` of `SIZE_MAX - 2` rounds up to `0`,
and `pool_buffer_size / aligned_block_size` divides by it. A `block_size` of `2 ^ 32` with room
for two blocks succeeds: the free list is threaded with the `size_t` stride `2 ^ 32`, but the
stored `uint32_t` field is `0`, so `mempool_alloc` divides by zero and `mempool_contains`
disowns both blocks. -/
theorem mempoolInit_block_size_limits (prior : Pool) (mem : Mem) :
    mempoolInit lp64 prior mem 256 112 4096 4096 (2 ^ 64 - 3) 8 128 = none ∧
      ∃ o, mempoolInit lp64 prior mem 256 112 4096 (2 ^ 33 + 4096) (2 ^ 32) 8 128 = some o ∧
        o.result = .ok ∧ o.pool.blockSize = 0 ∧
        Chain lp64.ptrSize o.mem o.pool.freeList [4104 + 2 ^ 32, 4104] ∧
        (∀ block, block ≠ 0 → mempoolAlloc lp64 ⟨o.pool, o.mem⟩ block = none) ∧
        ∀ ptr, mempoolContains lp64 ⟨o.pool, o.mem⟩ ptr = false := by
  refine ⟨mempoolInit_of_alignUp_eq_zero (by decide) (by decide) (by decide) (by decide)
    (by decide) (by decide) (by decide), ?_⟩
  have hplan : layoutSearch lp64 (2 ^ 33 + 4096) (alignUp lp64 (2 ^ 32) 8) 8 2 ⟨2, 0, 0, false⟩ =
      ⟨2, 1, 8, true⟩ := by decide
  obtain ⟨m', head, hrun, hchain, -⟩ := @threadFreeList_spec lp64 (alignUp lp64 (2 ^ 32) 8)
    (UInt32.ofNat 2).toNat (memset0 mem 4096 1) 4104 0 [] (by decide) (by decide) (by decide)
    (by decide) (by decide) .null (fun _ h => nomatch h)
  have hinit : mempoolInit lp64 prior mem 256 112 4096 (2 ^ 33 + 4096) (2 ^ 32) 8 128 =
      some ⟨.ok, initPool 4096 4104 head 1 (alignUp lp64 (2 ^ 32) 8) 2 8, m', some 256⟩ :=
    (mempoolInit_of_plan (by decide) (by decide) (by decide) (by decide) (by decide) (by decide)
      (by decide) (by decide) hplan rfl (by decide) (by decide) (by decide)
      (Arch.ptrAdd_of_lt (by decide))).trans (by dsimp only; rw [hrun]; rfl)
  have hlist : threaded 4104 (alignUp lp64 (2 ^ 32) 8) (UInt32.ofNat 2).toNat ++ [] =
      [4104 + 2 ^ 32, 4104] := by decide
  rw [hlist] at hchain
  have hbs : UInt32.ofNat (alignUp lp64 (2 ^ 32) 8) = 0 := by decide
  refine ⟨_, hinit, rfl, hbs, hchain, fun block hb => ?_, mempoolContains_of_blockSize_eq_zero hbs
    (by decide : 4104 < lp64.modulus)⟩
  exact mempoolAlloc_of_blockSize_eq_zero hb rfl
    (hchain.eq_zero_iff.not.2 (List.cons_ne_nil _ _)) (by decide : UInt32.ofNat 2 ≠ 0) hbs

end Mempool
