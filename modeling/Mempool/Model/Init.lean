import Mempool.Model.Pool

/-!
# `Model/Init.lean` — `mempool_init`, the layout planner

`part_008` lines 81–203. The function is a sequence of argument checks, the layout search
(`layoutSearch`, the `while ((n > 0U) && !found)` loop), two range checks on what the search
found, and the writes: the control block (`initPool`), the zeroed bitmap, and the free list
threaded through the block region (`threadFreeList`, shared with `mempool_reset`).

Every `size_t` operation of the source is here with its wrap-around (`A.wrap`), because which of
them can wrap is the question `Proof/InitLimits.lean` answers. The control block is cleared at
line 118, before the checks that can still fail; the failures after that point therefore leave
`Pool.zero` behind, and the ones before it leave the prior contents of the state buffer.
-/

set_option autoImplicit false

namespace Mempool

/-- `is_power_of_two`. -/
def isPowerOfTwo (value : Nat) : Bool := 0 < value && (value &&& (value - 1)) == 0

/-- `align_up(value, alignment)` in `size_t`: `(value + mask) & ~mask` with `mask = alignment - 1`. -/
def alignUp (A : Arch) (value alignment : Nat) : Nat :=
  let mask := A.sub alignment 1
  A.wrap (value + mask) &&& (A.modulus - 1 - mask)

/-- The padding that brings a bitmap ending at `bitmapEnd` up to `alignment`. -/
def padTo (bitmapEnd alignment : Nat) : Nat :=
  if 1 < alignment then
    let mod := bitmapEnd &&& (alignment - 1)
    if mod ≠ 0 then alignment - mod else 0
  else 0

/-- The variables of the search loop, `n`, `bitmap_bytes`, `blocks_offset` and `found`. -/
structure LayoutPlan where
  n : Nat
  bitmapBytes : Nat
  blocksOffset : Nat
  found : Bool
  deriving DecidableEq, Repr

/-- `bitmap_bytes = (n + 7U) / 8U` for a candidate `n`. -/
def bitmapBytesFor (A : Arch) (n : Nat) : Nat := A.wrap (n + 7) / 8

/-- `blocks_offset = bitmap_end + pad` for a candidate `n`. -/
def blocksOffsetFor (A : Arch) (alignment n : Nat) : Nat :=
  A.wrap (bitmapBytesFor A n + padTo (bitmapBytesFor A n) alignment)

/-- `required = blocks_offset + (n * aligned_block_size)` for a candidate `n`. -/
def requiredFor (A : Arch) (alignedBlockSize alignment n : Nat) : Nat :=
  A.wrap (blocksOffsetFor A alignment n + A.wrap (n * alignedBlockSize))

/-- The search `while ((n > 0U) && !found)`, run from `n` down: the first `n` whose `required`
fits the buffer stops it with `found`, and `n = 0` stops it without. -/
def layoutSearch (A : Arch) (poolBufferSize alignedBlockSize alignment : Nat) :
    Nat → LayoutPlan → LayoutPlan
  | 0, plan => plan
  | n + 1, _ =>
    if requiredFor A alignedBlockSize alignment (n + 1) ≤ poolBufferSize then
      ⟨n + 1, bitmapBytesFor A (n + 1), blocksOffsetFor A alignment (n + 1), true⟩
    else
      layoutSearch A poolBufferSize alignedBlockSize alignment n
        ⟨n, bitmapBytesFor A (n + 1), blocksOffsetFor A alignment (n + 1), false⟩

/-- The control block after `memset(pool, 0, sizeof(struct mempool))`. -/
def Pool.zero : Pool :=
  ⟨0, 0, 0, 0, 0, 0, 0, 0, 0, ⟨0, 0, 0, 0, 0, 0, 0⟩, ⟨0, 0, 0⟩, false, false⟩

/-- The control block a successful `mempool_init` leaves, lines 165–187 and 199. -/
def initPool (poolBuffer blocksStart freeList bitmapBytes alignedBlockSize n alignment : Nat) :
    Pool :=
  let blockSize := UInt32.ofNat alignedBlockSize
  let totalBlocks := UInt32.ofNat n
  { poolBufferStart := poolBuffer, blocksStart := blocksStart, freeList := freeList,
    bitmap := poolBuffer, bitmapBytes := UInt32.ofNat bitmapBytes, blockSize := blockSize,
    totalBlocks := totalBlocks, freeBlocks := totalBlocks, alignment := UInt32.ofNat alignment,
    stats := ⟨totalBlocks, 0, totalBlocks, 0, 0, 0, blockSize⟩,
    sync := ⟨0, 0, 0⟩, syncEnabled := false, initialized := true }

/-- What `mempool_init` leaves: its code, the state buffer's control block, memory, and what it
stored through `pool_out`. -/
structure InitOutcome where
  result : MempoolError
  pool : Pool
  mem : Mem
  poolOut : Option Nat

/-- `mempool_init(state_buffer, state_buffer_size, pool_buffer, pool_buffer_size, block_size,
alignment, pool_out)`, on a state buffer holding `prior` and on memory `mem`. -/
def mempoolInit (A : Arch) (prior : Pool) (mem : Mem) (stateBuffer stateBufferSize poolBuffer
    poolBufferSize blockSize alignment poolOut : Nat) : Option InitOutcome :=
  if stateBuffer = 0 ∨ poolBuffer = 0 ∨ poolOut = 0 then some ⟨.errNullPtr, prior, mem, none⟩
  else if stateBufferSize < mempoolStateSize A then some ⟨.errInvalidSize, prior, mem, none⟩
  else if poolBufferSize = 0 ∨ blockSize = 0 then some ⟨.errInvalidSize, prior, mem, none⟩
  else if !isPowerOfTwo alignment then some ⟨.errAlignment, prior, mem, none⟩
  else if poolBuffer &&& A.sub alignment 1 ≠ 0 then some ⟨.errAlignment, prior, mem, none⟩
  else if blockSize < A.ptrSize then some ⟨.errInvalidSize, prior, mem, none⟩
  else do
    let alignedBlockSize := alignUp A blockSize alignment
    let maxBlocks ← udiv poolBufferSize alignedBlockSize
    if maxBlocks = 0 then pure ⟨.errInvalidSize, Pool.zero, mem, none⟩
    else
      let plan := layoutSearch A poolBufferSize alignedBlockSize alignment maxBlocks
        ⟨maxBlocks, 0, 0, false⟩
      if !plan.found ∨ plan.n = 0 then pure ⟨.errInvalidSize, Pool.zero, mem, none⟩
      else if A.wrap (2 ^ 32 - 1) < plan.n ∨ A.wrap (2 ^ 32 - 1) < plan.bitmapBytes then
        pure ⟨.errInvalidSize, Pool.zero, mem, none⟩
      else do
        let blocksStart ← A.ptrAdd poolBuffer plan.blocksOffset
        let threaded ← threadFreeList A alignedBlockSize (UInt32.ofNat plan.n).toNat
          (memset0 mem poolBuffer plan.bitmapBytes) blocksStart 0
        pure ⟨.ok, initPool poolBuffer blocksStart threaded.2 plan.bitmapBytes alignedBlockSize
          plan.n alignment, threaded.1, some stateBuffer⟩

end Mempool
