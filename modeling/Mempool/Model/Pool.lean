import Mempool.Model.Machine

/-!
# `Model/Pool.lean` — the control block and the operations on it

The opaque-state implementation, `part_008` lines 1–451, transcribed one C function to one
definition. Each public operation is split the way the source splits it: the argument and
`initialized` checks, which return before any lock is taken, and then a `...Body` that runs
between `mempool_internal_lock` and `mempool_internal_unlock` (`locked`). Nothing else is
shared between the operations, so a change to one C function is a change to one definition
here.

An operation that can reach undefined behaviour (a division by `block_size`, the free-list
loop's pointer increments, a conversion of a misaligned address to `free_node_t *`) returns
`Option`, `none` being the undefined case.

What is left out, deliberately: a `NULL` pool handle (the handle *is* the `State`; every
operation answers `MEMPOOL_ERR_NULL_PTR` for it without touching anything), and
`mempool_strerror`, whose text table no operation reads.
-/

set_option autoImplicit false

namespace Mempool

/-- `mempool_error_t`. -/
inductive MempoolError
  | ok
  | errNullPtr
  | errInvalidSize
  | errOutOfMemory
  | errInvalidBlock
  | errAlignment
  | errDoubleFree
  | errNotInitialized
  deriving DecidableEq, Repr

/-- `mempool_stats_t`. -/
structure MempoolStats where
  totalBlocks : UInt32
  usedBlocks : UInt32
  freeBlocks : UInt32
  peakUsage : UInt32
  allocCount : UInt32
  freeCount : UInt32
  blockSize : UInt32
  deriving DecidableEq, Repr

/-- `mempool_sync_t`. The two callbacks and the context are addresses, `0` standing for `NULL`. -/
structure MempoolSync where
  lock : Nat
  unlock : Nat
  userCtx : Nat
  deriving DecidableEq, Repr

/-- `struct mempool` (`mempool_t`), the control block in the caller's state buffer. Pointer
fields are addresses, `0` standing for `NULL`. -/
structure Pool where
  poolBufferStart : Nat
  blocksStart : Nat
  freeList : Nat
  bitmap : Nat
  bitmapBytes : UInt32
  blockSize : UInt32
  totalBlocks : UInt32
  freeBlocks : UInt32
  alignment : UInt32
  stats : MempoolStats
  sync : MempoolSync
  syncEnabled : Bool
  initialized : Bool
  deriving DecidableEq, Repr

/-- The fields of the control block that only `mempool_init` writes. -/
structure Shape where
  poolBufferStart : Nat
  blocksStart : Nat
  bitmap : Nat
  bitmapBytes : UInt32
  blockSize : UInt32
  totalBlocks : UInt32
  alignment : UInt32
  initialized : Bool
  deriving DecidableEq

/-- A control block's `Shape`. -/
def Pool.shape (p : Pool) : Shape :=
  ⟨p.poolBufferStart, p.blocksStart, p.bitmap, p.bitmapBytes, p.blockSize, p.totalBlocks,
    p.alignment, p.initialized⟩

/-- What the library's calls act on: the control block, and the bytes of memory (the bitmap and
the blocks among them). -/
structure State where
  pool : Pool
  mem : Mem

/-- A call the library makes into the installed hook, with the function and context it passes. -/
inductive HookCall
  | lock (fn ctx : Nat)
  | unlock (fn ctx : Nat)
  deriving DecidableEq, Repr

/-- What one call does: the code it returns, the state after it, what it stored through its
out-parameter (`none` when it stored nothing), and the hook calls it made, in order. The
out-parameter is the caller's variable, outside both of the pool's buffers. -/
structure Outcome (α : Type) where
  result : MempoolError
  state : State
  out : Option α
  hooks : List HookCall

/-- A return before the critical section: nothing written, no hook called. -/
def Outcome.early {α : Type} (e : MempoolError) (s : State) : Outcome α := ⟨e, s, none, []⟩

/-! ## Helpers -/

/-- `mempool_internal_lock`. -/
def mempoolInternalLock (pool : Pool) : List HookCall :=
  if pool.syncEnabled && pool.sync.lock != 0 then [.lock pool.sync.lock pool.sync.userCtx] else []

/-- `mempool_internal_unlock`. -/
def mempoolInternalUnlock (pool : Pool) : List HookCall :=
  if pool.syncEnabled && pool.sync.unlock != 0 then [.unlock pool.sync.unlock pool.sync.userCtx]
  else []

/-- A critical section: the lock hook, the body, then the unlock hook, which reads the control
block as the body left it. -/
def locked {α : Type} (s : State) (body : MempoolError × State × Option α) : Outcome α :=
  ⟨body.1, body.2.1, body.2.2, mempoolInternalLock s.pool ++ mempoolInternalUnlock body.2.1.pool⟩

/-- `mempool_block_index`: `(uint32_t)((ptr - blocks_start) / block_size)` in `uintptr_t`. -/
def mempoolBlockIndex (A : Arch) (pool : Pool) (ptr : Nat) : Option UInt32 :=
  (udiv (A.sub ptr pool.blocksStart) pool.blockSize.toNat).map UInt32.ofNat

/-- The end of the block region as `mempool_free` and `mempool_contains` compute it,
`blocks_start + total_blocks * block_size` in `uintptr_t`. -/
def blocksEndAddr (A : Arch) (pool : Pool) : Nat :=
  A.wrap (pool.blocksStart + A.wrap (pool.totalBlocks.toNat * pool.blockSize.toNat))

/-- The free-list loop of `mempool_init` and `mempool_reset`,
`for (i = 0; i < count; i++) { node->next = prev_node; prev_node = node; current += stride; }`.
Each `node = (free_node_t *)current` is a conversion (`A.nodePtr`). Returns the memory and
`prev_node`. -/
def threadFreeList (A : Arch) (stride : Nat) : Nat → Mem → Nat → Nat → Option (Mem × Nat)
  | 0, m, _, prev => some (m, prev)
  | count + 1, m, current, prev => do
    let node ← A.nodePtr current
    let next ← A.ptrAdd current stride
    threadFreeList A stride count (storeWord A.ptrSize m node prev) next node

/-! ## The operations -/

/-- `mempool_state_size`. -/
def mempoolStateSize (A : Arch) : Nat := A.stateSize

/-- Lines 230–239 of `mempool_alloc`: the control block once the head node is taken and `next`
is the new head. -/
def Pool.afterAlloc (pool : Pool) (next : Nat) : Pool :=
  let freeBlocks := pool.freeBlocks - 1
  let usedBlocks := pool.totalBlocks - freeBlocks
  { pool with
    freeList := next
    freeBlocks := freeBlocks
    stats := { pool.stats with
      allocCount := pool.stats.allocCount + 1
      usedBlocks := usedBlocks
      freeBlocks := freeBlocks
      peakUsage := if usedBlocks > pool.stats.peakUsage then usedBlocks else pool.stats.peakUsage } }

/-- The critical section of `mempool_alloc`. -/
def allocBody (A : Arch) (s : State) : Option (MempoolError × State × Option Nat) :=
  let pool := s.pool
  if pool.freeList = 0 then some (.errOutOfMemory, s, none)
  else if pool.freeBlocks = 0 then some (.errOutOfMemory, s, none)
  else do
    let node ← A.nodePtr pool.freeList
    let pool' := pool.afterAlloc (loadWord A.ptrSize s.mem node)
    let index ← mempoolBlockIndex A pool' node
    let byteIndex := index / 8
    let addr := pool.bitmap + byteIndex.toNat
    let mem :=
      if byteIndex < pool.bitmapBytes then storeByte s.mem addr (s.mem addr ||| bitMask (index % 8))
      else s.mem
    pure (.ok, ⟨pool', mem⟩, some node)

/-- `mempool_alloc(pool, block)`; `block` is the address of the caller's variable. -/
def mempoolAlloc (A : Arch) (s : State) (block : Nat) : Option (Outcome Nat) :=
  if block = 0 then some (.early .errNullPtr s)
  else if !s.pool.initialized then some (.early .errNotInitialized s)
  else (allocBody A s).map (locked s)

/-- Lines 299–308 of `mempool_free`: the control block once `block` is pushed. -/
def Pool.afterFree (pool : Pool) (block : Nat) : Pool :=
  let freeBlocks :=
    if pool.freeBlocks < pool.totalBlocks then pool.freeBlocks + 1 else pool.freeBlocks
  { pool with
    freeList := block
    freeBlocks := freeBlocks
    stats := { pool.stats with
      freeCount := pool.stats.freeCount + 1
      usedBlocks := pool.totalBlocks - freeBlocks
      freeBlocks := freeBlocks } }

/-- The critical section of `mempool_free`. -/
def freeBody (A : Arch) (s : State) (block : Nat) : Option (MempoolError × State × Option Empty) := do
  let pool := s.pool
  let index ← mempoolBlockIndex A pool block
  let byteIndex := index / 8
  let mask := bitMask (index % 8)
  if pool.bitmapBytes ≤ byteIndex then pure (.errInvalidBlock, s, none)
  else
    let addr := pool.bitmap + byteIndex.toNat
    let byte := s.mem addr
    if byte &&& mask = 0 then pure (.errDoubleFree, s, none)
    else do
      let node ← A.nodePtr block
      let next ← A.nodePtr pool.freeList
      let mem := storeWord A.ptrSize s.mem node next
      pure (.ok, ⟨pool.afterFree node, storeByte mem addr (byte &&& ~~~mask)⟩, none)

/-- `mempool_free(pool, block)`: the range and alignment checks run before the lock. -/
def mempoolFree (A : Arch) (s : State) (block : Nat) : Option (Outcome Empty) :=
  if block = 0 then some (.early .errNullPtr s)
  else if !s.pool.initialized then some (.early .errNotInitialized s)
  else if block < s.pool.blocksStart ∨ blocksEndAddr A s.pool ≤ block then
    some (.early .errInvalidBlock s)
  else do
    let rem ← umod (A.sub block s.pool.blocksStart) s.pool.blockSize.toNat
    if rem ≠ 0 then pure (.early .errInvalidBlock s)
    else (freeBody A s block).map (locked s)

/-- `mempool_get_stats(pool, stats)`; `stats` is the address of the caller's record. -/
def mempoolGetStats (s : State) (stats : Nat) : Outcome MempoolStats :=
  if stats = 0 then .early .errNullPtr s
  else if !s.pool.initialized then .early .errNotInitialized s
  else locked s (.ok, s, some s.pool.stats)

/-- Lines 359–368 of `mempool_reset`: the control block once the loop has rebuilt the free list,
whose head is `head`. -/
def Pool.afterReset (pool : Pool) (head : Nat) : Pool :=
  { pool with
    freeList := head
    freeBlocks := pool.totalBlocks
    stats :=
      { totalBlocks := pool.totalBlocks, usedBlocks := 0, freeBlocks := pool.totalBlocks,
        peakUsage := 0, allocCount := 0, freeCount := 0, blockSize := pool.blockSize } }

/-- The critical section of `mempool_reset`. -/
def resetBody (A : Arch) (s : State) : Option (MempoolError × State × Option Empty) := do
  let pool := s.pool
  let threaded ← threadFreeList A pool.blockSize.toNat pool.totalBlocks.toNat
    (memset0 s.mem pool.bitmap pool.bitmapBytes.toNat) pool.blocksStart 0
  pure (.ok, ⟨pool.afterReset threaded.2, threaded.1⟩, none)

/-- `mempool_reset(pool)`. -/
def mempoolReset (A : Arch) (s : State) : Option (Outcome Empty) :=
  if !s.pool.initialized then some (.early .errNotInitialized s)
  else (resetBody A s).map (locked s)

/-- `mempool_contains(pool, ptr)`: a range test, taking no lock. -/
def mempoolContains (A : Arch) (s : State) (ptr : Nat) : Bool :=
  if ptr = 0 ∨ !s.pool.initialized then false
  else decide (s.pool.blocksStart ≤ ptr ∧ ptr < blocksEndAddr A s.pool)

/-- `mempool_set_sync(pool, lock, unlock, user_ctx)`. -/
def mempoolSetSync (s : State) (lock unlock userCtx : Nat) : MempoolError × State :=
  if !s.pool.initialized then (.errNotInitialized, s)
  else (.ok, { s with pool := { s.pool with
    sync := ⟨lock, unlock, userCtx⟩, syncEnabled := lock != 0 && unlock != 0 } })

end Mempool
