import Mempool.Model.Init
import Mempool.Model.Run

/-!
# `Model/V2.lean` — the caller-visible implementation

`part_008` lines 452–917: the earlier version of the library, where `mempool_t` is a type the
caller allocates and `mempool_init` takes five arguments. Its control block has the fields of
`Pool` under the same names (`buffer_start` for `pool_buffer_start`), so the model reuses `Pool`
and `State`.

Where the two versions are the same text, the definitions are shared: the layout search and the
control block `mempool_init` writes, the free-list loop, `mempool_get_stats`, `mempool_reset`,
`mempool_contains` and `mempool_set_sync`. What v2 does differently is here:

* `mempool_init` checks no state-buffer size and stores no `pool_out`, and a failure leaves the
  control block as it was (the current version clears it first);
* `mempool_alloc` pops the head before it checks `free_blocks`, restoring it on failure, and
  guards the bitmap store with `index < total_blocks`;
* `mempool_free` computes the index before the lock and rejects `index >= total_blocks` there,
  and reads the bitmap byte again after storing the link word.
-/

set_option autoImplicit false

namespace Mempool

namespace V2

/-- `mempool_init(pool, buffer, buffer_size, block_size, alignment)` on a control block holding
`prior` and on memory `mem`: the code, the control block and memory after it. -/
def mempoolInit (A : Arch) (prior : Pool) (mem : Mem)
    (pool buffer bufferSize blockSize alignment : Nat) : Option (MempoolError × Pool × Mem) :=
  if pool = 0 ∨ buffer = 0 then some (.errNullPtr, prior, mem)
  else if bufferSize = 0 ∨ blockSize = 0 then some (.errInvalidSize, prior, mem)
  else if !isPowerOfTwo alignment then some (.errAlignment, prior, mem)
  else if buffer &&& A.sub alignment 1 ≠ 0 then some (.errAlignment, prior, mem)
  else if blockSize < A.ptrSize then some (.errInvalidSize, prior, mem)
  else do
    let alignedBlockSize := alignUp A blockSize alignment
    let maxBlocks ← udiv bufferSize alignedBlockSize
    if maxBlocks = 0 then pure (.errInvalidSize, prior, mem)
    else
      let plan := layoutSearch A bufferSize alignedBlockSize alignment maxBlocks
        ⟨maxBlocks, 0, 0, false⟩
      if !plan.found ∨ plan.n = 0 then pure (.errInvalidSize, prior, mem)
      else if A.wrap (2 ^ 32 - 1) < plan.n then pure (.errInvalidSize, prior, mem)
      else if A.wrap (2 ^ 32 - 1) < plan.bitmapBytes then pure (.errInvalidSize, prior, mem)
      else do
        let blocksStart ← A.ptrAdd buffer plan.blocksOffset
        let threaded ← threadFreeList A alignedBlockSize (UInt32.ofNat plan.n).toNat
          (memset0 mem buffer plan.bitmapBytes) blocksStart 0
        pure (.ok, initPool buffer blocksStart threaded.2 plan.bitmapBytes alignedBlockSize
          plan.n alignment, threaded.1)

/-- The critical section of v2's `mempool_alloc`. -/
def allocBody (A : Arch) (s : State) : Option (MempoolError × State × Option Nat) :=
  let pool := s.pool
  if pool.freeList = 0 then some (.errOutOfMemory, s, none)
  else do
    let node ← A.nodePtr pool.freeList
    let popped := { pool with freeList := loadWord A.ptrSize s.mem node }
    if popped.freeBlocks = 0 then
      pure (.errOutOfMemory, ⟨{ popped with freeList := node }, s.mem⟩, none)
    else do
      let pool' := pool.afterAlloc (loadWord A.ptrSize s.mem node)
      let index ← mempoolBlockIndex A pool' node
      let addr := pool'.bitmap + (index / 8).toNat
      let mem :=
        if index < pool'.totalBlocks then storeByte s.mem addr (s.mem addr ||| bitMask (index % 8))
        else s.mem
      pure (.ok, ⟨pool', mem⟩, some node)

/-- v2's `mempool_alloc(pool, block)`. -/
def mempoolAlloc (A : Arch) (s : State) (block : Nat) : Option (Outcome Nat) :=
  if block = 0 then some (.early .errNullPtr s)
  else if !s.pool.initialized then some (.early .errNotInitialized s)
  else (allocBody A s).map (locked s)

/-- The critical section of v2's `mempool_free`, for a block whose index passed the checks. -/
def freeBody (A : Arch) (s : State) (block : Nat) (index : UInt32) :
    Option (MempoolError × State × Option Empty) :=
  let pool := s.pool
  let addr := pool.bitmap + (index / 8).toNat
  let mask := bitMask (index % 8)
  if s.mem addr &&& mask = 0 then some (.errDoubleFree, s, none)
  else do
    let node ← A.nodePtr block
    let next ← A.nodePtr pool.freeList
    let mem := storeWord A.ptrSize s.mem node next
    pure (.ok, ⟨pool.afterFree node, storeByte mem addr (mem addr &&& ~~~mask)⟩, none)

/-- v2's `mempool_free(pool, block)`: the range, alignment and index checks run before the lock. -/
def mempoolFree (A : Arch) (s : State) (block : Nat) : Option (Outcome Empty) :=
  if block = 0 then some (.early .errNullPtr s)
  else if !s.pool.initialized then some (.early .errNotInitialized s)
  else if block < s.pool.blocksStart ∨ blocksEndAddr A s.pool ≤ block then
    some (.early .errInvalidBlock s)
  else do
    let offset := A.sub block s.pool.blocksStart
    let rem ← umod offset s.pool.blockSize.toNat
    if rem ≠ 0 then pure (.early .errInvalidBlock s)
    else do
      let q ← udiv offset s.pool.blockSize.toNat
      let index := UInt32.ofNat q
      if s.pool.totalBlocks ≤ index then pure (.early .errInvalidBlock s)
      else (freeBody A s block index).map (locked s)

/-- One call on a v2 pool; the calls whose text is the current version's are the current ones. -/
def step (A : Arch) (s : State) : Call → Option (Reply × State)
  | .alloc block => (mempoolAlloc A s block).map fun o => (o.reply .block, o.state)
  | .free block => (mempoolFree A s block).map fun o => (.code o.result, o.state)
  | c => Mempool.step A s c

/-- The states a v2 pool passes through, as `Reachable` for the current version. -/
inductive Reachable (A : Arch) (s₀ : State) : State → History → Prop
  | init : Reachable A s₀ s₀ []
  | call {s : State} {h : History} {c : Call} {r : Reply} {s' : State} :
      Reachable A s₀ s h → step A s c = some (r, s') → Reachable A s₀ s' ((c, r) :: h)
  | store {s : State} {h : History} {a : Nat} {v : UInt8} :
      Reachable A s₀ s h → InHeldBlock h s.pool.blockSize.toNat a →
      Reachable A s₀ ⟨s.pool, storeByte s.mem a v⟩ h

end V2

end Mempool
