import Mempool.Proof.Frame
import Mempool.Proof.InitSpec

/-!
# `Proof/LinkWrites.lean` — `mempool_init` and `mempool_reset` write the bitmap and the links

Both functions write a pool buffer in two stages: `memset` clears the bitmap (lines 187 and
349), and the loop they share (`threadFreeList`, lines 189–196 and 351–358) stores a
`free_node_t` link into the first pointer-sized word of each block. That is all they write to
memory (`Mem`). Besides it, both write the control block in the state buffer, which the model
keeps as the `Pool` record behind the handle, and `mempool_init` stores the handle through
`pool_out` (`InitOutcome.poolOut`); `Proof/Isolation.lean` puts those writes back into one
memory. The loop writes only the link words of the nodes it threads, whatever its bounds
(`threadFreeList_writesOnly`).

For `mempool_reset`, on every control block and every memory, this is the bitmap and the first
word of each of `total_blocks` blocks spaced `block_size` apart: the rest of every block, one the
client still holds included, keeps its bytes (`mempoolReset_writes_link_words`).

For `mempool_init`, on every argument tuple of `size_t` block size and alignment, with no bound on
the sizes, a call that returns `MEMPOOL_OK` writes the bitmap and one link word per block, all
inside `[pool_buffer, pool_buffer + pool_buffer_size)` (`mempoolInit_writes_inside_buffer`). The
loop strides by the `size_t` `aligned_block_size`, so this holds even where that size does not fit
the 32-bit `block_size` field and the pool's later view of its blocks is wrong
(`Proof/InitLimits.lean`): the free-list loop returned, so no `size_t` sum of the layout wrapped,
and the search had checked that sum against the buffer.
-/

set_option autoImplicit false

namespace Mempool

/-- Address `a` lies in the link word of one of the `count` nodes the free-list loop threads from
`start`: the first `k` bytes of `start + i * stride` for some `i < count`. -/
def InLinkWord (k start stride count a : Nat) : Prop :=
  ∃ i < count, start + i * stride ≤ a ∧ a < start + i * stride + k

theorem WritesOnly.memset0 (m : Mem) (a k : Nat) :
    WritesOnly m (memset0 m a k) fun b => a ≤ b ∧ b < a + k := fun b hb => by
  by_contra hin
  exact hb (by rw [memset0_apply, if_neg hin])

/-- The free-list loop stores only the link words of the nodes it threads, on any memory. -/
theorem threadFreeList_writesOnly {A : Arch} {stride count : Nat} {m m' : Mem}
    {cur prev head : Nat} (hrun : threadFreeList A stride count m cur prev = some (m', head)) :
    WritesOnly m m' (InLinkWord A.ptrSize cur stride count) := by
  induction count generalizing m cur prev with
  | zero => cases hrun; exact WritesOnly.refl _ _
  | succ c ih =>
    obtain ⟨-, -, hrest⟩ := threadFreeList_succ.1 hrun
    -- the first store is node `0`'s link; the rest are the later nodes', one stride on
    refine ((WritesOnly.storeWord _ m cur prev).mono fun a ha =>
      ⟨0, Nat.succ_pos c, by simpa using ha⟩).trans ((ih hrest).mono fun a ⟨i, hi, ha⟩ =>
      ⟨i + 1, Nat.succ_lt_succ hi, ?_⟩)
    rw [Nat.succ_mul]
    omega

/-- A successful reset body is the bitmap `memset` followed by a loop that returned. -/
theorem resetBody_eq_some {A : Arch} {s : State} {b : MempoolError × State × Option Empty}
    (h : resetBody A s = some b) :
    ∃ m head, threadFreeList A s.pool.blockSize.toNat s.pool.totalBlocks.toNat
        (memset0 s.mem s.pool.bitmap s.pool.bitmapBytes.toNat) s.pool.blocksStart 0 =
        some (m, head) ∧ b = (.ok, ⟨s.pool.afterReset head, m⟩, none) := by
  simp only [resetBody, Option.bind_eq_bind, Option.bind_eq_some, Option.pure_def,
    Option.some.injEq] at h
  obtain ⟨⟨m, head⟩, hrun, rfl⟩ := h
  exact ⟨m, head, hrun, rfl⟩

/-- What `mempool_reset` writes, on every control block and memory: besides the control block
(free list head, `free_blocks` and the statistics), at most the bitmap and the first
pointer-sized word of each block `blocks_start + i * block_size`, `i < total_blocks`. -/
theorem mempoolReset_writes_link_words {A : Arch} {s : State} {o : Outcome Empty}
    (h : mempoolReset A s = some o) :
    WritesOnly s.mem o.state.mem fun a => InBitmap s.pool a ∨
      InLinkWord A.ptrSize s.pool.blocksStart s.pool.blockSize.toNat s.pool.totalBlocks.toNat a := by
  rcases mempoolReset_cases h with rfl | ⟨b, hb, rfl⟩
  · exact WritesOnly.refl _ _
  obtain ⟨m, head, hrun, rfl⟩ := resetBody_eq_some hb
  exact ((WritesOnly.memset0 _ _ _).mono fun _ => .inl).trans
    ((threadFreeList_writesOnly hrun).mono fun _ => .inr)

theorem mempoolReset_writes_link_words_sample :
    WritesOnly samplePool.mem
      ((mempoolReset lp64 ⟨samplePool.pool, samplePool.mem⟩).get (by decide)).state.mem
      fun a => InBitmap samplePool.pool a ∨ InLinkWord lp64.ptrSize samplePool.pool.blocksStart
        samplePool.pool.blockSize.toNat samplePool.pool.totalBlocks.toNat a :=
  mempoolReset_writes_link_words (Option.some_get _).symm

/-- What a successful `mempool_init` writes, for any arguments: the bitmap it clears and the
link word of each block it threads, `aligned_block_size` apart. -/
theorem mempoolInit_writes_bitmap_links {A : Arch} {prior : Pool} {mem : Mem}
    {stateBuffer stateBufferSize poolBuffer poolBufferSize blockSize alignment poolOut : Nat}
    {o : InitOutcome}
    (h : mempoolInit A prior mem stateBuffer stateBufferSize poolBuffer poolBufferSize blockSize
      alignment poolOut = some o) (hok : o.result = .ok) :
    WritesOnly mem o.mem fun a => InBitmap o.pool a ∨ InLinkWord A.ptrSize o.pool.blocksStart
      (alignUp A blockSize alignment) o.pool.totalBlocks.toNat a := by
  obtain ⟨-, -, -, -, -, -, -, -, -, maxBlocks, -, -, -, -, -, hbb32,
    blocksStart, threaded, -, hthread, rfl⟩ := mempoolInit_ok_inv h hok
  have hB := toNat_ofNat32_of_lt
    (Nat.lt_of_le_of_lt hbb32 (Nat.lt_of_le_of_lt (Arch.wrap_le _) (by decide)))
  exact ((WritesOnly.memset0 _ _ _).mono fun a ha =>
    .inl ⟨ha.1, by show a < poolBuffer + (UInt32.ofNat _).toNat; rw [hB]; exact ha.2⟩).trans
    ((threadFreeList_writesOnly hthread).mono fun _ => .inr)

/-- The bitmap and link words a successful `mempool_init` writes lie inside the pool buffer, for
every `size_t` block size and alignment. -/
theorem mempoolInit_bitmap_links_in_buffer {A : Arch} {prior : Pool} {mem : Mem}
    {stateBuffer stateBufferSize poolBuffer poolBufferSize blockSize alignment poolOut : Nat}
    {o : InitOutcome}
    (h : mempoolInit A prior mem stateBuffer stateBufferSize poolBuffer poolBufferSize blockSize
      alignment poolOut = some o) (hok : o.result = .ok)
    (hbs : blockSize < A.modulus) (hal : alignment < A.modulus) {a : Nat}
    (ha : InBitmap o.pool a ∨ InLinkWord A.ptrSize o.pool.blocksStart
      (alignUp A blockSize alignment) o.pool.totalBlocks.toNat a) :
    poolBuffer ≤ a ∧ a < poolBuffer + poolBufferSize := by
  obtain ⟨-, -, -, -, -, -, hpow, -, hptr, maxBlocks, hmax, -, hfound, -, hn32, hbb32,
    blocksStart, threaded, hstart, hthread, rfl⟩ := mempoolInit_ok_inv h hok
  clear h
  obtain ⟨k, rfl⟩ := isPowerOfTwo_iff.1 hpow
  -- `align_up` did not wrap: the search divided by it
  have haligned : alignUp A blockSize (2 ^ k) = roundUp blockSize (2 ^ k) := by
    rcases alignUp_cases hal hbs with ⟨-, h⟩ | h
    · exact h
    · rw [h] at hmax; cases hmax
  rw [haligned] at hmax hthread hfound hn32 hbb32 hstart ha
  have hge : A.ptrSize ≤ roundUp blockSize (2 ^ k) :=
    Nat.le_trans hptr (le_roundUp (Nat.two_pow_pos k))
  rw [udiv_of_pos (by have := A.ptrSize_ge; omega)] at hmax
  cases hmax
  obtain ⟨hn1, -, hbb, hoff, hreq, -⟩ := layoutSearch_found _ _ rfl hfound
  generalize layoutSearch A poolBufferSize (roundUp blockSize (2 ^ k)) (2 ^ k)
    (poolBufferSize / roundUp blockSize (2 ^ k)) _ = plan at *
  have h32 : A.wrap (2 ^ 32 - 1) < 2 ^ 32 := Nat.lt_of_le_of_lt (Arch.wrap_le _) (by decide)
  have hN := toNat_ofNat32_of_lt (Nat.lt_of_le_of_lt hn32 h32)
  have hB := toNat_ofNat32_of_lt (Nat.lt_of_le_of_lt hbb32 h32)
  obtain ⟨-, rfl⟩ := Arch.ptrAdd_eq_some.1 hstart
  rw [hN] at hthread
  -- the loop returned, so neither `n * aligned_block_size` nor `required` wrapped
  have hend : poolBuffer + plan.blocksOffset + plan.n * roundUp blockSize (2 ^ k) < A.modulus := by
    obtain ⟨c, hc⟩ := Nat.exists_eq_succ_of_ne_zero (Nat.pos_iff_ne_zero.1 hn1)
    rw [hc] at hthread ⊢
    exact threadFreeList_end_lt hthread
  have hreq' : plan.blocksOffset + plan.n * roundUp blockSize (2 ^ k) ≤ poolBufferSize := by
    rwa [requiredFor, ← hoff, Arch.wrap_of_lt (show plan.n * _ < A.modulus by omega),
      Arch.wrap_of_lt (by omega)] at hreq
  -- and the bitmap, of at most `n` bytes, is no longer than the blocks
  have hbbn : plan.bitmapBytes ≤ plan.n * roundUp blockSize (2 ^ k) :=
    calc plan.bitmapBytes ≤ (plan.n + 7) / 8 := hbb ▸ Nat.div_le_div_right (Arch.wrap_le _)
      _ ≤ plan.n := by omega
      _ ≤ plan.n * roundUp blockSize (2 ^ k) :=
        Nat.le_mul_of_pos_right _ (by have := A.ptrSize_ge; omega)
  rcases ha with ⟨ha₁, ha₂⟩ | ⟨i, hi, ha₁, ha₂⟩
  · change a < poolBuffer + (UInt32.ofNat plan.bitmapBytes).toNat at ha₂
    rw [hB] at ha₂
    exact ⟨ha₁, by omega⟩
  · change i < (UInt32.ofNat plan.n).toNat at hi
    change poolBuffer + plan.blocksOffset + i * roundUp blockSize (2 ^ k) ≤ a at ha₁
    change a < poolBuffer + plan.blocksOffset + i * roundUp blockSize (2 ^ k) + A.ptrSize at ha₂
    rw [hN] at hi
    have hlast := Nat.mul_le_mul_right (roundUp blockSize (2 ^ k)) (Nat.succ_le_of_lt hi)
    rw [Nat.succ_mul] at hlast
    exact ⟨by omega, by omega⟩

/-- Where a successful `mempool_init` writes, for every `size_t` block size and alignment: besides
the control block in the state buffer and the handle it stores through `pool_out`, the bitmap
and the link word of each block it threads, `blocks_start + i * aligned_block_size` for
`i < total_blocks`, all inside the pool buffer. -/
theorem mempoolInit_writes_inside_buffer {A : Arch} {prior : Pool} {mem : Mem}
    {stateBuffer stateBufferSize poolBuffer poolBufferSize blockSize alignment poolOut : Nat}
    {o : InitOutcome}
    (h : mempoolInit A prior mem stateBuffer stateBufferSize poolBuffer poolBufferSize blockSize
      alignment poolOut = some o) (hok : o.result = .ok)
    (hbs : blockSize < A.modulus) (hal : alignment < A.modulus) :
    WritesOnly mem o.mem fun a => poolBuffer ≤ a ∧ a < poolBuffer + poolBufferSize ∧
      (InBitmap o.pool a ∨ InLinkWord A.ptrSize o.pool.blocksStart
        (alignUp A blockSize alignment) o.pool.totalBlocks.toNat a) :=
  (mempoolInit_writes_bitmap_links h hok).mono fun _ ha =>
    (mempoolInit_bitmap_links_in_buffer h hok hbs hal ha).imp_right fun hlt => ⟨hlt, ha⟩

theorem mempoolInit_writes_inside_buffer_sample :
    WritesOnly (fun _ => 0) samplePool.mem fun a => 4096 ≤ a ∧ a < 4096 + 512 ∧
      (InBitmap samplePool.pool a ∨ InLinkWord lp64.ptrSize samplePool.pool.blocksStart
        (alignUp lp64 64 8) samplePool.pool.totalBlocks.toNat a) :=
  mempoolInit_writes_inside_buffer (Option.some_get _).symm (by decide) (by decide) (by decide)

end Mempool
