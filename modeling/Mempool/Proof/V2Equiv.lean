import Mempool.Model.V2
import Mempool.Proof.Refinement

/-!
# `Proof/V2Equiv.lean` — the two versions of the library agree

`mempool_init` of either version returns the same code on the same arguments, and on success
leaves the same control block and memory. From there the versions cannot be told apart: on a
state that represents a free stack each call of v2 is the current call (`Rep.v2_step`), because
where their defensive code differs the invariant makes both branches the same. v2's alloc never
finds `free_blocks = 0` with a non-`NULL` head, and its `index < total_blocks` holds whenever the
current `byte_index < bitmap_bytes` does; its free's `index >= total_blocks` never fires past the
range check, and the bitmap byte it reads after storing the link word is the one before, the
link lying in the block. So the two have the same reachable states and histories.
-/

set_option autoImplicit false

namespace Mempool

theorem v2_mempoolFree_eq_freeChecks (A : Arch) (s : State) (block : Nat) :
    V2.mempoolFree A s block = freeChecks A s block (do
      let q ← udiv (A.sub block s.pool.blocksStart) s.pool.blockSize.toNat
      if s.pool.totalBlocks ≤ UInt32.ofNat q then pure (.early .errInvalidBlock s)
      else (V2.freeBody A s block (UInt32.ofNat q)).map (locked s)) := rfl

namespace Rep

variable {A : Arch} {s : State} {S : List Nat}

theorem freeBlocks_ne_zero {i : Nat} (hr : Rep A s (i :: S)) : s.pool.freeBlocks ≠ 0 := fun h => by
  have := hr.freeBlocks_eq; rw [h] at this; simp at this

/-- v2's critical section of `mempool_alloc` is the current one. -/
theorem v2_allocBody (hr : Rep A s S) : V2.allocBody A s = allocBody A s := by
  cases S with
  | nil =>
    rw [hr.allocBody_nil]
    simp [V2.allocBody, hr.freeList_eq_zero_iff.2 rfl]
  | cons i S =>
    have hl := hr.layout
    have hi := hr.lt i (List.mem_cons_self _ _)
    have hi32 := hr.lt_two_pow_32 (List.mem_cons_self _ _)
    have hidx : mempoolBlockIndex A
        (s.pool.afterAlloc (loadWord A.ptrSize s.mem (s.pool.blockAddr i))) (s.pool.blockAddr i) =
        some (UInt32.ofNat i) := hl.blockIndex_blockAddr hi
    have hlt : UInt32.ofNat i < s.pool.totalBlocks := by
      rw [u32_lt_iff, toNat_ofNat32_of_lt hi32]; exact hi
    rw [hr.allocBody_cons]
    dsimp only [V2.allocBody]
    rw [hr.chain.head_eq, if_neg (Nat.pos_iff_ne_zero.1 (hl.blockAddr_pos i)),
      hl.nodePtr_blockAddr hi]
    have hlt' : UInt32.ofNat i <
        (s.pool.afterAlloc (loadWord A.ptrSize s.mem (s.pool.blockAddr i))).totalBlocks := hlt
    simp only [Option.bind_eq_bind, Option.some_bind, if_neg hr.freeBlocks_ne_zero, hidx,
      Option.pure_def, div8_ofNat32 hi32, if_pos hlt']
    rfl

/-- v2's critical section of `mempool_free` on block `i`. -/
theorem v2_freeBody {i : Nat} (hr : Rep A s S) (hi : i < s.pool.totalBlocks.toNat) :
    V2.freeBody A s (s.pool.blockAddr i) (UInt32.ofNat i) =
      some (if i ∈ S then (.errDoubleFree, s, none) else (.ok, freeState A s i, none)) := by
  have hi32 : i < 2 ^ 32 := Nat.lt_trans hi (u32_toNat_lt _)
  have hbm := hr.layout.bitmap_lt_blockAddr (hr.layout.div8_lt_bitmapBytes hi) i
  dsimp only [V2.freeBody]
  by_cases hiS : i ∈ S
  · rw [if_pos ((hr.bitTest_iff hi).2 hiS), if_pos hiS]
  · rw [if_neg (mt (hr.bitTest_iff hi).1 hiS), if_neg hiS]
    simp only [hr.layout.nodePtr_blockAddr hi, hr.nodePtr_freeList, Option.bind_eq_bind,
      Option.some_bind, div8_ofNat32 hi32, storeWord_apply_of_not_mem (Or.inl hbm)]
    rfl

/-- Past the checks both versions share, v2's index check and critical section do what the
current critical section does. -/
theorem v2_freeTail {i : Nat} (hr : Rep A s S) (hi : i < s.pool.totalBlocks.toNat) :
    (do
      let q ← udiv (A.sub (s.pool.blockAddr i) s.pool.blocksStart) s.pool.blockSize.toNat
      if s.pool.totalBlocks ≤ UInt32.ofNat q then pure (.early .errInvalidBlock s)
      else (V2.freeBody A s (s.pool.blockAddr i) (UInt32.ofNat q)).map (locked s)) =
      (freeBody A s (s.pool.blockAddr i)).map (locked s) := by
  have hl := hr.layout
  have hpos := hl.blockSize_pos
  have hi32 : i < 2 ^ 32 := Nat.lt_trans hi (u32_toNat_lt _)
  have hnot : ¬ s.pool.totalBlocks ≤ UInt32.ofNat i := by
    rw [u32_le_iff, toNat_ofNat32_of_lt hi32]; omega
  have hsub : A.sub (s.pool.blockAddr i) s.pool.blocksStart = i * s.pool.blockSize.toNat := by
    rw [Pool.blockAddr, Arch.sub_of_le (Nat.le_add_right _ _)
      (by rw [Nat.add_sub_cancel_left]; exact hl.offset_lt hi), Nat.add_sub_cancel_left]
  rw [hsub, udiv_of_pos hpos, Nat.mul_div_cancel _ hpos, freeBody_blockAddr hr hi]
  simp only [Option.bind_eq_bind, Option.some_bind, if_neg hnot, v2_freeBody hr hi,
    Option.pure_def, Option.map_some']

/-- On a state that represents a free stack, every call of v2 is the current call. -/
theorem v2_step (hr : Rep A s S) (c : Call) : V2.step A s c = step A s c := by
  cases c with
  | alloc block => simp only [V2.step, step, V2.mempoolAlloc, mempoolAlloc, hr.v2_allocBody]
  | free p =>
    simp only [V2.step, step]
    by_cases hp : p = 0
    · simp [V2.mempoolFree, mempoolFree, hp]
    rw [v2_mempoolFree_eq_freeChecks, mempoolFree_eq_freeChecks, hr.layout.freeChecks_eq hp,
      hr.layout.freeChecks_eq hp]
    cases hidx : s.pool.geometry.indexOf p with
    | none => rfl
    | some i =>
      obtain ⟨hi, rfl⟩ := (Geometry.indexOf_eq_some_iff hr.layout.blockSize_pos).1 hidx
      simp only
      rw [show s.pool.geometry.addr i = s.pool.blockAddr i from rfl, hr.v2_freeTail hi]
  | reset => rfl
  | getStats _ => rfl
  | contains _ => rfl
  | setSync _ _ _ => rfl

end Rep

/-- `mempool_init` of both versions returns the same code, given a large enough state buffer and a
non-`NULL` `pool_out`. -/
theorem v2_mempoolInit_code {A : Arch} {prior : Pool} {mem : Mem}
    {stateBuffer stateBufferSize poolBuffer poolBufferSize blockSize alignment poolOut : Nat}
    (hstate : mempoolStateSize A ≤ stateBufferSize) (hout : poolOut ≠ 0) :
    (mempoolInit A prior mem stateBuffer stateBufferSize poolBuffer poolBufferSize blockSize
        alignment poolOut).map (·.result) =
      (V2.mempoolInit A prior mem stateBuffer poolBuffer poolBufferSize blockSize alignment).map
        (·.1) := by
  unfold mempoolInit V2.mempoolInit
  by_cases h1 : stateBuffer = 0 ∨ poolBuffer = 0
  · rw [if_pos (h1.elim Or.inl (Or.inr ∘ Or.inl)), if_pos h1]; rfl
  rw [if_neg (by omega), if_neg (Nat.not_lt.2 hstate), if_neg h1]
  by_cases h3 : poolBufferSize = 0 ∨ blockSize = 0
  · rw [if_pos h3, if_pos h3]; rfl
  rw [if_neg h3, if_neg h3]
  by_cases h4 : (!isPowerOfTwo alignment) = true
  · rw [if_pos h4, if_pos h4]; rfl
  rw [if_neg h4, if_neg h4]
  by_cases h5 : poolBuffer &&& A.sub alignment 1 ≠ 0
  · rw [if_pos h5, if_pos h5]; rfl
  rw [if_neg h5, if_neg h5]
  by_cases h6 : blockSize < A.ptrSize
  · rw [if_pos h6, if_pos h6]; rfl
  rw [if_neg h6, if_neg h6]
  simp only [Option.map_bind, Option.bind_eq_bind]
  congr 1
  funext m
  simp only [Function.comp_apply]
  by_cases hm : m = 0
  · rw [if_pos hm, if_pos hm]; rfl
  rw [if_neg hm, if_neg hm]
  generalize layoutSearch A poolBufferSize (alignUp A blockSize alignment) alignment m
    ⟨m, 0, 0, false⟩ = plan
  by_cases hp : (!plan.found) = true ∨ plan.n = 0
  · rw [if_pos hp, if_pos hp]; rfl
  rw [if_neg hp, if_neg hp]
  by_cases hn : A.wrap (2 ^ 32 - 1) < plan.n
  · rw [if_pos (.inl hn), if_pos hn]; rfl
  rw [if_neg hn]
  by_cases hb : A.wrap (2 ^ 32 - 1) < plan.bitmapBytes
  · rw [if_pos (.inr hb), if_pos hb]; rfl
  rw [if_neg (not_or.2 ⟨hn, hb⟩), if_neg hb]
  simp [Option.map_bind, Function.comp_def]

/-- On success both versions leave the same control block and memory. -/
theorem v2_mempoolInit_ok {A : Arch} {prior : Pool} {mem : Mem}
    {stateBuffer stateBufferSize poolBuffer poolBufferSize blockSize alignment poolOut : Nat}
    {o : InitOutcome}
    (h : mempoolInit A prior mem stateBuffer stateBufferSize poolBuffer poolBufferSize blockSize
      alignment poolOut = some o) (hok : o.result = .ok) :
    V2.mempoolInit A prior mem stateBuffer poolBuffer poolBufferSize blockSize alignment =
      some (.ok, o.pool, o.mem) := by
  obtain ⟨hsb, hpb, -, -, hpbs, hbs, hpow, hal, hptr, maxBlocks, hmax, hm0, hfound, hn0, hn32, hbb32,
    blocksStart, threaded, hstart, hthread, rfl⟩ := mempoolInit_ok_inv h hok
  simp only [V2.mempoolInit, hsb, hpb, hpbs, hbs, hpow, hal, hptr, hmax, hm0, hfound, hn0, hstart,
    hthread, or_self, if_false, Bool.not_true, Bool.false_eq_true, ne_eq, not_true_eq_false,
    Nat.not_lt.2 hn32, Nat.not_lt.2 hbb32, Option.bind_eq_bind, Option.some_bind,
    Option.pure_def, not_false_eq_true, Nat.lt_irrefl, Nat.not_lt.2 hptr]

section FromInit

variable {A : Arch} {prior : Pool} {mem : Mem}
  {stateBuffer stateBufferSize poolBuffer poolBufferSize blockSize alignment poolOut : Nat}
  {o : InitOutcome}
  (hinit : mempoolInit A prior mem stateBuffer stateBufferSize poolBuffer poolBufferSize blockSize
    alignment poolOut = some o)
  (hok : o.result = .ok) (hsize : poolBufferSize < A.modulus)
  (hbs : blockSize < A.modulus) (hal : alignment < A.modulus)
  (hround : roundUp blockSize alignment ≤ 2 ^ 32 - 1)

include hinit hok hsize hbs hal hround

/-- The two versions reach the same states with the same histories. -/
theorem v2_reachable_iff {s : State} {h : History} :
    V2.Reachable A ⟨o.pool, o.mem⟩ s h ↔ Reachable A ⟨o.pool, o.mem⟩ s h := by
  constructor
  · intro hv
    induction hv with
    | init => exact .init
    | call _ hstep ih =>
      refine ih.call ?_
      rwa [← (Reachable.refines hinit hok hsize hbs hal hround ih).rep.v2_step]
    | store _ ha ih => exact ih.store ha
  · intro hc
    induction hc with
    | init => exact .init
    | call hprev hstep ih =>
      refine ih.call ?_
      rwa [(Reachable.refines hinit hok hsize hbs hal hround hprev).rep.v2_step]
    | store _ ha ih => exact ih.store ha

end FromInit

/-- The two implementations agree. For every argument tuple with a state buffer of at least
`mempool_state_size()` bytes and a non-`NULL` `pool_out`, the current `mempool_init` and v2's
return the same code (or both have undefined behaviour). When they succeed, on `size_t` sizes with
a rounded block size that fits in 32 bits, they leave the same control block and memory; in every
state a client then reaches, each call of v2 (alloc, free of any pointer, reset, get_stats,
contains, set_sync) returns what the current call returns and leaves the same state; and the two
reach the same states with the same histories of calls and replies. -/
theorem v2_agrees {A : Arch} {prior : Pool} {mem : Mem}
    {stateBuffer stateBufferSize poolBuffer poolBufferSize blockSize alignment poolOut : Nat}
    (hstate : mempoolStateSize A ≤ stateBufferSize) (hout : poolOut ≠ 0) :
    (mempoolInit A prior mem stateBuffer stateBufferSize poolBuffer poolBufferSize blockSize
        alignment poolOut).map (·.result) =
      (V2.mempoolInit A prior mem stateBuffer poolBuffer poolBufferSize blockSize alignment).map
        (·.1) ∧
    ∀ o, mempoolInit A prior mem stateBuffer stateBufferSize poolBuffer poolBufferSize blockSize
        alignment poolOut = some o → o.result = .ok → poolBufferSize < A.modulus →
      blockSize < A.modulus → alignment < A.modulus → roundUp blockSize alignment ≤ 2 ^ 32 - 1 →
      V2.mempoolInit A prior mem stateBuffer poolBuffer poolBufferSize blockSize alignment =
          some (.ok, o.pool, o.mem) ∧
        (∀ s h, Reachable A ⟨o.pool, o.mem⟩ s h → ∀ c, V2.step A s c = step A s c) ∧
        ∀ s h, V2.Reachable A ⟨o.pool, o.mem⟩ s h ↔ Reachable A ⟨o.pool, o.mem⟩ s h :=
  ⟨v2_mempoolInit_code hstate hout, fun _ hinit hok hsize hbs hal hround =>
    ⟨v2_mempoolInit_ok hinit hok,
      fun _ _ hreach => (Reachable.refines hinit hok hsize hbs hal hround hreach).rep.v2_step,
      fun _ _ => v2_reachable_iff hinit hok hsize hbs hal hround⟩⟩

theorem v2_agrees_sample :
    (mempoolInit lp64 Pool.zero (fun _ => 0) 256 112 4096 512 64 8 128).map (·.result) =
      (V2.mempoolInit lp64 Pool.zero (fun _ => 0) 256 4096 512 64 8).map (·.1) ∧
    ∀ o, mempoolInit lp64 Pool.zero (fun _ => 0) 256 112 4096 512 64 8 128 = some o →
      o.result = .ok → 512 < lp64.modulus → 64 < lp64.modulus → 8 < lp64.modulus →
      roundUp 64 8 ≤ 2 ^ 32 - 1 →
      V2.mempoolInit lp64 Pool.zero (fun _ => 0) 256 4096 512 64 8 = some (.ok, o.pool, o.mem) ∧
        (∀ s h, Reachable lp64 ⟨o.pool, o.mem⟩ s h → ∀ c, V2.step lp64 s c = step lp64 s c) ∧
        ∀ s h, V2.Reachable lp64 ⟨o.pool, o.mem⟩ s h ↔ Reachable lp64 ⟨o.pool, o.mem⟩ s h :=
  v2_agrees (by decide) (by decide)

end Mempool
