import Mempool.Model.Init
import Mempool.Proof.Step

/-!
# `Proof/InitSpec.lean` — what a successful `mempool_init` leaves

`mempool_init` computes its layout in `size_t`, where every step may wrap, then stores it in
`uint32_t` fields and threads the free list through it. This file shows that when the call
succeeds, the rounded block size `roundUp block_size alignment` fits in 32 bits and the
arguments are `size_t` values, the pool it leaves represents the fresh stack
`[N-1, ..., 0]` (`mempoolInit_spec`): that is the base case of every run-level result.

The argument is short once three facts are in place. `align_up` is exact unless it wraps, and a
wrapped `align_up` is `0`, which the division `pool_buffer_size / aligned_block_size` would then
divide by (`alignUp_cases`); so a call that got past the division did not wrap there. The search
ends on a candidate it computed from `n` (`layoutSearch_found`), and at most
`pool_buffer_size / aligned_block_size` blocks are too few for `bitmap_bytes` or the padding to
wrap. Whether `required` wrapped is not needed: had it wrapped, the threading loop's pointer
increments would have left the address space, and the call would not have returned at all
(`threadFreeList_end_lt`). `Proof/InitLimits.lean` shows that this last case is reachable.
-/

set_option autoImplicit false

namespace Mempool

/-! ## `is_power_of_two` and masks -/

theorem testBit_of_le_of_lt {x k : Nat} (h₁ : 2 ^ k ≤ x) (h₂ : x < 2 ^ (k + 1)) :
    x.testBit k = true := by
  rw [Nat.pow_succ] at h₂
  rw [Nat.testBit_to_div_mod, Nat.div_eq_of_lt_le (show 1 * 2 ^ k ≤ x by omega)
    (show x < Nat.succ 1 * 2 ^ k by omega)]
  rfl

/-- `is_power_of_two` decides what its name says. -/
theorem isPowerOfTwo_iff {v : Nat} : isPowerOfTwo v = true ↔ ∃ k, v = 2 ^ k := by
  simp only [isPowerOfTwo, Bool.and_eq_true, decide_eq_true_eq, beq_iff_eq]
  constructor
  · rintro ⟨hpos, hand⟩
    refine ⟨v.log2, ?_⟩
    have hlo := Nat.log2_self_le (Nat.pos_iff_ne_zero.1 hpos)
    have hhi := @Nat.lt_log2_self v
    -- otherwise bit `log2 v` would be set in both `v` and `v - 1`
    by_contra hne
    have h1 : v.testBit v.log2 = true := testBit_of_le_of_lt hlo hhi
    have h2 : (v - 1).testBit v.log2 = true := testBit_of_le_of_lt (by omega) (by omega)
    have := congrArg (fun x => x.testBit v.log2) hand
    simp [Nat.testBit_and, h1, h2] at this
  · rintro ⟨k, rfl⟩
    exact ⟨Nat.two_pow_pos k, by rw [Nat.and_pow_two_sub_one_eq_mod, Nat.mod_self]⟩

/-- `y & ~(2^k - 1)` on `w` bits rounds `y` down to a multiple of `2^k`. -/
theorem and_mask_complement {y w k : Nat} (hy : y < 2 ^ w) (hk : k ≤ w) :
    y &&& (2 ^ w - 1 - (2 ^ k - 1)) = y - y % 2 ^ k := by
  have hpk := Nat.pow_le_pow_right (by decide : 0 < 2) hk
  have hk0 := Nat.two_pow_pos k
  have hmask : 2 ^ w - 1 - (2 ^ k - 1) = 2 ^ w - ((2 ^ k - 1) + 1) := by omega
  have hdiv : y - y % 2 ^ k = 2 ^ k * (y / 2 ^ k) := by
    have := Nat.div_add_mod y (2 ^ k); omega
  rw [hmask, hdiv]
  apply Nat.eq_of_testBit_eq
  intro i
  rw [Nat.testBit_and, Nat.testBit_two_pow_sub_succ (by omega), Nat.testBit_two_pow_sub_one,
    Nat.testBit_mul_pow_two, ← Nat.shiftRight_eq_div_pow, Nat.testBit_shiftRight]
  by_cases hki : k ≤ i
  · by_cases hiw : i < w
    · simp [hki, hiw, Nat.not_lt.2 hki, Nat.add_sub_cancel' hki]
    · have : y.testBit i = false := Nat.testBit_lt_two_pow
        (Nat.lt_of_lt_of_le hy (Nat.pow_le_pow_right (by decide) (by omega)))
      simp [hki, hiw, Nat.add_sub_cancel' hki, this]
  · simp [hki, Nat.lt_of_not_le hki]

/-! ## `align_up` -/

/-- `ceil(value / alignment) * alignment`, with no wrap-around: what `align_up` is for. -/
def roundUp (value alignment : Nat) : Nat := (value + (alignment - 1)) / alignment * alignment

theorem le_roundUp {v a : Nat} (ha : 0 < a) : v ≤ roundUp v a := by
  have := Nat.div_add_mod (v + (a - 1)) a
  have := Nat.mod_lt (v + (a - 1)) ha
  unfold roundUp
  rw [Nat.mul_comm]
  omega

theorem le_roundUp_self {v a : Nat} (hv : 0 < v) : a ≤ roundUp v a := by
  rcases Nat.eq_zero_or_pos a with rfl | ha
  · exact Nat.zero_le _
  · exact Nat.le_mul_of_pos_left a ((Nat.le_div_iff_mul_le ha).2 (by omega))

theorem roundUp_mod {v a : Nat} : roundUp v a % a = 0 := Nat.mul_mod_left _ _

variable {A : Arch}

theorem Arch.sub_one {a : Nat} (h1 : 1 ≤ a) (h : a ≤ A.modulus) : A.sub a 1 = a - 1 :=
  Arch.sub_of_le h1 (by omega)

theorem alignUp_two_pow {v k : Nat} (hk : 2 ^ k < A.modulus) :
    alignUp A v (2 ^ k) = A.wrap (v + (2 ^ k - 1)) - A.wrap (v + (2 ^ k - 1)) % 2 ^ k := by
  unfold alignUp
  rw [Arch.sub_one (Nat.two_pow_pos k) (Nat.le_of_lt hk)]
  exact and_mask_complement (A.wrap_lt _) (Nat.le_of_lt ((Nat.pow_lt_pow_iff_right (by decide)).1 hk))

theorem alignUp_of_lt {v k : Nat} (hk : 2 ^ k < A.modulus) (hv : v + (2 ^ k - 1) < A.modulus) :
    alignUp A v (2 ^ k) = roundUp v (2 ^ k) := by
  rw [alignUp_two_pow hk, Arch.wrap_of_lt hv, roundUp]
  have := Nat.div_add_mod (v + (2 ^ k - 1)) (2 ^ k)
  rw [Nat.mul_comm] at this
  omega

/-- `align_up` on a `size_t` value is exact unless `value + mask` wraps, and then it is `0`. -/
theorem alignUp_cases {v k : Nat} (hk : 2 ^ k < A.modulus) (hv : v < A.modulus) :
    (v + (2 ^ k - 1) < A.modulus ∧ alignUp A v (2 ^ k) = roundUp v (2 ^ k)) ∨
      alignUp A v (2 ^ k) = 0 := by
  by_cases hwrap : v + (2 ^ k - 1) < A.modulus
  · exact .inl ⟨hwrap, alignUp_of_lt hk hwrap⟩
  · rw [alignUp_two_pow hk]
    have hlt : A.wrap (v + (2 ^ k - 1)) < 2 ^ k := by
      unfold Arch.wrap
      rw [Nat.mod_eq_sub_mod (by omega), Nat.mod_eq_of_lt (by omega)]
      omega
    exact .inr (by rw [Nat.mod_eq_of_lt hlt, Nat.sub_self])

/-! ## The layout search -/

section Search

variable {size aligned alignment : Nat}

/-- When the search finds a layout, it is the one its loop body computed for the first `n`,
counting down, whose `required` fits; every larger candidate's did not. -/
theorem layoutSearch_found :
    ∀ (n : Nat) (plan : LayoutPlan), plan.found = false →
      (layoutSearch A size aligned alignment n plan).found = true →
      let r := layoutSearch A size aligned alignment n plan
      1 ≤ r.n ∧ r.n ≤ n ∧ r.bitmapBytes = bitmapBytesFor A r.n ∧
        r.blocksOffset = blocksOffsetFor A alignment r.n ∧
        requiredFor A aligned alignment r.n ≤ size ∧
        ∀ j, r.n < j → j ≤ n → size < requiredFor A aligned alignment j
  | 0, plan, hplan, hfound => absurd hfound (by simp [layoutSearch, hplan])
  | n + 1, _, _, hfound => by
    by_cases hreq : requiredFor A aligned alignment (n + 1) ≤ size
    · rw [layoutSearch, if_pos hreq]
      exact ⟨Nat.le_add_left _ _, le_rfl, rfl, rfl, hreq, fun j hj hj' => absurd hj' (Nat.not_le_of_lt hj)⟩
    · rw [layoutSearch, if_neg hreq] at hfound ⊢
      obtain ⟨h1, hn, hbb, hoff, hfit, hmax⟩ := layoutSearch_found n _ rfl hfound
      refine ⟨h1, Nat.le_succ_of_le hn, hbb, hoff, hfit, fun j hj hj' => ?_⟩
      rcases Nat.lt_or_ge n j with hnj | hnj
      · rw [show j = n + 1 by omega]; exact Nat.lt_of_not_le hreq
      · exact hmax j hj hnj

end Search

theorem padTo_lt {e a : Nat} (ha : 0 < a) : padTo e a < a := by
  unfold padTo
  dsimp only
  split
  · split <;> omega
  · exact ha

/-- `bitmap_bytes` and `blocks_offset` do not wrap for a candidate whose blocks alone fit in a
`size_t` buffer. -/
theorem blocksOffsetFor_eq {n aligned alignment size : Nat} (hn : 1 ≤ n)
    (hfit : n * aligned ≤ size) (hsize : size < A.modulus) (hal : alignment ≤ aligned)
    (hal0 : 0 < alignment) (haligned : 2 ≤ aligned) :
    bitmapBytesFor A n = (n + 7) / 8 ∧
      blocksOffsetFor A alignment n = (n + 7) / 8 + padTo ((n + 7) / 8) alignment := by
  have hM := A.modulus_ge
  have h2 : n * 2 ≤ n * aligned := Nat.mul_le_mul_left n haligned
  have hbb : bitmapBytesFor A n = (n + 7) / 8 := by
    rw [bitmapBytesFor, Arch.wrap_of_lt (by omega)]
  refine ⟨hbb, ?_⟩
  have hpad := @padTo_lt ((n + 7) / 8) alignment hal0
  have hmul : n + aligned ≤ n * aligned + 1 := by
    have := Nat.mul_le_mul_right aligned (show 1 ≤ n from hn)
    have := Nat.mul_le_mul_left (n - 1) (show 1 ≤ aligned by omega)
    rw [show n * aligned = (n - 1) * aligned + aligned by
      rw [← Nat.succ_mul, Nat.succ_eq_add_one, Nat.sub_add_cancel hn]]
    omega
  rw [blocksOffsetFor, hbb, Arch.wrap_of_lt (by omega)]

/-! ## The threading loop's bound -/

/-- A threading loop that returned stayed inside the address space to its last increment. -/
theorem threadFreeList_end_lt {stride c : Nat} :
    ∀ {m : Mem} {cur prev : Nat} {r : Mem × Nat},
      threadFreeList A stride (c + 1) m cur prev = some r → cur + (c + 1) * stride < A.modulus := by
  induction c with
  | zero =>
    intro m cur prev r h
    simpa using (threadFreeList_succ.1 h).2.1
  | succ c ih =>
    intro m cur prev r h
    have := ih (threadFreeList_succ.1 h).2.2
    rw [Nat.succ_mul]
    omega

/-! ## A successful `mempool_init` -/

/-- Everything a successful `mempool_init` implies, read off its definition: every check passed,
the search found a layout, and the loop returned. -/
theorem mempoolInit_ok_inv {prior : Pool} {mem : Mem}
    {stateBuffer stateBufferSize poolBuffer poolBufferSize blockSize alignment poolOut : Nat}
    {o : InitOutcome}
    (h : mempoolInit A prior mem stateBuffer stateBufferSize poolBuffer poolBufferSize blockSize
      alignment poolOut = some o) (hok : o.result = .ok) :
    stateBuffer ≠ 0 ∧ poolBuffer ≠ 0 ∧ poolOut ≠ 0 ∧ mempoolStateSize A ≤ stateBufferSize ∧
    poolBufferSize ≠ 0 ∧ blockSize ≠ 0 ∧ isPowerOfTwo alignment = true ∧
    poolBuffer &&& A.sub alignment 1 = 0 ∧ A.ptrSize ≤ blockSize ∧
    ∃ maxBlocks, udiv poolBufferSize (alignUp A blockSize alignment) = some maxBlocks ∧
      maxBlocks ≠ 0 ∧
      let plan := layoutSearch A poolBufferSize (alignUp A blockSize alignment) alignment maxBlocks
        ⟨maxBlocks, 0, 0, false⟩
      plan.found = true ∧ plan.n ≠ 0 ∧ plan.n ≤ A.wrap (2 ^ 32 - 1) ∧
      plan.bitmapBytes ≤ A.wrap (2 ^ 32 - 1) ∧
      ∃ blocksStart threaded, A.ptrAdd poolBuffer plan.blocksOffset = some blocksStart ∧
        threadFreeList A (alignUp A blockSize alignment) (UInt32.ofNat plan.n).toNat
          (memset0 mem poolBuffer plan.bitmapBytes) blocksStart 0 = some threaded ∧
        o = ⟨.ok, initPool poolBuffer blocksStart threaded.2 plan.bitmapBytes
          (alignUp A blockSize alignment) plan.n alignment, threaded.1, some stateBuffer⟩ := by
  have early : ∀ {e p m}, some (⟨e, p, m, none⟩ : InitOutcome) = some o → e = .ok := by
    intro e p m he; cases he; exact hok
  unfold mempoolInit at h
  by_cases h1 : stateBuffer = 0 ∨ poolBuffer = 0 ∨ poolOut = 0
  · rw [if_pos h1] at h; cases early h
  rw [if_neg h1] at h
  by_cases h2 : stateBufferSize < mempoolStateSize A
  · rw [if_pos h2] at h; cases early h
  rw [if_neg h2] at h
  by_cases h3 : poolBufferSize = 0 ∨ blockSize = 0
  · rw [if_pos h3] at h; cases early h
  rw [if_neg h3] at h
  by_cases h4 : (!isPowerOfTwo alignment) = true
  · rw [if_pos h4] at h; cases early h
  rw [if_neg h4] at h
  by_cases h5 : poolBuffer &&& A.sub alignment 1 ≠ 0
  · rw [if_pos h5] at h; cases early h
  rw [if_neg h5] at h
  by_cases h6 : blockSize < A.ptrSize
  · rw [if_pos h6] at h; cases early h
  rw [if_neg h6] at h
  simp only [Option.bind_eq_bind, Option.bind_eq_some, Option.pure_def] at h
  obtain ⟨maxBlocks, hmax, h⟩ := h
  by_cases h7 : maxBlocks = 0
  · rw [if_pos h7] at h; cases early h
  rw [if_neg h7] at h
  generalize hplan : layoutSearch A poolBufferSize (alignUp A blockSize alignment) alignment
    maxBlocks ⟨maxBlocks, 0, 0, false⟩ = plan at h
  by_cases h8 : (!plan.found) = true ∨ plan.n = 0
  · rw [if_pos h8] at h; cases early h
  rw [if_neg h8] at h
  by_cases h9 : A.wrap (2 ^ 32 - 1) < plan.n ∨ A.wrap (2 ^ 32 - 1) < plan.bitmapBytes
  · rw [if_pos h9] at h; cases early h
  rw [if_neg h9] at h
  simp only [Option.bind_eq_bind, Option.bind_eq_some, Option.some.injEq] at h
  obtain ⟨blocksStart, hbs, threaded, hth, hout⟩ := h
  simp only [not_or, Bool.not_eq_true', Bool.not_eq_false, not_not, Nat.not_lt]
    at h1 h2 h3 h4 h5 h6 h8 h9
  subst hplan
  exact ⟨h1.1, h1.2.1, h1.2.2, h2, h3.1, h3.2, h4, h5, h6, maxBlocks, hmax, h7, h8.1, h8.2, h9.1,
    h9.2, blocksStart, threaded, hbs, hth, hout.symm⟩

/-- The layout a successful `mempool_init` stores, in exact arithmetic: `block_size` is the
rounded block size; `total_blocks` is at least one and no more than the blocks that fit without a
bitmap; the bitmap of `ceil(N/8)` bytes starts the pool buffer and the blocks start at its end
padded to `alignment`; the block region ends inside the pool buffer; and no larger candidate had
fitted. -/
structure InitLayout (A : Arch) (poolBuffer poolBufferSize blockSize alignment : Nat)
    (p : Pool) : Prop where
  alignment_pow : ∃ k, alignment = 2 ^ k
  blockSize_eq : p.blockSize.toNat = roundUp blockSize alignment
  alignment_eq : p.alignment.toNat = alignment
  totalBlocks_pos : 1 ≤ p.totalBlocks.toNat
  totalBlocks_le : p.totalBlocks.toNat ≤ poolBufferSize / roundUp blockSize alignment
  bitmap_eq : p.bitmap = poolBuffer
  bitmapBytes_eq : p.bitmapBytes.toNat = (p.totalBlocks.toNat + 7) / 8
  blocksStart_eq :
    p.blocksStart = poolBuffer + (p.bitmapBytes.toNat + padTo p.bitmapBytes.toNat alignment)
  end_le : p.blocksStart + p.totalBlocks.toNat * p.blockSize.toNat ≤ poolBuffer + poolBufferSize
  maximal : ∀ j, p.totalBlocks.toNat < j → j ≤ poolBufferSize / roundUp blockSize alignment →
    poolBufferSize < requiredFor A (roundUp blockSize alignment) alignment j

/-- A successful `mempool_init`, on `size_t` arguments with a rounded block size that fits in 32
bits, stores the layout `InitLayout` describes, and the pool it leaves represents the fresh stack
`[N-1, ..., 0]`. -/
theorem mempoolInit_spec {prior : Pool} {mem : Mem}
    {stateBuffer stateBufferSize poolBuffer poolBufferSize blockSize alignment poolOut : Nat}
    {o : InitOutcome}
    (h : mempoolInit A prior mem stateBuffer stateBufferSize poolBuffer poolBufferSize blockSize
      alignment poolOut = some o) (hok : o.result = .ok)
    (hsize : poolBufferSize < A.modulus) (hbs : blockSize < A.modulus)
    (hal : alignment < A.modulus) (hround : roundUp blockSize alignment < 2 ^ 32) :
    InitLayout A poolBuffer poolBufferSize blockSize alignment o.pool ∧
      Rep A ⟨o.pool, o.mem⟩ (Lifo.fresh o.pool.geometry) := by
  obtain ⟨-, -, -, -, -, hbs0, hpow, -, hptr, maxBlocks, hmax, -, hfound, -, hn32, hbb32,
    blocksStart, threaded, hstart, hthread, rfl⟩ := mempoolInit_ok_inv h hok
  obtain ⟨k, rfl⟩ := isPowerOfTwo_iff.1 hpow
  have hal0 : 0 < 2 ^ k := Nat.two_pow_pos k
  -- `align_up` did not wrap: the search divided by it
  have haligned : alignUp A blockSize (2 ^ k) = roundUp blockSize (2 ^ k) := by
    rcases alignUp_cases hal hbs with ⟨-, h⟩ | h
    · exact h
    · rw [h] at hmax; cases hmax
  rw [haligned] at hmax hthread hfound hn32 hbb32 hstart
  rw [haligned]
  have hge : A.ptrSize ≤ roundUp blockSize (2 ^ k) := Nat.le_trans hptr (le_roundUp hal0)
  have hge2 : 2 ≤ roundUp blockSize (2 ^ k) := Nat.le_trans A.ptrSize_ge hge
  have hale : 2 ^ k ≤ roundUp blockSize (2 ^ k) := le_roundUp_self (by omega)
  rw [udiv_of_pos (by omega)] at hmax
  cases hmax
  obtain ⟨hn1, hnmax, hbb, hoff, hreq, hmaximal⟩ := layoutSearch_found _ _ rfl hfound
  generalize layoutSearch A poolBufferSize (roundUp blockSize (2 ^ k)) (2 ^ k)
    (poolBufferSize / roundUp blockSize (2 ^ k)) _ = plan at *
  have hfit : plan.n * roundUp blockSize (2 ^ k) ≤ poolBufferSize :=
    (Nat.le_div_iff_mul_le (by omega)).1 hnmax
  obtain ⟨hbbeq, hoffeq⟩ := blocksOffsetFor_eq hn1 hfit hsize hale hal0 hge2
  have h32 : A.wrap (2 ^ 32 - 1) < 2 ^ 32 := Nat.lt_of_le_of_lt (Arch.wrap_le _) (by decide)
  have hN := toNat_ofNat32_of_lt (Nat.lt_of_le_of_lt hn32 h32)
  have hB := toNat_ofNat32_of_lt (Nat.lt_of_le_of_lt hbb32 h32)
  have hA := toNat_ofNat32_of_lt hround
  obtain ⟨-, rfl⟩ := Arch.ptrAdd_eq_some.1 hstart
  have hend : poolBuffer + plan.blocksOffset + plan.n * roundUp blockSize (2 ^ k) < A.modulus := by
    obtain ⟨c, hc⟩ := Nat.exists_eq_succ_of_ne_zero (Nat.pos_iff_ne_zero.1 hn1)
    rw [hN, hc] at hthread
    rw [hc]
    exact threadFreeList_end_lt hthread
  -- so `required` did not wrap either, and the region it measured fits the buffer
  have hreq' : plan.blocksOffset + plan.n * roundUp blockSize (2 ^ k) ≤ poolBufferSize := by
    rwa [requiredFor, ← hoff, Arch.wrap_of_lt (show plan.n * _ < A.modulus by omega),
      Arch.wrap_of_lt (by omega)] at hreq
  have hl : Layout A (initPool poolBuffer (poolBuffer + plan.blocksOffset) 0 plan.bitmapBytes
      (roundUp blockSize (2 ^ k)) plan.n (2 ^ k)) := by
    refine ⟨rfl, ?_, ?_, ?_, ?_, ?_, fun i hi => ?_⟩
    · show A.ptrSize ≤ (UInt32.ofNat _).toNat; rw [hA]; exact hge
    · show (UInt32.ofNat _).toNat = ((UInt32.ofNat _).toNat + 7) / 8; rw [hB, hN, hbb, hbbeq]
    · show poolBuffer + (UInt32.ofNat _).toNat ≤ poolBuffer + _
      rw [hB, hoff, hoffeq, hbb, hbbeq]; omega
    · show 0 < poolBuffer + _; omega
    · show _ + (UInt32.ofNat _).toNat * (UInt32.ofNat _).toNat < A.modulus; rw [hN, hA]; exact hend
    · -- the loop converted every block to a `free_node_t *`
      show (_ + i * (UInt32.ofNat _).toNat) % A.ptrSize = 0
      rw [hA]
      exact threadFreeList_aligned hthread i hi
  obtain ⟨m', head, hrun, hrep, -⟩ := hl.thread_rep mem
  change threadFreeList A (UInt32.ofNat (roundUp blockSize (2 ^ k))).toNat
    (UInt32.ofNat plan.n).toNat (memset0 mem poolBuffer (UInt32.ofNat plan.bitmapBytes).toNat)
    (poolBuffer + plan.blocksOffset) 0 = some (m', head) at hrun
  rw [hA, hB, hthread] at hrun
  cases hrun
  refine ⟨⟨⟨k, rfl⟩, hA, toNat_ofNat32_of_lt (by omega), ?_, ?_, rfl, ?_, ?_, ?_, ?_⟩, hrep⟩
  · show 1 ≤ (UInt32.ofNat _).toNat; rw [hN]; exact hn1
  · show (UInt32.ofNat _).toNat ≤ _; rw [hN]; exact hnmax
  · show (UInt32.ofNat _).toNat = ((UInt32.ofNat _).toNat + 7) / 8; rw [hB, hN, hbb, hbbeq]
  · show poolBuffer + plan.blocksOffset = poolBuffer + ((UInt32.ofNat plan.bitmapBytes).toNat +
      padTo (UInt32.ofNat plan.bitmapBytes).toNat (2 ^ k))
    rw [hB, hoff, hoffeq, hbb, hbbeq]
  · show poolBuffer + plan.blocksOffset + (UInt32.ofNat plan.n).toNat *
      (UInt32.ofNat (roundUp blockSize (2 ^ k))).toNat ≤ _
    rw [hN, hA]; omega
  · intro j hj hj'
    change (UInt32.ofNat plan.n).toNat < j at hj
    rw [hN] at hj
    exact hmaximal j hj hj'

/-- A pool as the tests build one, scaled down: LP64, a 512-byte pool buffer at `0x1000`,
64-byte blocks aligned to 8, on zeroed memory. One bitmap byte padded to 8 leaves room for
seven blocks, from `0x1008`. The run-level results are instantiated on it. -/
def samplePool : InitOutcome :=
  (mempoolInit lp64 Pool.zero (fun _ => 0) 256 112 4096 512 64 8 128).get (by decide)

/-- Calls made one after another extend a run: the history grows by the calls and their replies,
the most recent first. -/
theorem Reachable.runCalls {s₀ s s' : State} {h : History} {cs : List Call} {rs : List Reply}
    (hs : Reachable A s₀ s h) (hrun : runCalls A s cs = some (rs, s')) :
    Reachable A s₀ s' ((cs.zip rs).reverse ++ h) := by
  induction cs generalizing s h rs with
  | nil => cases hrun; exact hs
  | cons c cs ih =>
    rw [Mempool.runCalls] at hrun
    simp only [Option.bind_eq_some, Option.map_eq_some'] at hrun
    obtain ⟨⟨r, t⟩, hstep, ⟨rs', t'⟩, hrest, he⟩ := hrun
    cases he
    simpa only [List.zip_cons_cons, List.reverse_cons, List.append_assoc, List.singleton_append]
      using ih (hs.call hstep) hrest

/-- A short session on the sample pool: a hook is installed (`lock` at 1, `unlock` at 2, context
3), two blocks are allocated, and the first of them, block 6 at `0x1188`, is freed. -/
def sampleCalls : List Call := [.setSync 1 2 3, .alloc 64, .alloc 72, .free 4488]

/-- The replies of the session and the state it ends in. -/
def sampleRun : List Reply × State :=
  (runCalls lp64 ⟨samplePool.pool, samplePool.mem⟩ sampleCalls).get (by decide)

/-- The session's history, the most recent call first. -/
def sampleHistory : History := (sampleCalls.zip sampleRun.1).reverse

theorem sampleRun_reachable :
    Reachable lp64 ⟨samplePool.pool, samplePool.mem⟩ sampleRun.2 sampleHistory := by
  have := Reachable.init.runCalls (show runCalls lp64 ⟨samplePool.pool, samplePool.mem⟩ sampleCalls =
    some (sampleRun.1, sampleRun.2) by rw [Prod.mk.eta]; exact (Option.some_get _).symm)
  rwa [List.append_nil] at this

end Mempool
