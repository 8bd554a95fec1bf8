import Mempool.Proof.Refinement

/-!
# `Proof/Safety.lean` — no block handed out twice, none lost

Two consequences of the refinement, stated in the pool's own terms rather than the abstract
stack's.

`WellFormed` is the representation invariant as the pool's documentation words it: the free
list, the bitmap and the statistics agree. Every reachable state satisfies it, and from it the
defensive branches of `mempool_alloc` and `mempool_free` are dead: a non-`NULL` free list never
has `free_blocks = 0`, no block's bitmap byte is out of range, and a free that gets past the
double-free check always finds `free_blocks < total_blocks` (`wellFormed_reachable`).

`alloc_safety` is the client's view: the blocks held are distinct blocks of the pool, `alloc`
returns a block not held, fails only when every block is held, and any held block can be given
back.
-/

set_option autoImplicit false

namespace Mempool

/-- The representation invariant in the words of the documentation. The free list, followed from
`free_list`, is a `NULL`-terminated sequence of distinct block addresses, exactly `free_blocks`
of them; bit `i` is set exactly for the blocks `i < total_blocks` off that sequence, and clear
for every position past `total_blocks`; the statistics repeat the counters. -/
structure WellFormed (A : Arch) (s : State) : Prop where
  freeList : ∃ l, Chain A.ptrSize s.mem s.pool.freeList l ∧ l.Nodup ∧
    l.length = s.pool.freeBlocks.toNat ∧
    (∀ q ∈ l, ∃ i < s.pool.totalBlocks.toNat, q = s.pool.blocksStart + i * s.pool.blockSize.toNat) ∧
    ∀ i < s.pool.totalBlocks.toNat, bitAt s.mem s.pool.bitmap i =
      decide (s.pool.blocksStart + i * s.pool.blockSize.toNat ∉ l)
  tail_clear : ∀ i, s.pool.totalBlocks.toNat ≤ i → i < 8 * s.pool.bitmapBytes.toNat →
    bitAt s.mem s.pool.bitmap i = false
  stats_totalBlocks : s.pool.stats.totalBlocks = s.pool.totalBlocks
  stats_freeBlocks : s.pool.stats.freeBlocks = s.pool.freeBlocks
  stats_usedBlocks : s.pool.stats.usedBlocks = s.pool.totalBlocks - s.pool.freeBlocks
  stats_blockSize : s.pool.stats.blockSize = s.pool.blockSize

namespace Rep

variable {A : Arch} {s : State} {S : List Nat}

theorem mem_map_blockAddr (hr : Rep A s S) {i : Nat} :
    s.pool.blockAddr i ∈ S.map s.pool.blockAddr ↔ i ∈ S :=
  List.mem_map_of_injective hr.layout.blockAddr_injective

theorem wellFormed (hr : Rep A s S) : WellFormed A s := by
  have hl := hr.layout
  refine ⟨⟨S.map s.pool.blockAddr, hr.chain, hr.nodup.map hl.blockAddr_injective,
    by rw [List.length_map, hr.freeBlocks_eq], fun q hq => ?_, fun i hi => ?_⟩,
    fun i hi hi' => ?_, hr.stats_totalBlocks, hr.stats_freeBlocks, hr.stats_usedBlocks,
    hr.stats_blockSize⟩
  · obtain ⟨i, hi, rfl⟩ := List.mem_map.1 hq
    exact ⟨i, hr.lt i hi, rfl⟩
  · rw [hr.bit_eq i (by have := hl.div8_lt_bitmapBytes hi; omega)]
    have hmem := @Rep.mem_map_blockAddr A s S hr i
    change _ = decide (s.pool.blockAddr i ∉ _)
    simp [hi, hmem]
  · rw [hr.bit_eq i hi']
    simp only [decide_eq_false_iff_not, not_and]
    omega

end Rep

/-- `mempool_alloc` with a non-`NULL` out-parameter hands out a non-`NULL` block or reports
`MEMPOOL_ERR_OUT_OF_MEMORY`. -/
theorem Rep.alloc_reply {A : Arch} {s s' : State} {S : List Nat} (hr : Rep A s S) {b : Nat}
    (hb : b ≠ 0) {r : Reply} (hstep : step A s (.alloc b) = some (r, s')) :
    (∃ p, p ≠ 0 ∧ r = .block p) ∨ r = .code .errOutOfMemory := by
  rw [hr.step_alloc, if_neg hb] at hstep
  split at hstep
  · cases hstep; exact .inr rfl
  · cases hstep
    exact .inl ⟨_, Nat.pos_iff_ne_zero.1 (hr.layout.blockAddr_pos _), rfl⟩

/-- A block the client holds can always be given back. -/
theorem Refines.free_ok {A : Arch} {g : Geometry} {s : State} {h : History}
    (hf : Refines A g s h) {p : Nat} (hp : p ∈ outstanding h) :
    ∃ s', step A s (.free p) = some (.code .ok, s') := by
  have hr := hf.rep
  obtain ⟨i, hi, hiS, rfl⟩ := (hf.held.mem_iff p).1 hp
  rw [← hf.geometry] at hi ⊢
  have hidx := Geometry.indexOf_addr hr.layout.blockSize_pos hi
  refine ⟨Rep.freeState A s i, ?_⟩
  rw [hr.step_free, if_neg (Nat.pos_iff_ne_zero.1 (hr.layout.blockAddr_pos i) :
    s.pool.geometry.addr i ≠ 0), hidx]
  simp [hiS]

/-- A `mempool_alloc` in a state that refines the abstract pool is defined: a block it returns is
one of the pool's and not held, and it runs out only when every block is held. -/
theorem Refines.alloc_ok {A : Arch} {g : Geometry} {s : State} {h : History}
    (hf : Refines A g s h) (block : Nat) :
    ∃ r s', step A s (.alloc block) = some (r, s') ∧
      (∀ p, r = .block p → (∃ i < g.totalBlocks, p = g.addr i) ∧ p ∉ outstanding h) ∧
      (r = .code .errOutOfMemory → (outstanding h).length = g.totalBlocks) := by
  have hr := hf.rep
  have hheld := hf.held
  obtain rfl := hf.geometry
  rw [hr.step_alloc block]
  by_cases hb : block = 0
  · rw [if_pos hb]
    exact ⟨_, _, rfl, (fun _ hp => nomatch hp), fun hp => nomatch hp⟩
  rw [if_neg hb]
  cases hS : Lifo.run s.pool.geometry (h.map Prod.fst) with
  | nil =>
    refine ⟨_, _, rfl, (fun _ hp => nomatch hp), fun _ => ?_⟩
    simpa [hS] using hheld.length_eq
  | cons i S =>
    refine ⟨_, _, rfl, fun p hp => ?_, fun hp => nomatch hp⟩
    cases hp
    refine ⟨⟨i, hr.lt i (by rw [hS]; exact List.mem_cons_self _ _), rfl⟩, fun hmem => ?_⟩
    obtain ⟨j, -, hj, hij⟩ := (hheld.mem_iff _).1 hmem
    exact hj (hS ▸ hr.layout.blockAddr_injective hij ▸ List.mem_cons_self _ _)

section FromInit

variable {A : Arch} {prior : Pool} {mem : Mem}
  {stateBuffer stateBufferSize poolBuffer poolBufferSize blockSize alignment poolOut : Nat}
  {o : InitOutcome}
  (hinit : mempoolInit A prior mem stateBuffer stateBufferSize poolBuffer poolBufferSize blockSize
    alignment poolOut = some o)
  (hok : o.result = .ok) (hsize : poolBufferSize < A.modulus)
  (hbs : blockSize < A.modulus) (hal : alignment < A.modulus)
  (hround : roundUp blockSize alignment ≤ 2 ^ 32 - 1)

include hinit hok hsize hbs hal hround

/-- Every reachable state is well formed, and the defensive branches are dead there:
`free_list` is `NULL` exactly when `free_blocks` is `0`, every block's bitmap byte is in range,
and a block whose bit is set (one `mempool_free` accepts) leaves `free_blocks < total_blocks`. -/
theorem wellFormed_reachable {s : State} {h : History}
    (hreach : Reachable A ⟨o.pool, o.mem⟩ s h) :
    WellFormed A s ∧ (s.pool.freeList = 0 ↔ s.pool.freeBlocks = 0) ∧
      (∀ i < s.pool.totalBlocks.toNat, i / 8 < s.pool.bitmapBytes.toNat) ∧
      (∀ i < s.pool.totalBlocks.toNat, bitAt s.mem s.pool.bitmap i = true →
        s.pool.freeBlocks < s.pool.totalBlocks) := by
  have hr := (Reachable.refines hinit hok hsize hbs hal hround hreach).rep
  refine ⟨hr.wellFormed, ?_, fun i hi => hr.layout.div8_lt_bitmapBytes hi, fun i hi hbit => ?_⟩
  · rw [hr.freeList_eq_zero_iff, ← List.length_eq_zero, ← hr.freeBlocks_eq]
    exact ⟨fun h => UInt32.toNat.inj (by rw [h]; rfl), fun h => by rw [h]; rfl⟩
  · have hiS : i ∉ _ := fun hiS => by rw [(hr.bitAt_eq_false_iff hi).2 hiS] at hbit; cases hbit
    rw [u32_lt_iff, hr.freeBlocks_eq]
    exact hr.length_lt hi hiS

/-- Allocator safety over whole runs. In every reachable state the client holds distinct blocks
of the pool; `mempool_alloc` has no undefined behaviour, returns a block of the pool that is not
held, reports `MEMPOOL_ERR_OUT_OF_MEMORY` only when all `total_blocks` blocks are held, and with a
non-`NULL` out-parameter answers either a non-`NULL` block or `MEMPOOL_ERR_OUT_OF_MEMORY`; and
`mempool_free` of any held block succeeds. -/
theorem alloc_safety {s : State} {h : History} (hreach : Reachable A ⟨o.pool, o.mem⟩ s h) :
    (outstanding h).Nodup ∧
      (∀ p ∈ outstanding h, ∃ i < o.pool.totalBlocks.toNat,
        p = o.pool.blocksStart + i * o.pool.blockSize.toNat) ∧
      (∀ block, ∃ r s', step A s (.alloc block) = some (r, s') ∧
        (∀ p, r = .block p → (∃ i < o.pool.totalBlocks.toNat,
          p = o.pool.blocksStart + i * o.pool.blockSize.toNat) ∧ p ∉ outstanding h) ∧
        (r = .code .errOutOfMemory → (outstanding h).length = o.pool.totalBlocks.toNat) ∧
        (block ≠ 0 → (∃ p, p ≠ 0 ∧ r = .block p) ∨ r = .code .errOutOfMemory)) ∧
      (∀ p ∈ outstanding h, ∃ s', step A s (.free p) = some (.code .ok, s')) := by
  have hf := Reachable.refines hinit hok hsize hbs hal hround hreach
  refine ⟨hf.held.nodup, fun p hp => ?_, fun block => ?_, fun p hp => hf.free_ok hp⟩
  · obtain ⟨i, hi, -, rfl⟩ := (hf.held.mem_iff p).1 hp
    exact ⟨i, hi, rfl⟩
  · obtain ⟨r, s', hstep, hblock, hoom⟩ := hf.alloc_ok block
    exact ⟨r, s', hstep, hblock, hoom, fun hb => hf.rep.alloc_reply hb hstep⟩

end FromInit

theorem wellFormed_reachable_sample :
    let s : State := sampleRun.2
    WellFormed lp64 s ∧ (s.pool.freeList = 0 ↔ s.pool.freeBlocks = 0) ∧
      (∀ i < s.pool.totalBlocks.toNat, i / 8 < s.pool.bitmapBytes.toNat) ∧
      (∀ i < s.pool.totalBlocks.toNat, bitAt s.mem s.pool.bitmap i = true →
        s.pool.freeBlocks < s.pool.totalBlocks) :=
  wellFormed_reachable (Option.some_get _).symm (by decide) (by decide) (by decide) (by decide)
    (by decide) sampleRun_reachable

theorem alloc_safety_sample :
    let s : State := sampleRun.2
    let h : History := sampleHistory
    (outstanding h).Nodup ∧
      (∀ p ∈ outstanding h, ∃ i < samplePool.pool.totalBlocks.toNat,
        p = samplePool.pool.blocksStart + i * samplePool.pool.blockSize.toNat) ∧
      (∀ block, ∃ r s', step lp64 s (.alloc block) = some (r, s') ∧
        (∀ p, r = .block p → (∃ i < samplePool.pool.totalBlocks.toNat,
          p = samplePool.pool.blocksStart + i * samplePool.pool.blockSize.toNat) ∧
          p ∉ outstanding h) ∧
        (r = .code .errOutOfMemory → (outstanding h).length = samplePool.pool.totalBlocks.toNat) ∧
        (block ≠ 0 → (∃ p, p ≠ 0 ∧ r = .block p) ∨ r = .code .errOutOfMemory)) ∧
      (∀ p ∈ outstanding h, ∃ s', step lp64 s (.free p) = some (.code .ok, s')) :=
  alloc_safety (Option.some_get _).symm (by decide) (by decide) (by decide) (by decide) (by decide)
    sampleRun_reachable

end Mempool
