import Mempool.Proof.InitSpec

/-!
# `Proof/Refinement.lean` — a pool in use refines the abstract pool

Every state a client can reach from a successful `mempool_init`, by calls and by stores into
blocks it holds, represents the stack the abstract pool of `Spec/Lifo.lean` reaches on the same
calls, and every answer so far is the abstract pool's (`Reachable.refines`). The proof is one
induction over `Reachable`: `mempoolInit_spec` is the base case, `Rep.step_lifo` the call case,
and `Rep.store` the store case, whose premise, that the client stores only into blocks off the
free stack, is `Lifo.held_run` read back through the answers. The stack discipline of
`Spec/Lifo.lean` then holds of the code: the first allocations go down from the last block
(`first_allocs_descending`), and a block just freed is the next one allocated
(`free_then_alloc`).

The hypotheses are those of `mempool_init`'s success, shared by every run-level file: the size
arguments are `size_t` values, and the rounded block size fits in 32 bits.
-/

set_option autoImplicit false

namespace Mempool

namespace Rep

variable {A : Arch} {s : State} {S : List Nat}

/-- A store into a block off the free stack changes nothing the representation reads. -/
theorem store (hr : Rep A s S) {i a : Nat} (hiS : i ∉ S)
    (ha₁ : s.pool.blockAddr i ≤ a) (ha₂ : a < s.pool.blockAddr i + s.pool.blockSize.toNat)
    (v : UInt8) : Rep A ⟨s.pool, storeByte s.mem a v⟩ S := by
  have hl := hr.layout
  refine ⟨hl, hr.chain.frame fun q hq t ht => ?_, hr.nodup, hr.lt, hr.freeBlocks_eq,
    fun j hj => ?_, hr.stats_totalBlocks, hr.stats_freeBlocks, hr.stats_usedBlocks,
    hr.stats_blockSize⟩
  · obtain ⟨j, hj, rfl⟩ := List.mem_map.1 hq
    have hne : s.pool.blockAddr j + t ≠ s.pool.blockAddr i + (a - s.pool.blockAddr i) :=
      Layout.blockAddr_add_ne (fun e => hiS (e ▸ hj)) (Nat.lt_of_lt_of_le ht hl.ptrSize_le)
        (by omega)
    show storeByte s.mem a v _ = _
    rw [storeByte_apply, if_neg (by omega)]
  · change j < 8 * s.pool.bitmapBytes.toNat at hj
    have := hl.bitmap_lt_blockAddr (show j / 8 < s.pool.bitmapBytes.toNat by omega) i
    have hbyte : storeByte s.mem a v (s.pool.bitmap + j / 8) = s.mem (s.pool.bitmap + j / 8) := by
      rw [storeByte_apply, if_neg (by omega)]
    show bitAt (storeByte s.mem a v) s.pool.bitmap j = _
    rw [bitAt_congr hbyte]
    exact hr.bit_eq j hj

/-- `n` calls of `mempool_alloc` with a non-`NULL` out-parameter, on a state representing a stack
of at least `n` blocks, have no undefined behaviour and hand out its top `n` blocks, top first. -/
theorem runCalls_allocs (hr : Rep A s S) {block : Nat} (hb : block ≠ 0) {n : Nat}
    (hn : n ≤ S.length) :
    ∃ s', runCalls A s (List.replicate n (.alloc block)) =
      some ((S.take n).map fun i => .block (s.pool.blockAddr i), s') := by
  induction n generalizing s S with
  | zero => exact ⟨s, rfl⟩
  | succ n ih =>
    cases S with
    | nil => cases hn
    | cons i S =>
      obtain ⟨s', hrun⟩ := ih hr.allocState_rep (by simp only [List.length_cons] at hn; omega)
      refine ⟨s', ?_⟩
      simp only [List.replicate_succ, Mempool.runCalls, hr.step_alloc, if_neg hb, Option.some_bind,
        hrun, Option.map_some']
      rfl
end Rep

/-- A pool in use, against the abstract pool started on the geometry init fixed: the state
represents the stack the abstract pool reached on the same calls, the geometry has not moved,
and every answer so far was the abstract pool's. -/
structure Refines (A : Arch) (g : Geometry) (s : State) (h : History) : Prop where
  rep : Rep A s (Lifo.run g (h.map Prod.fst))
  geometry : s.pool.geometry = g
  answers : h.map (fun e => e.2.answer) = Lifo.answers g (h.map Prod.fst)

namespace Refines

variable {A : Arch} {g : Geometry} {s : State} {h : History}

theorem blockSize_pos (hf : Refines A g s h) : 0 < g.blockSize := by
  rw [← hf.geometry]; exact hf.rep.layout.blockSize_pos

/-- The client holds exactly the blocks off the stack, each once. -/
theorem held (hf : Refines A g s h) : Lifo.Held g (Lifo.run g (h.map Prod.fst)) (outstanding h) :=
  Lifo.held_run hf.blockSize_pos h hf.answers

theorem call (hf : Refines A g s h) {c : Call} {r : Reply} {s' : State}
    (hstep : step A s c = some (r, s')) : Refines A g s' ((c, r) :: h) := by
  obtain ⟨r', s'', hstep', hans, hrep, hgeo⟩ := hf.rep.step_lifo c
  rw [hstep] at hstep'
  cases hstep'
  rw [hf.geometry] at hans hrep
  exact ⟨hrep, hgeo.trans hf.geometry, by simp only [List.map_cons, Lifo.answers, hans, hf.answers]⟩

theorem store (hf : Refines A g s h) {a : Nat} (ha : InHeldBlock h s.pool.blockSize.toNat a)
    (v : UInt8) : Refines A g ⟨s.pool, storeByte s.mem a v⟩ h := by
  obtain ⟨b, hb, hba, hab⟩ := ha
  obtain ⟨i, -, hiS, rfl⟩ := (hf.held.mem_iff b).1 hb
  rw [← hf.geometry] at hba hab
  exact ⟨hf.rep.store hiS hba hab v, hf.geometry, hf.answers⟩

end Refines

/-- A run from a state that refines the fresh abstract pool refines it all along. -/
theorem Reachable.refines_of {A : Arch} {g : Geometry} {s₀ s : State} {h : History}
    (h₀ : Refines A g s₀ []) (hreach : Reachable A s₀ s h) : Refines A g s h := by
  induction hreach with
  | init => exact h₀
  | call _ hstep ih => exact ih.call hstep
  | store _ ha ih => exact ih.store ha _

section FromInit

variable {A : Arch} {prior : Pool} {mem : Mem}
  {stateBuffer stateBufferSize poolBuffer poolBufferSize blockSize alignment poolOut : Nat}
  {o : InitOutcome}
  (hinit : mempoolInit A prior mem stateBuffer stateBufferSize poolBuffer poolBufferSize blockSize
    alignment poolOut = some o)
  (hok : o.result = .ok) (hsize : poolBufferSize < A.modulus)
  (hbs : blockSize < A.modulus) (hal : alignment < A.modulus)
  (hround : roundUp blockSize alignment ≤ 2 ^ 32 - 1)

include hinit hok hsize hbs hal hround

/-- Every reachable state refines the abstract pool started on init's geometry. -/
theorem Reachable.refines {s : State} {h : History} (hreach : Reachable A ⟨o.pool, o.mem⟩ s h) :
    Refines A o.pool.geometry s h :=
  hreach.refines_of ⟨(mempoolInit_spec hinit hok hsize hbs hal (by omega)).2, rfl, rfl⟩

/-- The pool refines the abstract LIFO allocator. In every reachable state, whatever calls and
stores led there: the next call of any kind has no undefined behaviour, every answer so far was
the one `Lifo.step` gives on the same calls from the fresh stack, and the concrete free list,
followed through memory from `free_list`, is exactly that stack's blocks, then `NULL`. -/
theorem refines_lifo {s : State} {h : History} (hreach : Reachable A ⟨o.pool, o.mem⟩ s h) :
    (∀ c, ∃ r s', step A s c = some (r, s')) ∧
      h.map (fun e => e.2.answer) = Lifo.answers o.pool.geometry (h.map Prod.fst) ∧
      Chain A.ptrSize s.mem s.pool.freeList
        ((Lifo.run o.pool.geometry (h.map Prod.fst)).map o.pool.geometry.addr) := by
  have hf := Reachable.refines hinit hok hsize hbs hal hround hreach
  refine ⟨fun c => ?_, hf.answers, ?_⟩
  · obtain ⟨r, s', hstep, -⟩ := hf.rep.step_lifo c
    exact ⟨r, s', hstep⟩
  · have hc := hf.rep.chain
    rw [show s.pool.blockAddr = s.pool.geometry.addr from rfl, hf.geometry] at hc
    exact hc

/-- The first allocations go down from the last block. From the state `mempool_init` leaves,
`n ≤ total_blocks` calls of `mempool_alloc` with a non-`NULL` out-parameter have no undefined
behaviour and return blocks `N - 1, N - 2, ..., N - n`, in that order: init pushes the blocks in
ascending order, so the last one is on top. -/
theorem first_allocs_descending {n block : Nat} (hb : block ≠ 0)
    (hn : n ≤ o.pool.totalBlocks.toNat) :
    ∃ s, runCalls A ⟨o.pool, o.mem⟩ (List.replicate n (.alloc block)) =
      some ((List.range n).map fun j => .block (o.pool.blocksStart +
        (o.pool.totalBlocks.toNat - 1 - j) * o.pool.blockSize.toNat), s) := by
  have hrep := (mempoolInit_spec hinit hok hsize hbs hal (by omega)).2
  obtain ⟨s, hrun⟩ := hrep.runCalls_allocs hb (n := n)
    (by simpa only [Lifo.fresh, List.length_reverse, List.length_range] using hn)
  rw [Lifo.take_fresh hn, List.map_map] at hrun
  exact ⟨s, hrun⟩

/-- A block just freed is the next one allocated. In every reachable state, when `mempool_free` of
`p` succeeds, the next `mempool_alloc` with a non-`NULL` out-parameter returns `p` and puts the
free list back as it was before the free: the same head and the same `free_blocks`. -/
theorem free_then_alloc {s s₁ : State} {h : History} {p block : Nat}
    (hreach : Reachable A ⟨o.pool, o.mem⟩ s h) (hb : block ≠ 0)
    (hfree : step A s (.free p) = some (.code .ok, s₁)) :
    ∃ s₂, step A s₁ (.alloc block) = some (.block p, s₂) ∧
      s₂.pool.freeList = s.pool.freeList ∧ s₂.pool.freeBlocks = s.pool.freeBlocks := by
  have hf := Reachable.refines hinit hok hsize hbs hal hround hreach
  have hf₁ := hf.call hfree
  have hok₁ : (Lifo.step o.pool.geometry (Lifo.run o.pool.geometry (h.map Prod.fst)) (.free p)).1 =
      .code .ok := by
    have := hf₁.answers
    simp only [List.map_cons, Lifo.answers] at this
    exact (List.cons.inj this).1.symm
  obtain ⟨r, s₂, hstep, hans, hrep, hgeo⟩ := hf₁.rep.step_lifo (.alloc block)
  rw [hf₁.geometry, List.map_cons, Lifo.run, Lifo.alloc_after_free hb hf.blockSize_pos hok₁]
    at hans hrep
  cases r <;> cases hans
  have haddr : s₂.pool.blockAddr = s.pool.blockAddr := by
    show s₂.pool.geometry.addr = s.pool.geometry.addr
    rw [hgeo, hf₁.geometry, hf.geometry]
  refine ⟨s₂, hstep, by rw [hrep.chain.start_eq, hf.rep.chain.start_eq, haddr],
    UInt32.toNat.inj ?_⟩
  rw [hrep.freeBlocks_eq, hf.rep.freeBlocks_eq]

end FromInit

theorem refines_lifo_sample :
    let s : State := sampleRun.2
    let h : History := sampleHistory
    (∀ c, ∃ r s', step lp64 s c = some (r, s')) ∧
      h.map (fun e => e.2.answer) = Lifo.answers samplePool.pool.geometry (h.map Prod.fst) ∧
      Chain lp64.ptrSize s.mem s.pool.freeList
        ((Lifo.run samplePool.pool.geometry (h.map Prod.fst)).map samplePool.pool.geometry.addr) :=
  refines_lifo (Option.some_get _).symm (by decide) (by decide) (by decide) (by decide) (by decide)
    sampleRun_reachable

theorem first_allocs_descending_sample :
    ∃ s, runCalls lp64 ⟨samplePool.pool, samplePool.mem⟩ (List.replicate 3 (.alloc 64)) =
      some ((List.range 3).map fun j => .block (samplePool.pool.blocksStart +
        (samplePool.pool.totalBlocks.toNat - 1 - j) * samplePool.pool.blockSize.toNat), s) :=
  first_allocs_descending (Option.some_get _).symm (by decide) (by decide) (by decide) (by decide)
    (by decide) (by decide) (by decide)

theorem free_then_alloc_sample :
    ∃ s₁, step lp64 sampleRun.2 (.free 4424) = some (.code .ok, s₁) ∧
      ∃ s₂, step lp64 s₁ (.alloc 64) = some (.block 4424, s₂) ∧
        s₂.pool.freeList = sampleRun.2.pool.freeList ∧
        s₂.pool.freeBlocks = sampleRun.2.pool.freeBlocks := by
  obtain ⟨⟨r, s₁⟩, hfree⟩ := Option.isSome_iff_exists.1
    (show (step lp64 sampleRun.2 (.free 4424)).isSome by decide)
  have hr : (step lp64 sampleRun.2 (.free 4424)).map Prod.fst = some (.code .ok) := by decide
  rw [hfree, Option.map_some', Option.some.injEq] at hr
  subst hr
  exact ⟨_, hfree, free_then_alloc (Option.some_get _).symm (by decide) (by decide) (by decide)
    (by decide) (by decide) sampleRun_reachable (by decide) hfree⟩

end Mempool
