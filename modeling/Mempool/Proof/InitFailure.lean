import Mempool.Model.V2
import Mempool.Proof.InitLimits

/-!
# `Proof/InitFailure.lean` — what a failing `mempool_init` leaves

`mempool_init` checks its arguments (lines 92–114), clears the control block in the state buffer
(line 118), and only then divides, searches for a layout and range-checks it (lines 121–163),
which can still return `MEMPOOL_ERR_INVALID_SIZE`. So a failing call never writes memory and
never stores through `pool_out`, and it leaves the state buffer as it was when an argument check
fails (`mempoolInit_of_check_fails`) and cleared when a later check does
(`mempoolInit_error_of_checks`); `mempoolInit_error` puts the two together.

The spec's policy is that errors are detected before any mutation, and v2's `mempool_init`, which
makes the same checks, writes nothing on any error (`V2.mempoolInit_error_keeps`). Over a pool in
use the difference shows: a call with a buffer too small for one block clears the control block
of the pool the state buffer held, and that pool then answers every call with
`MEMPOOL_ERR_NOT_INITIALIZED` (`mempoolInit_failure_clears_pool`).
-/

set_option autoImplicit false

namespace Mempool

/-- The argument checks of lines 92–114, the ones `mempool_init` makes before it clears the
control block, all pass. -/
abbrev InitArgsPass (A : Arch)
    (stateBuffer stateBufferSize poolBuffer poolBufferSize blockSize alignment poolOut : Nat) :
    Prop :=
  ¬ (stateBuffer = 0 ∨ poolBuffer = 0 ∨ poolOut = 0) ∧ mempoolStateSize A ≤ stateBufferSize ∧
    ¬ (poolBufferSize = 0 ∨ blockSize = 0) ∧ isPowerOfTwo alignment = true ∧
    poolBuffer &&& A.sub alignment 1 = 0 ∧ A.ptrSize ≤ blockSize

section Failure

variable {A : Arch} {prior : Pool} {mem : Mem}
  {stateBuffer stateBufferSize poolBuffer poolBufferSize blockSize alignment poolOut : Nat}

/-- When an argument check fails, `mempool_init` returns before line 118: the state buffer,
memory and `*pool_out` are as they were. -/
theorem mempoolInit_of_check_fails (prior : Pool) (mem : Mem)
    (hc : ¬ InitArgsPass A stateBuffer stateBufferSize poolBuffer poolBufferSize blockSize
      alignment poolOut) :
    ∃ e, mempoolInit A prior mem stateBuffer stateBufferSize poolBuffer poolBufferSize blockSize
      alignment poolOut = some ⟨e, prior, mem, none⟩ ∧ e ≠ .ok := by
  unfold mempoolInit
  by_cases c1 : stateBuffer = 0 ∨ poolBuffer = 0 ∨ poolOut = 0
  · exact ⟨_, if_pos c1, nofun⟩
  rw [if_neg c1]
  by_cases c2 : stateBufferSize < mempoolStateSize A
  · exact ⟨_, if_pos c2, nofun⟩
  rw [if_neg c2]
  by_cases c3 : poolBufferSize = 0 ∨ blockSize = 0
  · exact ⟨_, if_pos c3, nofun⟩
  rw [if_neg c3]
  by_cases c4 : (!isPowerOfTwo alignment) = true
  · exact ⟨_, if_pos c4, nofun⟩
  rw [if_neg c4]
  by_cases c5 : poolBuffer &&& A.sub alignment 1 ≠ 0
  · exact ⟨_, if_pos c5, nofun⟩
  rw [if_neg c5]
  by_cases c6 : blockSize < A.ptrSize
  · exact ⟨_, if_pos c6, nofun⟩
  exact absurd ⟨c1, Nat.not_lt.1 c2, c3, by simpa using c4, not_not.1 c5, Nat.not_lt.1 c6⟩ hc

/-- Past the argument checks, every failure is one of the `MEMPOOL_ERR_INVALID_SIZE` returns after
line 118, which leave the control block cleared. -/
theorem mempoolInit_error_of_checks
    (hc : InitArgsPass A stateBuffer stateBufferSize poolBuffer poolBufferSize blockSize alignment
      poolOut) {o : InitOutcome}
    (h : mempoolInit A prior mem stateBuffer stateBufferSize poolBuffer poolBufferSize blockSize
      alignment poolOut = some o) (he : o.result ≠ .ok) :
    o = ⟨.errInvalidSize, Pool.zero, mem, none⟩ := by
  obtain ⟨h1, h2, h3, h4, h5, h6⟩ := hc
  rw [mempoolInit_checks h1 h2 h3 h4 h5 h6, Option.bind_eq_some] at h
  obtain ⟨m, -, h⟩ := h
  dsimp only at h
  generalize layoutSearch A poolBufferSize (alignUp A blockSize alignment) alignment m
    ⟨m, 0, 0, false⟩ = plan at h
  split_ifs at h
  any_goals (cases h; rfl)
  simp only [Option.bind_eq_some, Option.some.injEq] at h
  obtain ⟨_, -, _, -, rfl⟩ := h
  exact absurd rfl he

/-- Everything a failing `mempool_init` can do, on every prior content of the state buffer and
every argument tuple: it writes no memory and stores nothing through `pool_out`, and it leaves the
state buffer as it was, or cleared, on a `MEMPOOL_ERR_INVALID_SIZE` after every argument check
passed. -/
theorem mempoolInit_error {o : InitOutcome}
    (h : mempoolInit A prior mem stateBuffer stateBufferSize poolBuffer poolBufferSize blockSize
      alignment poolOut = some o) (he : o.result ≠ .ok) :
    o.mem = mem ∧ o.poolOut = none ∧
      (o.pool = prior ∨ o.pool = Pool.zero ∧ o.result = .errInvalidSize ∧
        InitArgsPass A stateBuffer stateBufferSize poolBuffer poolBufferSize blockSize alignment
          poolOut) := by
  by_cases hc : InitArgsPass A stateBuffer stateBufferSize poolBuffer poolBufferSize blockSize
    alignment poolOut
  · obtain rfl := mempoolInit_error_of_checks hc h he
    exact ⟨rfl, rfl, .inr ⟨rfl, rfl, hc⟩⟩
  · obtain ⟨e, hfail, -⟩ := mempoolInit_of_check_fails prior mem hc
    obtain rfl := Option.some.inj (hfail.symm.trans h)
    exact ⟨rfl, rfl, .inl rfl⟩

end Failure

/-- v2's `mempool_init` writes nothing on any error: the control block and memory are as they
were. -/
theorem V2.mempoolInit_error_keeps {A : Arch} {prior : Pool} {mem : Mem}
    {pool buffer bufferSize blockSize alignment : Nat} {r : MempoolError × Pool × Mem}
    (h : V2.mempoolInit A prior mem pool buffer bufferSize blockSize alignment = some r)
    (he : r.1 ≠ .ok) : r.2 = (prior, mem) := by
  unfold V2.mempoolInit at h
  by_cases c1 : pool = 0 ∨ buffer = 0
  · rw [if_pos c1] at h; cases h; rfl
  rw [if_neg c1] at h
  by_cases c2 : bufferSize = 0 ∨ blockSize = 0
  · rw [if_pos c2] at h; cases h; rfl
  rw [if_neg c2] at h
  by_cases c3 : (!isPowerOfTwo alignment) = true
  · rw [if_pos c3] at h; cases h; rfl
  rw [if_neg c3] at h
  by_cases c4 : buffer &&& A.sub alignment 1 ≠ 0
  · rw [if_pos c4] at h; cases h; rfl
  rw [if_neg c4] at h
  by_cases c5 : blockSize < A.ptrSize
  · rw [if_pos c5] at h; cases h; rfl
  rw [if_neg c5] at h
  dsimp only at h
  rw [Option.bind_eq_bind, Option.bind_eq_some] at h
  obtain ⟨m, -, h⟩ := h
  generalize layoutSearch A bufferSize (alignUp A blockSize alignment) alignment m
    ⟨m, 0, 0, false⟩ = plan at h
  split_ifs at h
  any_goals (cases h; rfl)
  simp only [Option.bind_eq_bind, Option.bind_eq_some] at h
  obtain ⟨_, -, _, -, h⟩ := h
  cases h
  exact absurd rfl he

/-- A failing `mempool_init` over a pool in use destroys it. The state buffer at `256` holds the
pool `samplePool` built there. A second call into it, with a 32-byte buffer too small for one
64-byte block, fails with `MEMPOOL_ERR_INVALID_SIZE` and leaves memory and `*pool_out` alone, but
the control block is cleared: the pool that answered `mempool_alloc` with a block now answers
`MEMPOOL_ERR_NOT_INITIALIZED`. v2's `mempool_init`, on the same arguments, leaves it as it was. -/
theorem mempoolInit_failure_clears_pool :
    mempoolInit lp64 samplePool.pool samplePool.mem 256 112 4096 32 64 8 128 =
        some ⟨.errInvalidSize, Pool.zero, samplePool.mem, none⟩ ∧
      (∃ p s', step lp64 ⟨samplePool.pool, samplePool.mem⟩ (.alloc 1) = some (.block p, s')) ∧
      step lp64 ⟨Pool.zero, samplePool.mem⟩ (.alloc 1) =
        some (.code .errNotInitialized, ⟨Pool.zero, samplePool.mem⟩) ∧
      V2.mempoolInit lp64 samplePool.pool samplePool.mem 256 4096 32 64 8 =
        some (.errInvalidSize, samplePool.pool, samplePool.mem) := by
  have hr : Rep lp64 ⟨samplePool.pool, samplePool.mem⟩ (Lifo.fresh samplePool.pool.geometry) :=
    (mempoolInit_spec (Option.some_get _).symm (by decide) (by decide) (by decide)
    (by decide) (by decide)).2
  have hS : Lifo.fresh samplePool.pool.geometry = [6, 5, 4, 3, 2, 1, 0] := by decide
  rw [hS] at hr
  exact ⟨mempoolInit_of_maxBlocks_eq_zero (by decide) (by decide) (by decide) (by decide)
    (by decide) (by decide) (by decide), ⟨_, _, hr.step_alloc 1⟩, rfl, rfl⟩

end Mempool
