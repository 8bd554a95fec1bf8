import Mempool.Proof.Frame
import Mempool.Proof.Refinement

/-!
# `Proof/Stats.lean` — the statistics record the history

`mempool_alloc`, `mempool_free` and `mempool_reset` each update `stats` in their critical
sections (`Pool.afterAlloc`, `Pool.afterFree`, `Pool.afterReset`); every other call, and every
failing one, leaves it alone. `StatsInv` reads the three counters a history determines off the
history: `alloc_count` and `free_count` count the successful calls since the last reset, modulo
`2 ^ 32` because they are `uint32_t`, and `peak_usage` is the most blocks held at once since
then. It holds initially and each call keeps it (`StatsInv.call`); `used_blocks` needs no
induction of its own, being `total_blocks - free_blocks` by the representation.
-/

set_option autoImplicit false

namespace Mempool

/-- The blocks held now are never more than the peak since the last reset. -/
theorem length_outstanding_le_peak : ∀ h : History, (outstanding h).length ≤ peakSinceReset h
  | [] => le_rfl
  | (c, r) :: h => by
    simp only [peakSinceReset]
    split
    · rename_i heq
      simp only [outstanding, heq, List.length_nil, le_refl]
    · exact Nat.le_max_right _ _

/-- Whether the history counts a call with this answer: a successful alloc, free or reset. -/
def Counted : Call → Answer → Prop
  | .alloc _, .block _ => True
  | .free _, .code .ok => True
  | .reset, .code .ok => True
  | _, _ => False

section Uncounted

variable {c : Call} {r : Reply} {h : History}

theorem outstanding_of_not_counted (hc : ¬ Counted c r.answer) :
    outstanding ((c, r) :: h) = outstanding h := by
  simp only [outstanding]; split <;> simp_all [Counted]

theorem allocsSinceReset_of_not_counted (hc : ¬ Counted c r.answer) :
    allocsSinceReset ((c, r) :: h) = allocsSinceReset h := by
  simp only [allocsSinceReset]; split <;> simp_all [Counted]

theorem freesSinceReset_of_not_counted (hc : ¬ Counted c r.answer) :
    freesSinceReset ((c, r) :: h) = freesSinceReset h := by
  simp only [freesSinceReset]; split <;> simp_all [Counted]

theorem peakSinceReset_of_not_counted (hc : ¬ Counted c r.answer) :
    peakSinceReset ((c, r) :: h) = peakSinceReset h := by
  have hle := length_outstanding_le_peak h
  simp only [peakSinceReset]
  split
  · simp_all [Counted]
  · rw [outstanding_of_not_counted hc]; exact Nat.max_eq_left hle

end Uncounted

/-- The counters of `stats` a history determines. -/
structure StatsInv (s : State) (h : History) : Prop where
  allocCount : s.pool.stats.allocCount.toNat = allocsSinceReset h % 2 ^ 32
  freeCount : s.pool.stats.freeCount.toNat = freesSinceReset h % 2 ^ 32
  peakUsage : s.pool.stats.peakUsage.toNat = peakSinceReset h

theorem u32_toNat_succ_mod {a : UInt32} {n : Nat} (h : a.toNat = n % 2 ^ 32) :
    (a + 1).toNat = (n + 1) % 2 ^ 32 := by
  rw [u32_toNat_add, h]; show (n % 2 ^ 32 + 1 % 2 ^ 32) % 2 ^ 32 = _; omega

/-- `peak_usage = used > peak_usage ? used : peak_usage`, read as a maximum. -/
theorem u32_toNat_max (u p : UInt32) : (if u > p then u else p).toNat = max p.toNat u.toNat := by
  split
  · rename_i hlt; rw [gt_iff_lt, u32_lt_iff] at hlt; omega
  · rename_i hle; rw [gt_iff_lt, u32_lt_iff] at hle; omega

namespace Refines

variable {A : Arch} {g : Geometry} {s : State} {h : History}

/-- `used_blocks` is the number of blocks held. -/
theorem usedBlocks (hf : Refines A g s h) :
    s.pool.stats.usedBlocks.toNat = (outstanding h).length := by
  have hr := hf.rep
  have hlen := hf.held.length_eq
  have hN : g.totalBlocks = s.pool.totalBlocks.toNat := by rw [← hf.geometry]; rfl
  rw [hr.stats_usedBlocks, u32_toNat_sub, hr.freeBlocks_eq]
  have := u32_toNat_lt s.pool.totalBlocks
  omega

end Refines

namespace StatsInv

variable {A : Arch} {g : Geometry} {s s' : State} {h : History} {c : Call} {r : Reply}

/-- A call that leaves `stats` alone and is not counted. -/
theorem quiet (hi : StatsInv s h) (hs : s'.pool.stats = s.pool.stats) (hc : ¬ Counted c r.answer) :
    StatsInv s' ((c, r) :: h) :=
  ⟨by rw [hs, allocsSinceReset_of_not_counted hc]; exact hi.allocCount,
    by rw [hs, freesSinceReset_of_not_counted hc]; exact hi.freeCount,
    by rw [hs, peakSinceReset_of_not_counted hc]; exact hi.peakUsage⟩

/-- Each call keeps the counters in step with the history. -/
theorem call (hf : Refines A g s h) (hi : StatsInv s h) (hstep : step A s c = some (r, s')) :
    StatsInv s' ((c, r) :: h) := by
  have hr := hf.rep
  have hused := (hf.call hstep).usedBlocks
  cases c with
  | alloc block =>
    rw [hr.step_alloc] at hstep
    by_cases hb : block = 0
    · rw [if_pos hb] at hstep; cases hstep; exact hi.quiet rfl id
    rw [if_neg hb] at hstep
    split at hstep
    · cases hstep; exact hi.quiet rfl id
    cases hstep
    refine ⟨?_, by simpa only [freesSinceReset, Reply.answer] using hi.freeCount, ?_⟩
    · simpa only [allocsSinceReset, Reply.answer] using u32_toNat_succ_mod hi.allocCount
    · simp only [peakSinceReset, Reply.answer, ← hused]
      rw [← hi.peakUsage]
      exact u32_toNat_max _ _
  | free p =>
    rw [hr.step_free] at hstep
    split at hstep
    · cases hstep; exact hi.quiet rfl id
    split at hstep
    · cases hstep; exact hi.quiet rfl id
    split at hstep
    · cases hstep; exact hi.quiet rfl id
    cases hstep
    refine ⟨by simpa only [allocsSinceReset, Reply.answer] using hi.allocCount, ?_, ?_⟩
    · simpa only [freesSinceReset, Reply.answer] using u32_toNat_succ_mod hi.freeCount
    · have hle : (outstanding ((.free p, .code .ok) :: h)).length ≤ peakSinceReset h := by
        simp only [outstanding, Reply.answer]
        exact Nat.le_trans (List.length_erase_le _ _) (length_outstanding_le_peak h)
      simp only [peakSinceReset, Reply.answer]
      rw [Nat.max_eq_left hle]
      exact hi.peakUsage
  | reset =>
    obtain ⟨m', head, hreset, -⟩ := hr.step_reset
    rw [hreset] at hstep
    cases hstep
    exact ⟨by simp [allocsSinceReset, Reply.answer, Pool.afterReset],
      by simp [freesSinceReset, Reply.answer, Pool.afterReset],
      by simp [peakSinceReset, Reply.answer, Pool.afterReset]⟩
  | getStats stats =>
    rw [hr.step_getStats] at hstep
    cases hstep
    exact hi.quiet rfl (by split <;> exact id)
  | contains p =>
    rw [hr.step_contains] at hstep
    cases hstep
    exact hi.quiet rfl id
  | setSync lock unlock userCtx =>
    rw [hr.step_setSync] at hstep
    cases hstep
    exact hi.quiet rfl id

end StatsInv

section FromInit

variable {A : Arch} {prior : Pool} {mem : Mem}
  {stateBuffer stateBufferSize poolBuffer poolBufferSize blockSize alignment poolOut : Nat}
  {o : InitOutcome}
  (hinit : mempoolInit A prior mem stateBuffer stateBufferSize poolBuffer poolBufferSize blockSize
    alignment poolOut = some o)
  (hok : o.result = .ok) (hsize : poolBufferSize < A.modulus)
  (hbs : blockSize < A.modulus) (hal : alignment < A.modulus)
  (hround : roundUp blockSize alignment ≤ 2 ^ 32 - 1)

include hinit hok hsize hbs hal hround

/-- The counters hold in every reachable state. -/
theorem Reachable.statsInv {s : State} {h : History} (hreach : Reachable A ⟨o.pool, o.mem⟩ s h) :
    StatsInv s h := by
  induction hreach with
  | init =>
    obtain ⟨-, -, -, -, -, -, -, -, -, -, -, -, -, -, -, -, -, -, -, -, -, rfl⟩ :=
      mempoolInit_ok_inv hinit hok
    exact ⟨rfl, rfl, rfl⟩
  | call hprev hstep ih =>
    exact ih.call (Reachable.refines hinit hok hsize hbs hal hround hprev) hstep
  | store _ _ ih => exact ⟨ih.allocCount, ih.freeCount, ih.peakUsage⟩

/-- The statistics match the history. After every run: `alloc_count` and `free_count` are the
successful `mempool_alloc` and `mempool_free` calls since init or the last reset, modulo `2 ^ 32`;
`used_blocks` is the number of blocks held; `peak_usage` is the most blocks held at once since
init or the last reset. Hence `alloc_count - free_count = used_blocks` in `uint32_t` arithmetic,
and `used_blocks ≤ peak_usage`. The successful allocations counted are those that answered a
block: `mempool_alloc` never answers `MEMPOOL_OK` without one. -/
theorem stats_history {s : State} {h : History} (hreach : Reachable A ⟨o.pool, o.mem⟩ s h) :
    s.pool.stats.allocCount.toNat = allocsSinceReset h % 2 ^ 32 ∧
      s.pool.stats.freeCount.toNat = freesSinceReset h % 2 ^ 32 ∧
      s.pool.stats.usedBlocks.toNat = (outstanding h).length ∧
      s.pool.stats.peakUsage.toNat = peakSinceReset h ∧
      s.pool.stats.allocCount - s.pool.stats.freeCount = s.pool.stats.usedBlocks ∧
      s.pool.stats.usedBlocks ≤ s.pool.stats.peakUsage ∧
      (∀ b r, (Call.alloc b, r) ∈ h → r ≠ .code .ok) := by
  have hf := Reachable.refines hinit hok hsize hbs hal hround hreach
  have hi := Reachable.statsInv hinit hok hsize hbs hal hround hreach
  have hused := hf.usedBlocks
  have hcount := Lifo.counts_run hf.blockSize_pos h hf.answers
  have hlen : (outstanding h).length < 2 ^ 32 := hused ▸ u32_toNat_lt _
  refine ⟨hi.allocCount, hi.freeCount, hused, hi.peakUsage, UInt32.toNat.inj ?_, ?_,
    fun b r he => ?_⟩
  · rw [u32_toNat_sub, hi.allocCount, hi.freeCount, hused, hcount]
    omega
  · rw [u32_le_iff, hused, hi.peakUsage]
    exact length_outstanding_le_peak h
  · obtain ⟨u, u', h', -, hstep⟩ := hreach.mem_history he
    exact step_alloc_ne_ok hstep

end FromInit

theorem stats_history_sample :
    let s : State := sampleRun.2
    let h : History := sampleHistory
    s.pool.stats.allocCount.toNat = allocsSinceReset h % 2 ^ 32 ∧
      s.pool.stats.freeCount.toNat = freesSinceReset h % 2 ^ 32 ∧
      s.pool.stats.usedBlocks.toNat = (outstanding h).length ∧
      s.pool.stats.peakUsage.toNat = peakSinceReset h ∧
      s.pool.stats.allocCount - s.pool.stats.freeCount = s.pool.stats.usedBlocks ∧
      s.pool.stats.usedBlocks ≤ s.pool.stats.peakUsage ∧
      (∀ b r, (Call.alloc b, r) ∈ h → r ≠ .code .ok) :=
  stats_history (Option.some_get _).symm (by decide) (by decide) (by decide) (by decide)
    (by decide) sampleRun_reachable

end Mempool
