import Mempool.Proof.Ops

/-!
# `Proof/Step.lean` — one lemma per call of the client's transition system

`step` wraps each public operation: its checks before the lock, the critical section, and the
reply the client sees. On a state that represents a free stack `S`, each call's reply and next
state are written out here once (`Rep.step_alloc`, `Rep.step_free`, ...), and then put together
into the one fact every run-level proof uses: a call on a state representing `S` answers what
`Lifo.step` answers and leaves a state representing the stack `Lifo.step` leaves
(`Rep.step_lifo`). That is the refinement, one call at a time.
-/

set_option autoImplicit false

namespace Mempool

/-- The geometry a control block records. -/
def Pool.geometry (p : Pool) : Geometry := ⟨p.blocksStart, p.blockSize.toNat, p.totalBlocks.toNat⟩

theorem Pool.geometry_eq {p q : Pool} (h : p.geometry = q.geometry) :
    p.blocksStart = q.blocksStart ∧ p.blockSize.toNat = q.blockSize.toNat ∧
      p.totalBlocks.toNat = q.totalBlocks.toNat :=
  Geometry.mk.inj h

/-- The checks `mempool_free` makes before it takes the lock, with what it does after them as
`k`. Both versions of the library make exactly these (`Model/V2.lean`). -/
def freeChecks (A : Arch) (s : State) (block : Nat) (k : Option (Outcome Empty)) :
    Option (Outcome Empty) :=
  if block = 0 then some (.early .errNullPtr s)
  else if !s.pool.initialized then some (.early .errNotInitialized s)
  else if block < s.pool.blocksStart ∨ blocksEndAddr A s.pool ≤ block then
    some (.early .errInvalidBlock s)
  else do
    let rem ← umod (A.sub block s.pool.blocksStart) s.pool.blockSize.toNat
    if rem ≠ 0 then pure (.early .errInvalidBlock s) else k

theorem mempoolFree_eq_freeChecks (A : Arch) (s : State) (block : Nat) :
    mempoolFree A s block = freeChecks A s block ((freeBody A s block).map (locked s)) := rfl

namespace Layout

variable {A : Arch} {p : Pool}

/-- Under `Layout`, the checks before the lock let through exactly the pointers that name a
block. -/
theorem freeChecks_eq {s : State} (hl : Layout A s.pool) {block : Nat} (hb : block ≠ 0)
    (k : Option (Outcome Empty)) :
    freeChecks A s block k = match s.pool.geometry.indexOf block with
      | none => some (.early .errInvalidBlock s)
      | some _ => k := by
  have hpos := hl.blockSize_pos
  have hend := hl.end_lt
  simp only [freeChecks, if_neg hb, hl.initialized, Bool.not_true, Bool.false_eq_true, if_false,
    hl.blocksEndAddr_eq]
  by_cases hrange : block < s.pool.blocksStart ∨
      s.pool.blocksStart + s.pool.totalBlocks.toNat * s.pool.blockSize.toNat ≤ block
  · have hnone : s.pool.geometry.indexOf block = none := by
      simp only [Geometry.indexOf, Pool.geometry]
      rw [if_neg]
      rintro ⟨hle, hmod, hlt⟩
      have := Nat.div_add_mod (block - s.pool.blocksStart) s.pool.blockSize.toNat
      have := Nat.mul_le_mul_left s.pool.blockSize.toNat (Nat.succ_le_of_lt hlt)
      rw [Nat.mul_succ] at this
      rw [Nat.mul_comm s.pool.blockSize.toNat s.pool.totalBlocks.toNat] at this
      omega
    rw [if_pos hrange, hnone]
  · rw [if_neg hrange]
    obtain ⟨hle, hlt⟩ : s.pool.blocksStart ≤ block ∧
        block < s.pool.blocksStart + s.pool.totalBlocks.toNat * s.pool.blockSize.toNat := by omega
    rw [Arch.sub_of_le hle (by omega), umod_of_pos hpos]
    simp only [Option.bind_eq_bind, Option.some_bind, Option.pure_def]
    have hq : (block - s.pool.blocksStart) / s.pool.blockSize.toNat < s.pool.totalBlocks.toNat :=
      (Nat.div_lt_iff_lt_mul hpos).2 (by omega)
    by_cases hrem : (block - s.pool.blocksStart) % s.pool.blockSize.toNat = 0
    · have hidx : s.pool.geometry.indexOf block =
          some ((block - s.pool.blocksStart) / s.pool.blockSize.toNat) :=
        if_pos ⟨hle, hrem, hq⟩
      rw [if_neg (not_not.2 hrem), hidx]
    · have hidx : s.pool.geometry.indexOf block = none := if_neg fun h => hrem h.2.1
      rw [if_pos hrem, hidx]

theorem mempoolFree_eq {s : State} (hl : Layout A s.pool) {block : Nat} (hb : block ≠ 0) :
    mempoolFree A s block = match s.pool.geometry.indexOf block with
      | none => some (.early .errInvalidBlock s)
      | some _ => (freeBody A s block).map (locked s) :=
  hl.freeChecks_eq hb _

end Layout

namespace Rep

variable {A : Arch} {s : State} {S : List Nat}

theorem step_alloc (hr : Rep A s S) (block : Nat) :
    step A s (.alloc block) = some (if block = 0 then (.code .errNullPtr, s) else match S with
      | [] => (.code .errOutOfMemory, s)
      | i :: _ => (.block (s.pool.blockAddr i), allocState A s i)) := by
  by_cases hb : block = 0
  · simp [step, mempoolAlloc, hb, Outcome.early, Outcome.reply]
  · cases S with
    | nil =>
      simp [step, mempoolAlloc, hb, hr.layout.initialized, hr.allocBody_nil, locked,
        Outcome.reply]
    | cons i S =>
      simp [step, mempoolAlloc, hb, hr.layout.initialized, hr.allocBody_cons, locked,
        Outcome.reply]

theorem step_free (hr : Rep A s S) (p : Nat) :
    step A s (.free p) = some (if p = 0 then (.code .errNullPtr, s) else
      match s.pool.geometry.indexOf p with
      | none => (.code .errInvalidBlock, s)
      | some i => if i ∈ S then (.code .errDoubleFree, s) else (.code .ok, freeState A s i)) := by
  by_cases hp : p = 0
  · simp [step, mempoolFree, hp, Outcome.early]
  · rw [if_neg hp, step, hr.layout.mempoolFree_eq hp]
    cases hidx : s.pool.geometry.indexOf p with
    | none => rfl
    | some i =>
      obtain ⟨hi, rfl⟩ := (Geometry.indexOf_eq_some_iff hr.layout.blockSize_pos).1 hidx
      rw [show s.pool.geometry.addr i = s.pool.blockAddr i from rfl, hr.freeBody_blockAddr hi]
      by_cases hiS : i ∈ S <;> simp [hiS, locked]

theorem step_reset (hr : Rep A s S) :
    ∃ m' head, step A s .reset = some (.code .ok, ⟨s.pool.afterReset head, m'⟩) ∧
      Rep A ⟨s.pool.afterReset head, m'⟩ (Lifo.fresh s.pool.geometry) ∧
      ∀ b, b < s.pool.blocksStart ∨
          s.pool.blocksStart + s.pool.totalBlocks.toNat * s.pool.blockSize.toNat ≤ b →
        m' b = memset0 s.mem s.pool.bitmap s.pool.bitmapBytes.toNat b := by
  obtain ⟨m', head, hbody, hrep, hframe⟩ := resetBody_eq hr.layout
  refine ⟨m', head, ?_, hrep, hframe⟩
  simp [step, mempoolReset, hr.layout.initialized, hbody, locked]

theorem step_getStats (hr : Rep A s S) (stats : Nat) :
    step A s (.getStats stats) =
      some (if stats = 0 then .code .errNullPtr else .stats s.pool.stats, s) := by
  by_cases hs : stats = 0 <;>
    simp [step, mempoolGetStats, hs, hr.layout.initialized, Outcome.early, Outcome.reply, locked]

theorem step_contains (hr : Rep A s S) (p : Nat) :
    step A s (.contains p) = some (.member (p != 0 && decide (s.pool.blocksStart ≤ p ∧
      p < s.pool.blocksStart + s.pool.totalBlocks.toNat * s.pool.blockSize.toNat)), s) := by
  by_cases hp : p = 0 <;>
    simp [step, mempoolContains, hp, hr.layout.initialized, hr.layout.blocksEndAddr_eq]

/-- The state `mempool_set_sync` leaves. -/
def setSyncState (s : State) (lock unlock userCtx : Nat) : State :=
  ⟨{ s.pool with sync := ⟨lock, unlock, userCtx⟩, syncEnabled := lock != 0 && unlock != 0 }, s.mem⟩

theorem step_setSync (hr : Rep A s S) (lock unlock userCtx : Nat) :
    step A s (.setSync lock unlock userCtx) = some (.code .ok, setSyncState s lock unlock userCtx) := by
  simp [step, mempoolSetSync, hr.layout.initialized, setSyncState]

/-- The hook record is no part of the representation. -/
theorem setSyncState_rep (hr : Rep A s S) (lock unlock userCtx : Nat) :
    Rep A (setSyncState s lock unlock userCtx) S :=
  ⟨⟨hr.layout.initialized, hr.layout.ptrSize_le, hr.layout.bitmapBytes_eq, hr.layout.bitmap_le,
    hr.layout.start_pos, hr.layout.end_lt, hr.layout.aligned⟩, hr.chain, hr.nodup, hr.lt, hr.freeBlocks_eq,
    hr.bit_eq, hr.stats_totalBlocks, hr.stats_freeBlocks, hr.stats_usedBlocks, hr.stats_blockSize⟩

/-- One call refines one step of the abstract pool: it has no undefined behaviour, answers what
`Lifo.step` answers, leaves a state representing the stack `Lifo.step` leaves, and keeps the
geometry. -/
theorem step_lifo (hr : Rep A s S) (c : Call) :
    ∃ r s', step A s c = some (r, s') ∧ r.answer = (Lifo.step s.pool.geometry S c).1 ∧
      Rep A s' (Lifo.step s.pool.geometry S c).2 ∧ s'.pool.geometry = s.pool.geometry := by
  cases c with
  | alloc block =>
    rw [hr.step_alloc]
    by_cases hb : block = 0
    · refine ⟨.code .errNullPtr, s, by rw [if_pos hb], ?_, ?_, rfl⟩ <;> simp [Lifo.step, hb, Reply.answer, hr]
    · cases S with
      | nil =>
        refine ⟨.code .errOutOfMemory, s, by rw [if_neg hb], ?_, ?_, rfl⟩ <;> simp [Lifo.step, hb, Reply.answer, hr]
      | cons i S =>
        refine ⟨.block (s.pool.blockAddr i), allocState A s i, by rw [if_neg hb], ?_, ?_, rfl⟩
        · simp [Lifo.step, hb, Reply.answer]; rfl
        · simpa [Lifo.step, hb] using hr.allocState_rep
  | free p =>
    rw [hr.step_free]
    by_cases hp : p = 0
    · refine ⟨.code .errNullPtr, s, by rw [if_pos hp], ?_, ?_, rfl⟩ <;> simp [Lifo.step, hp, Reply.answer, hr]
    · cases hidx : s.pool.geometry.indexOf p with
      | none =>
        refine ⟨.code .errInvalidBlock, s, by rw [if_neg hp], ?_, ?_, rfl⟩ <;>
          simp [Lifo.step, hp, hidx, Reply.answer, hr]
      | some i =>
        have hi := ((Geometry.indexOf_eq_some_iff hr.layout.blockSize_pos).1 hidx).1
        by_cases hiS : i ∈ S
        · refine ⟨.code .errDoubleFree, s, by rw [if_neg hp]; simp [hiS], ?_, ?_, rfl⟩ <;>
            simp [Lifo.step, hp, hidx, hiS, Reply.answer, hr]
        · refine ⟨.code .ok, freeState A s i, by rw [if_neg hp]; simp [hiS], ?_, ?_, rfl⟩
          · simp [Lifo.step, hp, hidx, hiS, Reply.answer]
          · simpa [Lifo.step, hp, hidx, hiS] using hr.freeState_rep hi hiS
  | reset =>
    obtain ⟨m', head, hstep, hrep, -⟩ := hr.step_reset
    exact ⟨_, _, hstep, rfl, hrep, rfl⟩
  | getStats stats =>
    refine ⟨_, _, hr.step_getStats stats, ?_, hr, rfl⟩
    by_cases hs : stats = 0 <;> simp [Lifo.step, hs, Reply.answer]
  | contains p =>
    exact ⟨_, _, hr.step_contains p, by simp [Lifo.step, Reply.answer, Geometry.addr,
      Pool.geometry], hr, rfl⟩
  | setSync lock unlock userCtx =>
    exact ⟨_, _, hr.step_setSync lock unlock userCtx, rfl, hr.setSyncState_rep lock unlock userCtx,
      rfl⟩

end Rep

end Mempool
