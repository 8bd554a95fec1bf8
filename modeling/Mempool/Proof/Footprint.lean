import Mempool.Proof.Frame
import Mempool.Proof.Refinement

/-!
# `Proof/Footprint.lean` — the pool keeps out of the client's data

What a call may write is collected in `footprint`: the bitmap, for a successful `mempool_free`
the freed block's link word, and for `mempool_reset` the block region. On a laid-out pool every
call keeps to it (`step_writesOnly`). In a run, that region misses every block the client holds
before and after the call (`Refines.held_untouched`) and lies inside the pool buffer.

The second half is the converse view: what the client stores into its blocks is never read back
by the pool. A call's reply and the control block it leaves depend only on the control block and
the free stack the state represents (`Rep.step_congr`), so two runs with the same calls give the
same replies and the same control blocks, whatever was stored in between
(`Reachable.same_calls`).
-/

set_option autoImplicit false

namespace Mempool

/-- The bytes call `c` with reply `r` may write on a pool with control block `p`. -/
def footprint (A : Arch) (p : Pool) : Call → Reply → Nat → Prop
  | .alloc _, _, a => InBitmap p a
  | .free q, r, a => InBitmap p a ∨ (r = .code .ok ∧ q ≤ a ∧ a < q + A.ptrSize)
  | .reset, _, a => InBitmap p a ∨
      (p.blocksStart ≤ a ∧ a < p.blocksStart + p.totalBlocks.toNat * p.blockSize.toNat)
  | _, _, _ => False

section Step

variable {A : Arch} {s s' : State} {c : Call} {r : Reply}

/-- Every call on a laid-out pool writes inside its footprint. -/
theorem step_writesOnly (hl : Layout A s.pool) (h : step A s c = some (r, s')) :
    WritesOnly s.mem s'.mem (footprint A s.pool c r) := by
  cases c with
  | alloc block =>
    obtain ⟨o, ho, he⟩ := Option.map_eq_some'.1 h
    cases he
    rcases mempoolAlloc_spec ho with ⟨-, hs, -⟩ | ⟨next, -, -, -, hm⟩
    · rw [hs]; exact WritesOnly.refl _ _
    · exact hm
  | free block =>
    obtain ⟨o, ho, he⟩ := Option.map_eq_some'.1 h
    cases he
    rcases mempoolFree_spec ho with ⟨-, hs⟩ | ⟨hok, -, hm⟩
    · rw [hs]; exact WritesOnly.refl _ _
    · exact hm.mono fun a ha => ha.imp_right fun ha => ⟨by rw [hok], ha⟩
  | reset =>
    obtain ⟨m', head, hbody, -, hframe⟩ := Rep.resetBody_eq hl
    simp only [step, mempoolReset, hl.initialized, Bool.not_true, Bool.false_eq_true, if_false,
      hbody, Option.map_some', Option.some.injEq, Prod.mk.injEq] at h
    obtain ⟨-, rfl⟩ := h
    intro a ha
    by_cases hblk : s.pool.blocksStart ≤ a ∧
        a < s.pool.blocksStart + s.pool.totalBlocks.toNat * s.pool.blockSize.toNat
    · exact .inr hblk
    · refine .inl (Classical.byContradiction fun hbm => ha ?_)
      show m' a = s.mem a
      rw [hframe a (by omega), memset0_apply]
      exact if_neg hbm
  | getStats stats => cases h; rw [mempoolGetStats_state]; exact WritesOnly.refl _ _
  | contains p => cases h; exact WritesOnly.refl _ _
  | setSync lock unlock userCtx =>
    cases h; rw [(mempoolSetSync_state lock unlock userCtx).1]; exact WritesOnly.refl _ _

end Step

namespace Rep

variable {A : Arch} {s t : State} {S : List Nat}

/-- A successful `mempool_alloc` leaves the next node's address as the head, which the free stack
already names. -/
theorem allocState_pool {i : Nat} (hr : Rep A s (i :: S)) :
    (allocState A s i).pool = s.pool.afterAlloc ((S.map s.pool.blockAddr).headD 0) := by
  have htail := hr.chain.tail
  rw [hr.chain.head_eq] at htail
  exact congrArg s.pool.afterAlloc htail.start_eq

/-- A call's reply and the control block it leaves are fixed by the control block and the free
stack; no other byte is read, and the target's pointer width enters neither. -/
theorem step_congr {B : Arch} (hs : Rep A s S) (ht : Rep B t S) (hp : s.pool = t.pool) (c : Call) :
    (step A s c).map (fun x => (x.1, x.2.pool)) = (step B t c).map (fun x => (x.1, x.2.pool)) := by
  cases c with
  | alloc block =>
    rw [hs.step_alloc, ht.step_alloc]
    by_cases hb : block = 0
    · simp [hb, hp]
    cases S with
    | nil => simp [hb, hp]
    | cons i S => simp [hb, hs.allocState_pool, ht.allocState_pool, hp]
  | free p =>
    rw [hs.step_free, ht.step_free, hp]
    by_cases hp0 : p = 0
    · simp [hp0, hp]
    cases hidx : t.pool.geometry.indexOf p with
    | none => simp [hp0, hp]
    | some i => by_cases hiS : i ∈ S <;> simp [hp0, hiS, freeState, hp]
  | reset =>
    obtain ⟨m, head, hstep, hrep, -⟩ := hs.step_reset
    obtain ⟨m', head', hstep', hrep', -⟩ := ht.step_reset
    have e : head = ((Lifo.fresh s.pool.geometry).map s.pool.blockAddr).headD 0 :=
      hrep.chain.start_eq
    have e' : head' = ((Lifo.fresh t.pool.geometry).map t.pool.blockAddr).headD 0 :=
      hrep'.chain.start_eq
    rw [hstep, hstep', e, e', hp]
    rfl
  | getStats stats => simp [hs.step_getStats, ht.step_getStats, hp]
  | contains p => simp [hs.step_contains, ht.step_contains, hp]
  | setSync lock unlock userCtx =>
    simp [hs.step_setSync, ht.step_setSync, setSyncState, hp]

end Rep

namespace Reachable

variable {A : Arch} {s₀ s : State}

/-- The last call of a run, with the state it was made in; the stores after it leave the control
block alone. -/
theorem peel {c : Call} {r : Reply} {h : History} (hs : Reachable A s₀ s ((c, r) :: h)) :
    ∃ u u', Reachable A s₀ u h ∧ step A u c = some (r, u') ∧ u'.pool = s.pool := by
  generalize he : (c, r) :: h = h' at hs
  induction hs with
  | init => cases he
  | call hu hstep _ =>
    cases he
    exact ⟨_, _, hu, hstep, rfl⟩
  | store _ _ ih => exact ih he

theorem pool_of_nil (hs : Reachable A s₀ s []) : s.pool = s₀.pool := by
  generalize he : ([] : History) = h' at hs
  induction hs with
  | init => rfl
  | call _ _ _ => cases he
  | store _ _ ih => exact ih he

end Reachable

namespace Refines

variable {A : Arch} {g : Geometry} {s s' : State} {h : History} {c : Call} {r : Reply}

/-- A call's reply is the abstract pool's. -/
theorem answer_eq (hf : Refines A g s h) (hstep : step A s c = some (r, s')) :
    r.answer = (Lifo.step g (Lifo.run g (h.map Prod.fst)) c).1 :=
  (List.cons.inj (hf.call hstep).answers).1

/-- A held block starts at or past the start of the block region. -/
theorem held_addr (hf : Refines A g s h) {b : Nat} (hb : b ∈ outstanding h) :
    ∃ i < g.totalBlocks, i ∉ Lifo.run g (h.map Prod.fst) ∧ b = s.pool.blockAddr i := by
  obtain ⟨i, hi, hiS, rfl⟩ := (hf.held.mem_iff b).1 hb
  exact ⟨i, hi, hiS, by rw [← hf.geometry]; rfl⟩

/-- No call writes into a block the client holds both before and after it. -/
theorem held_untouched (hf : Refines A g s h) (hstep : step A s c = some (r, s')) {b : Nat}
    (hb : b ∈ outstanding h) (hb' : b ∈ outstanding ((c, r) :: h)) {a : Nat} (ha₁ : b ≤ a)
    (ha₂ : a < b + g.blockSize) : s'.mem a = s.mem a := by
  have hl := hf.rep.layout
  obtain ⟨j, hj, -, rfl⟩ := hf.held_addr hb
  rw [← hf.geometry] at ha₂ hj
  have hbm : ¬ InBitmap s.pool a := fun ⟨_, h⟩ => by
    have := hl.bitmap_le; simp only [Pool.blockAddr] at ha₁; omega
  refine (step_writesOnly hl hstep).apply_eq ?_
  have hans := hf.answer_eq hstep
  cases c with
  | alloc block => exact hbm
  | free q =>
    rintro (hin | ⟨rfl, hq₁, hq₂⟩)
    · exact hbm hin
    obtain ⟨i, hi, -, rfl⟩ := Lifo.free_ok_inv hf.blockSize_pos hans.symm
    have hne : s.pool.blockAddr j ≠ g.addr i := by
      simp only [outstanding, Reply.answer] at hb'
      exact ((hf.held.nodup.mem_erase_iff).1 hb').1
    rw [← hf.geometry] at hne hq₁ hq₂
    change s.pool.blockAddr i ≤ a at hq₁
    change a < s.pool.blockAddr i + A.ptrSize at hq₂
    change a < s.pool.blockAddr j + s.pool.blockSize.toNat at ha₂
    have hji : j ≠ i := fun e => hne (by rw [e]; rfl)
    exact Layout.blockAddr_add_ne hji (show a - s.pool.blockAddr j < s.pool.blockSize.toNat by omega)
      (show a - s.pool.blockAddr i < s.pool.blockSize.toNat by have := hl.ptrSize_le; omega)
      (by omega)
  | reset =>
    have hr : r.answer = .code .ok := hans
    simp [outstanding, hr] at hb'
  | getStats _ => exact id
  | contains _ => exact id
  | setSync _ _ _ => exact id

/-- A call writes between the start of the bitmap and the end of the block region. -/
theorem footprint_bounds (hf : Refines A g s h) (hstep : step A s c = some (r, s')) {a : Nat}
    (ha : footprint A s.pool c r a) : s.pool.bitmap ≤ a ∧
      a < s.pool.blocksStart + s.pool.totalBlocks.toNat * s.pool.blockSize.toNat := by
  have hl := hf.rep.layout
  have hbot := hl.bitmap_le
  have hbm : InBitmap s.pool a → s.pool.bitmap ≤ a ∧
      a < s.pool.blocksStart + s.pool.totalBlocks.toNat * s.pool.blockSize.toNat :=
    fun ha => ⟨ha.1, by have := ha.2; omega⟩
  cases c with
  | alloc _ => exact hbm ha
  | free q =>
    rcases ha with ha | ⟨hr, hq₁, hq₂⟩
    · exact hbm ha
    -- the link word of a freed block lies in that block
    obtain ⟨i, hi, -, rfl⟩ := Lifo.free_ok_inv hf.blockSize_pos (hr ▸ hf.answer_eq hstep).symm
    rw [← hf.geometry] at hi hq₁ hq₂
    have hend := @Layout.blockAddr_lt s.pool i hi
    have := hl.ptrSize_le
    simp only [Pool.blockAddr] at hend
    change s.pool.blocksStart + i * s.pool.blockSize.toNat ≤ a at hq₁
    change a < s.pool.blocksStart + i * s.pool.blockSize.toNat + A.ptrSize at hq₂
    exact ⟨by omega, by omega⟩
  | reset =>
    rcases ha with ha | ha
    · exact hbm ha
    · exact ⟨by omega, ha.2⟩
  | getStats _ => exact ha.elim
  | contains _ => exact ha.elim
  | setSync _ _ _ => exact ha.elim

end Refines

section FromInit

variable {A : Arch} {prior : Pool} {mem : Mem}
  {stateBuffer stateBufferSize poolBuffer poolBufferSize blockSize alignment poolOut : Nat}
  {o : InitOutcome}
  (hinit : mempoolInit A prior mem stateBuffer stateBufferSize poolBuffer poolBufferSize blockSize
    alignment poolOut = some o)
  (hok : o.result = .ok) (hsize : poolBufferSize < A.modulus)
  (hbs : blockSize < A.modulus) (hal : alignment < A.modulus)
  (hround : roundUp blockSize alignment ≤ 2 ^ 32 - 1)

include hinit hok hsize hbs hal hround

/-- Two runs with the same calls answer alike and leave the same control block. -/
theorem Reachable.same_calls {s t : State} {h h' : History}
    (hs : Reachable A ⟨o.pool, o.mem⟩ s h) (ht : Reachable A ⟨o.pool, o.mem⟩ t h')
    (hc : h'.map Prod.fst = h.map Prod.fst) : h' = h ∧ t.pool = s.pool := by
  induction h generalizing s t h' with
  | nil =>
    rw [List.map_nil, List.map_eq_nil_iff] at hc
    subst hc
    exact ⟨rfl, ht.pool_of_nil.trans hs.pool_of_nil.symm⟩
  | cons e h ih =>
    obtain ⟨c, r⟩ := e
    cases h' with
    | nil => cases hc
    | cons e' h' =>
      obtain ⟨c', r'⟩ := e'
      simp only [List.map_cons] at hc
      obtain ⟨hcc, hc⟩ := List.cons.inj hc
      obtain ⟨u, u', hu, hsu, hpu⟩ := hs.peel
      obtain ⟨v, v', hv, htv, hpv⟩ := ht.peel
      rw [hcc] at htv
      obtain ⟨rfl, hp⟩ := ih hu hv hc
      have hcongr := (Reachable.refines hinit hok hsize hbs hal hround hu).rep.step_congr
        (Reachable.refines hinit hok hsize hbs hal hround hv).rep hp.symm c
      rw [hsu, htv] at hcongr
      simp only [Option.map_some', Option.some.injEq, Prod.mk.injEq] at hcongr
      exact ⟨by rw [hcc, hcongr.1], by rw [← hpu, ← hpv, hcongr.2]⟩

/-- The footprint of every call in a run. `mempool_alloc` writes only bitmap bytes below
`bitmap_bytes`, and `mempool_free`, for any pointer, only those and, when it succeeds, the freed
block's first pointer-sized word (the control block and the out-parameter aside, which are not
pool memory). No call writes outside the pool buffer or into a block held both before and after
it. And what the client stores into its blocks is never read back: two runs with the same calls
return the same replies, block pointers and statistics, and leave the same control block. -/
theorem footprint_disjoint {s : State} {h : History} (hreach : Reachable A ⟨o.pool, o.mem⟩ s h) :
    (∀ block r s', step A s (.alloc block) = some (r, s') →
      WritesOnly s.mem s'.mem (InBitmap o.pool)) ∧
    (∀ p r s', step A s (.free p) = some (r, s') →
      WritesOnly s.mem s'.mem fun a =>
        InBitmap o.pool a ∨ (r = .code .ok ∧ p ≤ a ∧ a < p + A.ptrSize)) ∧
    (∀ c r s', step A s c = some (r, s') →
      WritesOnly s.mem s'.mem (fun a => poolBuffer ≤ a ∧ a < poolBuffer + poolBufferSize) ∧
      ∀ b ∈ outstanding h, b ∈ outstanding ((c, r) :: h) →
        ∀ a, b ≤ a → a < b + o.pool.blockSize.toNat → s'.mem a = s.mem a) ∧
    (∀ t h', Reachable A ⟨o.pool, o.mem⟩ t h' → h'.map Prod.fst = h.map Prod.fst →
      h' = h ∧ t.pool = s.pool) := by
  have hf := Reachable.refines hinit hok hsize hbs hal hround hreach
  have hl := hf.rep.layout
  have hI := (mempoolInit_spec hinit hok hsize hbs hal (by omega)).1
  obtain ⟨-, hstart, hbitmap, hbb, hbsz, hN, -, -⟩ := Shape.mk.inj hreach.shape
  dsimp only at hstart hbitmap hbb hbsz hN
  have hbm : ∀ a, InBitmap s.pool a ↔ InBitmap o.pool a := fun a => by
    simp only [InBitmap, hbitmap, hbb]
  refine ⟨fun block r s' hstep => (step_writesOnly hl hstep).mono fun a ha => (hbm a).1 ha,
    fun p r s' hstep => (step_writesOnly hl hstep).mono fun a ha => ha.imp_left (hbm a).1,
    fun c r s' hstep => ⟨(step_writesOnly hl hstep).mono fun a ha => ?_,
      fun b hb hb' a ha₁ ha₂ => hf.held_untouched hstep hb hb' ha₁ ha₂⟩,
    fun t h' ht hc => Reachable.same_calls hinit hok hsize hbs hal hround hreach ht hc⟩
  -- the footprint lies between the bitmap, at the buffer's start, and the end of the blocks
  have hin := hf.footprint_bounds hstep ha
  have htop := hI.end_le
  rw [← hstart, ← hN, ← hbsz] at htop
  have hpb : s.pool.bitmap = poolBuffer := hbitmap.trans hI.bitmap_eq
  omega

end FromInit

theorem footprint_disjoint_sample :
    let s : State := sampleRun.2
    let h : History := sampleHistory
    (∀ block r s', step lp64 s (.alloc block) = some (r, s') →
      WritesOnly s.mem s'.mem (InBitmap samplePool.pool)) ∧
    (∀ p r s', step lp64 s (.free p) = some (r, s') →
      WritesOnly s.mem s'.mem fun a =>
        InBitmap samplePool.pool a ∨ (r = .code .ok ∧ p ≤ a ∧ a < p + lp64.ptrSize)) ∧
    (∀ c r s', step lp64 s c = some (r, s') →
      WritesOnly s.mem s'.mem (fun a => 4096 ≤ a ∧ a < 4096 + 512) ∧
      ∀ b ∈ outstanding h, b ∈ outstanding ((c, r) :: h) →
        ∀ a, b ≤ a → a < b + samplePool.pool.blockSize.toNat → s'.mem a = s.mem a) ∧
    (∀ t h', Reachable lp64 ⟨samplePool.pool, samplePool.mem⟩ t h' →
      h'.map Prod.fst = h.map Prod.fst → h' = h ∧ t.pool = s.pool) :=
  footprint_disjoint (Option.some_get _).symm (by decide) (by decide) (by decide) (by decide)
    (by decide) sampleRun_reachable

end Mempool
