import Mempool.Model.Run

/-!
# `Proof/Frame.lean` — what each call writes

One lemma per public operation says everything a call can do, on any control block and any
memory: either it fails, and then it leaves the state exactly as it was and stores nothing
through its out-parameter, or it succeeds, and then the new control block is the one the source
computes and memory changed only at the bytes named (`mempoolAlloc_spec`, `mempoolFree_spec`,
...). The run-level frame results of `Proof/Footprint.lean` and the failure law
`failing_calls_unchanged` are read off these.

`WritesOnly m m' W` is the frame judgement: every byte where `m'` differs from `m` satisfies `W`.
No call after `mempool_init` changes a control block's `Pool.shape` (`step_shape`).
-/

set_option autoImplicit false

namespace Mempool

/-- `m'` differs from `m` at most at addresses satisfying `W`. -/
def WritesOnly (m m' : Mem) (W : Nat → Prop) : Prop := ∀ a, m' a ≠ m a → W a

namespace WritesOnly

variable {m m' m'' : Mem} {W W' : Nat → Prop}

theorem refl (m : Mem) (W : Nat → Prop) : WritesOnly m m W := fun _ h => absurd rfl h

theorem mono (h : WritesOnly m m' W) (hW : ∀ a, W a → W' a) : WritesOnly m m' W' :=
  fun a ha => hW a (h a ha)

theorem trans (h₁ : WritesOnly m m' W) (h₂ : WritesOnly m' m'' W) : WritesOnly m m'' W := by
  intro a ha
  by_cases h : m' a = m a
  · exact h₂ a (h ▸ ha)
  · exact h₁ a h

/-- A byte `W` excludes keeps its value. -/
theorem apply_eq (h : WritesOnly m m' W) {a : Nat} (ha : ¬ W a) : m' a = m a :=
  Classical.byContradiction fun hne => ha (h a hne)

theorem storeByte (m : Mem) (a : Nat) (v : UInt8) : WritesOnly m (storeByte m a v) (· = a) :=
  fun b hb => by
    rw [storeByte_apply] at hb
    by_contra hba
    exact hb (if_neg hba)

theorem storeWord (k : Nat) (m : Mem) (p v : Nat) :
    WritesOnly m (storeWord k m p v) fun a => p ≤ a ∧ a < p + k := fun b hb => by
  by_contra hin
  exact hb (storeWord_apply_of_not_mem (by omega))

end WritesOnly

/-- Address `a` is one of the pool's bitmap bytes, `bitmap[0 .. bitmap_bytes)`. -/
def InBitmap (p : Pool) (a : Nat) : Prop := p.bitmap ≤ a ∧ a < p.bitmap + p.bitmapBytes.toNat

@[simp] theorem Pool.afterAlloc_shape (p : Pool) (next : Nat) :
    (p.afterAlloc next).shape = p.shape := rfl

@[simp] theorem Pool.afterFree_shape (p : Pool) (block : Nat) :
    (p.afterFree block).shape = p.shape := rfl

@[simp] theorem Pool.afterReset_shape (p : Pool) (head : Nat) :
    (p.afterReset head).shape = p.shape := rfl

/-! ## The critical sections -/

section Bodies

variable {A : Arch} {s : State}

/-- The critical section of `mempool_alloc`: out of memory with nothing touched, or the head node
popped, with one store to a bitmap byte. -/
theorem allocBody_cases {b : MempoolError × State × Option Nat} (h : allocBody A s = some b) :
    b = (.errOutOfMemory, s, none) ∨
      ∃ next m, b = (.ok, ⟨s.pool.afterAlloc next, m⟩, some s.pool.freeList) ∧
        WritesOnly s.mem m (InBitmap s.pool) := by
  dsimp only [allocBody] at h
  split at h
  · exact .inl (Option.some.inj h).symm
  split at h
  · exact .inl (Option.some.inj h).symm
  simp only [Option.bind_eq_bind, Option.bind_eq_some, Option.pure_def, Option.some.injEq] at h
  obtain ⟨node, hnode, index, -, rfl⟩ := h
  obtain ⟨-, rfl⟩ := Arch.nodePtr_eq_some.1 hnode
  refine .inr ⟨_, _, rfl, ?_⟩
  split
  · refine (WritesOnly.storeByte _ _ _).mono fun a ha => ?_
    rename_i hlt
    rw [u32_lt_iff] at hlt
    exact ha ▸ ⟨Nat.le_add_right _ _, by omega⟩
  · exact WritesOnly.refl _ _

/-- The critical section of `mempool_free`: a rejected block with nothing touched, or the block
pushed, with its link word and one bitmap byte stored. -/
theorem freeBody_cases {block : Nat} {b : MempoolError × State × Option Empty}
    (h : freeBody A s block = some b) :
    (∃ e, e ≠ .ok ∧ b = (e, s, none)) ∨
      ∃ m, b = (.ok, ⟨s.pool.afterFree block, m⟩, none) ∧
        WritesOnly s.mem m fun a => InBitmap s.pool a ∨ (block ≤ a ∧ a < block + A.ptrSize) := by
  simp only [freeBody, Option.bind_eq_bind, Option.bind_eq_some, Option.pure_def] at h
  obtain ⟨index, -, h⟩ := h
  split at h
  · exact .inl ⟨_, by decide, (Option.some.inj h).symm⟩
  split at h
  · exact .inl ⟨_, by decide, (Option.some.inj h).symm⟩
  rename_i hbyte _
  rw [u32_le_iff, Nat.not_le] at hbyte
  simp only [Option.bind_eq_bind, Option.bind_eq_some, Option.pure_def, Option.some.injEq] at h
  obtain ⟨node, hnode, next, hnext, rfl⟩ := h
  obtain ⟨-, rfl⟩ := Arch.nodePtr_eq_some.1 hnode
  obtain ⟨-, rfl⟩ := Arch.nodePtr_eq_some.1 hnext
  refine .inr ⟨_, rfl, ?_⟩
  refine ((WritesOnly.storeWord _ _ _ _).mono fun a ha => Or.inr ha).trans
    ((WritesOnly.storeByte _ _ _).mono fun a ha => Or.inl ?_)
  exact ha ▸ ⟨Nat.le_add_right _ _, by omega⟩

/-- The critical section of `mempool_reset` always succeeds when it is defined. -/
theorem resetBody_cases {b : MempoolError × State × Option Empty} (h : resetBody A s = some b) :
    ∃ head m, b = (.ok, ⟨s.pool.afterReset head, m⟩, none) := by
  simp only [resetBody, Option.bind_eq_bind, Option.bind_eq_some, Option.pure_def,
    Option.some.injEq] at h
  obtain ⟨threaded, -, rfl⟩ := h
  exact ⟨_, _, rfl⟩

end Bodies

/-! ## The operations -/

section Operations

variable {A : Arch} {s : State}

/-- `mempool_alloc` returns before its critical section on a `NULL` argument or an uninitialised
pool, and is its critical section between the hook calls otherwise. -/
theorem mempoolAlloc_cases {block : Nat} {o : Outcome Nat} (h : mempoolAlloc A s block = some o) :
    (∃ e ∈ [MempoolError.errNullPtr, .errNotInitialized], o = .early e s) ∨
      ∃ b, allocBody A s = some b ∧ o = locked s b := by
  unfold mempoolAlloc at h
  split at h
  · cases h; exact .inl ⟨_, by simp, rfl⟩
  split at h
  · cases h; exact .inl ⟨_, by simp, rfl⟩
  obtain ⟨b, hb, rfl⟩ := Option.map_eq_some'.1 h
  exact .inr ⟨b, hb, rfl⟩

/-- `mempool_free` returns before its critical section on a `NULL` argument, an uninitialised
pool, or a pointer outside the block region or off a block boundary, and is its critical section
between the hook calls otherwise. -/
theorem mempoolFree_cases {block : Nat} {o : Outcome Empty} (h : mempoolFree A s block = some o) :
    (∃ e ∈ [MempoolError.errNullPtr, .errNotInitialized, .errInvalidBlock], o = .early e s) ∨
      ∃ b, freeBody A s block = some b ∧ o = locked s b := by
  unfold mempoolFree at h
  split at h
  · cases h; exact .inl ⟨_, by simp, rfl⟩
  split at h
  · cases h; exact .inl ⟨_, by simp, rfl⟩
  split at h
  · cases h; exact .inl ⟨_, by simp, rfl⟩
  simp only [Option.bind_eq_bind, Option.bind_eq_some, Option.pure_def] at h
  obtain ⟨rem, -, h⟩ := h
  split at h
  · cases h; exact .inl ⟨_, by simp, rfl⟩
  obtain ⟨b, hb, rfl⟩ := Option.map_eq_some'.1 h
  exact .inr ⟨b, hb, rfl⟩

/-- `mempool_reset` returns before its critical section on an uninitialised pool, and is its
critical section between the hook calls otherwise. -/
theorem mempoolReset_cases {o : Outcome Empty} (h : mempoolReset A s = some o) :
    o = .early .errNotInitialized s ∨ ∃ b, resetBody A s = some b ∧ o = locked s b := by
  unfold mempoolReset at h
  split at h
  · cases h; exact .inl rfl
  obtain ⟨b, hb, rfl⟩ := Option.map_eq_some'.1 h
  exact .inr ⟨b, hb, rfl⟩

/-- Everything `mempool_alloc` can do. -/
theorem mempoolAlloc_spec {block : Nat} {o : Outcome Nat} (h : mempoolAlloc A s block = some o) :
    (o.result ≠ .ok ∧ o.state = s ∧ o.out = none) ∨
      ∃ next, o.result = .ok ∧ o.out = some s.pool.freeList ∧
        o.state.pool = s.pool.afterAlloc next ∧ WritesOnly s.mem o.state.mem (InBitmap s.pool) := by
  rcases mempoolAlloc_cases h with ⟨e, he, rfl⟩ | ⟨b, hb, rfl⟩
  · exact .inl ⟨fun hok => by cases hok; simp at he, rfl, rfl⟩
  rcases allocBody_cases hb with rfl | ⟨next, m, rfl, hm⟩
  · exact .inl ⟨nofun, rfl, rfl⟩
  · exact .inr ⟨next, rfl, rfl, rfl, hm⟩

/-- Everything `mempool_free` can do, for any pointer. -/
theorem mempoolFree_spec {block : Nat} {o : Outcome Empty} (h : mempoolFree A s block = some o) :
    (o.result ≠ .ok ∧ o.state = s) ∨
      o.result = .ok ∧ o.state.pool = s.pool.afterFree block ∧
        WritesOnly s.mem o.state.mem fun a =>
          InBitmap s.pool a ∨ (block ≤ a ∧ a < block + A.ptrSize) := by
  rcases mempoolFree_cases h with ⟨e, he, rfl⟩ | ⟨b, hb, rfl⟩
  · exact .inl ⟨fun hok => by cases hok; simp at he, rfl⟩
  rcases freeBody_cases hb with ⟨e, he, rfl⟩ | ⟨m, rfl, hm⟩
  · exact .inl ⟨he, rfl⟩
  · exact .inr ⟨rfl, rfl, hm⟩

/-- Everything `mempool_reset` can do; what it writes is in `Proof/Footprint.lean`, where the
pool's layout is known. -/
theorem mempoolReset_spec {o : Outcome Empty} (h : mempoolReset A s = some o) :
    (o.result ≠ .ok ∧ o.state = s) ∨
      o.result = .ok ∧ ∃ head, o.state.pool = s.pool.afterReset head := by
  rcases mempoolReset_cases h with rfl | ⟨b, hb, rfl⟩
  · exact .inl ⟨nofun, rfl⟩
  obtain ⟨head, m, rfl⟩ := resetBody_cases hb
  exact .inr ⟨rfl, head, rfl⟩

theorem mempoolGetStats_state (stats : Nat) : (mempoolGetStats s stats).state = s := by
  unfold mempoolGetStats; split
  · rfl
  split <;> rfl

theorem mempoolGetStats_out {stats : Nat} (h : (mempoolGetStats s stats).result ≠ .ok) :
    (mempoolGetStats s stats).out = none := by
  revert h; unfold mempoolGetStats; split
  · exact fun _ => rfl
  split
  · exact fun _ => rfl
  · exact fun h => absurd rfl h

theorem mempoolSetSync_state (lock unlock userCtx : Nat) :
    (mempoolSetSync s lock unlock userCtx).2.mem = s.mem ∧
      (mempoolSetSync s lock unlock userCtx).2.pool.shape = s.pool.shape := by
  unfold mempoolSetSync; split <;> exact ⟨rfl, rfl⟩

end Operations

/-- Failing operations leave the pool exactly as it was: on every control block and every
memory, a call of `mempool_alloc`, `mempool_free` (any pointer), `mempool_reset`,
`mempool_get_stats` or `mempool_set_sync` that returns an error leaves the control block and
every byte as they were, and a failing `mempool_alloc` or `mempool_get_stats` stores nothing
through its out-parameter. -/
theorem failing_calls_unchanged (A : Arch) (s : State) :
    (∀ block o, mempoolAlloc A s block = some o → o.result ≠ .ok → o.state = s ∧ o.out = none) ∧
      (∀ block o, mempoolFree A s block = some o → o.result ≠ .ok → o.state = s) ∧
      (∀ o, mempoolReset A s = some o → o.result ≠ .ok → o.state = s) ∧
      (∀ stats, (mempoolGetStats s stats).result ≠ .ok →
        (mempoolGetStats s stats).state = s ∧ (mempoolGetStats s stats).out = none) ∧
      (∀ lock unlock userCtx, (mempoolSetSync s lock unlock userCtx).1 ≠ .ok →
        (mempoolSetSync s lock unlock userCtx).2 = s) := by
  refine ⟨fun block o h he => ?_, fun block o h he => ?_, fun o h he => ?_,
    fun stats he => ⟨mempoolGetStats_state stats, mempoolGetStats_out he⟩,
    fun lock unlock userCtx he => ?_⟩
  · rcases mempoolAlloc_spec h with ⟨-, hs, ho⟩ | ⟨_, hok, -⟩
    · exact ⟨hs, ho⟩
    · exact absurd hok he
  · rcases mempoolFree_spec h with ⟨-, hs⟩ | ⟨hok, -⟩
    · exact hs
    · exact absurd hok he
  · rcases mempoolReset_spec h with ⟨-, hs⟩ | ⟨hok, -⟩
    · exact hs
    · exact absurd hok he
  · revert he; unfold mempoolSetSync; split
    · exact fun _ => rfl
    · exact fun h => absurd rfl h

/-! ## One step of the client -/

section Step

variable {A : Arch} {s s' : State} {c : Call} {r : Reply}

/-- No call changes the fields only `mempool_init` writes. -/
theorem step_shape (h : step A s c = some (r, s')) : s'.pool.shape = s.pool.shape := by
  cases c with
  | alloc block =>
    obtain ⟨o, ho, he⟩ := Option.map_eq_some'.1 h
    cases he
    rcases mempoolAlloc_spec ho with ⟨-, hs, -⟩ | ⟨next, -, -, hp, -⟩
    · rw [hs]
    · simp [hp]
  | free block =>
    obtain ⟨o, ho, he⟩ := Option.map_eq_some'.1 h
    cases he
    rcases mempoolFree_spec ho with ⟨-, hs⟩ | ⟨-, hp, -⟩
    · rw [hs]
    · simp [hp]
  | reset =>
    obtain ⟨o, ho, he⟩ := Option.map_eq_some'.1 h
    cases he
    rcases mempoolReset_spec ho with ⟨-, hs⟩ | ⟨-, head, hp⟩
    · rw [hs]
    · simp [hp]
  | getStats stats =>
    cases h; rw [mempoolGetStats_state]
  | contains p => cases h; rfl
  | setSync lock unlock userCtx =>
    cases h; exact (mempoolSetSync_state lock unlock userCtx).2

/-- `mempool_alloc` never answers a bare `MEMPOOL_OK`: it succeeds only by storing a block
through its out-parameter. -/
theorem step_alloc_ne_ok {block : Nat} (h : step A s (.alloc block) = some (r, s')) :
    r ≠ .code .ok := by
  obtain ⟨o, ho, he⟩ := Option.map_eq_some'.1 h
  cases he
  rcases mempoolAlloc_spec ho with ⟨hne, -, hout⟩ | ⟨-, -, hout, -⟩
  · simp only [Outcome.reply, hout]; exact fun he => hne (Reply.code.inj he)
  · simp only [Outcome.reply, hout]; exact nofun

/-- Every entry of a reachable history is a call made in a reachable state. -/
theorem Reachable.mem_history {s₀ : State} {h : History} (hs : Reachable A s₀ s h)
    {e : Call × Reply} (he : e ∈ h) :
    ∃ u u' h', Reachable A s₀ u h' ∧ step A u e.1 = some (e.2, u') := by
  induction hs with
  | init => cases he
  | call hu hstep ih =>
    rcases List.mem_cons.1 he with rfl | he
    · exact ⟨_, _, _, hu, hstep⟩
    · exact ih he
  | store _ _ ih => exact ih he

/-- Along a run the shape stays the one `mempool_init` gave. -/
theorem Reachable.shape {s₀ : State} {h : History} (hs : Reachable A s₀ s h) :
    s.pool.shape = s₀.pool.shape := by
  induction hs with
  | init => rfl
  | call _ hstep ih => exact (step_shape hstep).trans ih
  | store _ _ ih => exact ih

end Step

end Mempool
