import Mempool.Model.Pool

/-!
# `Proof/FreeList.lean` — the free list as memory holds it

The free list has no representation of its own: it is whatever following the first word of
each node gives. `Chain k m p l` says that following `k`-byte links in `m` from `p` visits the
nodes `l`, in order, and then reaches `NULL`. It is inductive, so a chain is finite and
null-terminated by construction; that it is acyclic is then the same as `l.Nodup`.

Two facts carry every later proof: a chain is unaffected by stores outside the link words of
its own nodes (`Chain.frame`), and the loop that `mempool_init` and `mempool_reset` share
builds the chain of its nodes in descending order and touches nothing outside its region
(`threadFreeList_spec`).
-/

set_option autoImplicit false

namespace Mempool

/-- Following `k`-byte links in `m` from `p` visits `l` and then reaches `NULL`. -/
inductive Chain (k : Nat) (m : Mem) : Nat → List Nat → Prop
  | null : Chain k m 0 []
  | cons {p : Nat} {l : List Nat} : p ≠ 0 → Chain k m (loadWord k m p) l → Chain k m p (p :: l)

namespace Chain

variable {k : Nat} {m m' : Mem} {p : Nat} {l l' : List Nat}

/-- A list is read back the same way every time. -/
theorem unique (h : Chain k m p l) (h' : Chain k m p l') : l = l' := by
  induction h generalizing l' with
  | null => cases h' with
    | null => rfl
    | cons hp _ => exact absurd rfl hp
  | cons hp _ ih => cases h' with
    | null => exact absurd rfl hp
    | cons _ h'' => rw [ih h'']

theorem head_eq {q : Nat} (h : Chain k m p (q :: l)) : p = q := by
  cases h; rfl

/-- A chain starts at its first node, or at `NULL` when it is empty. -/
theorem start_eq (h : Chain k m p l) : p = l.headD 0 := by
  cases h <;> rfl

theorem tail {q : Nat} (h : Chain k m p (q :: l)) : Chain k m (loadWord k m p) l := by
  cases h with
  | cons _ h => exact h

theorem eq_zero_iff (h : Chain k m p l) : p = 0 ↔ l = [] := by
  cases h with
  | null => simp
  | cons hp _ => simp [hp]

/-- A chain survives every store outside the link words of its nodes. -/
theorem frame (h : Chain k m p l) (hm : ∀ q ∈ l, ∀ j < k, m' (q + j) = m (q + j)) :
    Chain k m' p l := by
  induction h with
  | null => exact .null
  | cons hp _ ih =>
    refine .cons hp ?_
    rw [loadWord_congr (hm _ (List.mem_cons_self _ _))]
    exact ih fun q hq => hm q (List.mem_cons_of_mem _ hq)

end Chain

/-- The nodes the free-list loop links, newest first: `cur + (count - 1) * stride, ..., cur`. -/
def threaded (cur stride count : Nat) : List Nat :=
  (List.range count).reverse.map fun i => cur + i * stride

theorem threaded_succ (cur stride count : Nat) :
    threaded cur stride (count + 1) = threaded (cur + stride) stride count ++ [cur] := by
  simp only [threaded, List.range_succ_eq_map, List.reverse_cons, List.map_append,
    List.map_reverse, List.map_map]
  congr 2
  · exact List.map_congr_left fun i _ => by simp only [Function.comp_apply, Nat.succ_mul]; omega
  · simp

/-- One turn of the loop: convert `cur` to a node and link it back to `prev`, then go on from
`cur + stride`. -/
theorem threadFreeList_succ {A : Arch} {stride count : Nat} {m : Mem} {cur prev : Nat}
    {r : Mem × Nat} :
    threadFreeList A stride (count + 1) m cur prev = some r ↔
      cur % A.ptrSize = 0 ∧ cur + stride < A.modulus ∧
        threadFreeList A stride count (storeWord A.ptrSize m cur prev) (cur + stride) cur = some r := by
  rw [threadFreeList, Option.bind_eq_bind, Option.bind_eq_some]
  simp only [Arch.nodePtr_eq_some, Option.bind_eq_bind, Option.bind_eq_some, Arch.ptrAdd_eq_some]
  constructor
  · rintro ⟨_, ⟨hal, rfl⟩, _, ⟨hlt, rfl⟩, hrun⟩; exact ⟨hal, hlt, hrun⟩
  · rintro ⟨hal, hlt, hrun⟩; exact ⟨_, ⟨hal, rfl⟩, _, ⟨hlt, rfl⟩, hrun⟩

/-- The loop of `mempool_init` and `mempool_reset`: over a region that fits the address space,
with every node aligned for `free_node_t` and links no wider than the stride, it has no undefined
behaviour, it leaves the chain of its nodes in descending order in front of whatever `prev`
started, and it writes nothing outside `[cur, cur + count * stride)`. -/
theorem threadFreeList_spec {A : Arch} {stride count : Nat} {m : Mem} {cur prev : Nat}
    {L : List Nat} (hk : A.ptrSize ≤ stride) (hcur : 0 < cur)
    (hend : cur + count * stride < A.modulus) (hal : ∀ i < count, (cur + i * stride) % A.ptrSize = 0)
    (hprev : prev < A.modulus)
    (hL : Chain A.ptrSize m prev L) (hLcur : ∀ q ∈ L, q + A.ptrSize ≤ cur) :
    ∃ m' head, threadFreeList A stride count m cur prev = some (m', head) ∧
      Chain A.ptrSize m' head (threaded cur stride count ++ L) ∧
      ∀ b, b < cur ∨ cur + count * stride ≤ b → m' b = m b := by
  induction count generalizing m cur prev L with
  | zero => exact ⟨m, prev, rfl, hL, fun _ _ => rfl⟩
  | succ c ih =>
    have hnext : cur + stride < A.modulus := by rw [Nat.succ_mul] at hend; omega
    have hstored : Chain A.ptrSize (storeWord A.ptrSize m cur prev) cur (cur :: L) := by
      refine .cons (by omega) ?_
      rw [loadWord_storeWord (by rwa [← A.modulus_eq])]
      exact hL.frame fun q hq j hj => storeWord_apply_of_not_mem (Or.inl (by
        have := hLcur q hq; omega))
    obtain ⟨m', head, hrun, hchain, hframe⟩ := @ih _ (cur + stride) cur _
      (by omega) (by rw [Nat.succ_mul] at hend; omega)
      (fun i hi => by
        have := hal (i + 1) (by omega)
        rwa [Nat.succ_mul, ← Nat.add_assoc, Nat.add_right_comm] at this)
      (by omega) hstored
      (fun q hq => by
        rcases List.mem_cons.mp hq with rfl | hq
        · omega
        · have := hLcur q hq; omega)
    refine ⟨m', head, threadFreeList_succ.2 ⟨by simpa using hal 0 (by omega), hnext, hrun⟩, ?_,
      fun b hb => ?_⟩
    · simpa only [threaded_succ, List.append_assoc, List.singleton_append] using hchain
    · rw [hframe b (by rw [Nat.succ_mul] at hb; omega),
        storeWord_apply_of_not_mem (by rw [Nat.succ_mul] at hb; omega)]

/-- A loop that returned converted every node: each is aligned for `free_node_t`. -/
theorem threadFreeList_aligned {A : Arch} {stride count : Nat} {m m' : Mem} {cur prev head : Nat}
    (hrun : threadFreeList A stride count m cur prev = some (m', head)) :
    ∀ i < count, (cur + i * stride) % A.ptrSize = 0 := by
  induction count generalizing m cur prev with
  | zero => intro i hi; omega
  | succ c ih =>
    obtain ⟨hal, -, hrest⟩ := threadFreeList_succ.1 hrun
    rintro (_ | i) hi
    · simpa using hal
    · have := ih hrest i (by omega)
      rwa [Nat.succ_mul, ← Nat.add_assoc, Nat.add_right_comm]

/-- The loop writes nothing below where it starts. -/
theorem threadFreeList_apply_of_lt {A : Arch} {stride count : Nat} {m m' : Mem}
    {cur prev head : Nat} (hrun : threadFreeList A stride count m cur prev = some (m', head))
    {b : Nat} (hb : b < cur) : m' b = m b := by
  induction count generalizing m cur prev with
  | zero => cases hrun; rfl
  | succ c ih =>
    obtain ⟨-, -, hrest⟩ := threadFreeList_succ.1 hrun
    rw [ih hrest (by omega), storeWord_apply_of_not_mem (Or.inl hb)]

/-- Run again over the memory it left, the loop stores only the links already there, so it
leaves that memory and that head again. -/
theorem threadFreeList_idem {A : Arch} {stride count : Nat} {m m' : Mem} {cur prev head : Nat}
    (hk : A.ptrSize ≤ stride) (hprev : prev < A.modulus)
    (hrun : threadFreeList A stride count m cur prev = some (m', head)) :
    threadFreeList A stride count m' cur prev = some (m', head) := by
  induction count generalizing m cur prev with
  | zero => cases hrun; rfl
  | succ c ih =>
    obtain ⟨hal, hlt, hrest⟩ := threadFreeList_succ.1 hrun
    have hprev' : prev < 256 ^ A.ptrSize := A.modulus_eq ▸ hprev
    -- the link `cur → prev` lies below every later store, so `m'` still holds it
    have hlink : loadWord A.ptrSize m' cur = prev := by
      rw [loadWord_congr fun j hj => threadFreeList_apply_of_lt hrest (b := cur + j) (by omega),
        loadWord_storeWord hprev']
    rw [threadFreeList_succ, storeWord_self hlink hprev']
    exact ⟨hal, hlt, ih (by omega) hrest⟩

theorem mem_threaded {cur stride count q : Nat} :
    q ∈ threaded cur stride count ↔ ∃ i < count, q = cur + i * stride := by
  simp only [threaded, List.mem_map, List.mem_reverse, List.mem_range]
  exact ⟨fun ⟨i, hi, he⟩ => ⟨i, hi, he.symm⟩, fun ⟨i, hi, he⟩ => ⟨i, hi, he.symm⟩⟩

end Mempool
