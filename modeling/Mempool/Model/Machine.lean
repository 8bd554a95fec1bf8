import Mathlib

/-!
# `Model/Machine.lean` — the C machine the pool runs on

`part_008` is written against three kinds of integer and one kind of memory, and this file
fixes how each is read here:

* `size_t` and `uintptr_t` values are `Nat`s below `A.modulus = 2 ^ w`. Arithmetic on them is
  modular, as C's unsigned arithmetic is, and the model says so at each operation with
  `A.wrap` and `A.sub`. Pointer arithmetic (`(uint8_t *)p + k`) is **not** reduced: C defines it
  only inside one object, where it cannot wrap.
* `uint32_t` fields are `UInt32` and `uint8_t` bitmap bytes are `UInt8`, so that their own
  wrap-around is the type's.
* Undefined behaviour is `none`: a division by zero, pointer arithmetic that leaves the address
  space, and the conversion of an address that is not a multiple of `_Alignof (void *)` to a
  `free_node_t *` (`A.nodePtr`), which every link store and load of the free list goes through.
  One more conversion is not modelled: `(mempool_t *)state_buffer` in `mempool_init` is
  undefined for a state buffer not aligned for `struct mempool`. The control block is a record
  here, not bytes at that address (`Mem`), so every result is for an aligned state buffer, as
  the repository's own buffers are declared (`__attribute__((aligned(8)))`).
* Memory is a byte per address. A pointer-sized word is `A.ptrSize` bytes, least significant
  first; nothing below depends on the byte order beyond `loadWord_storeWord`.

The platform is a parameter (`Arch`), so every result is for every pointer width the C
standard allows, not for the 64-bit host the tests happen to run on.
-/

set_option autoImplicit false

namespace Mempool

/-- The C data model the library is compiled for. `size_t` and `uintptr_t` are as wide as a
pointer, `ptrSize` bytes, and C11 §7.20.3 makes `SIZE_MAX` at least `65535`, hence `ptrSize_ge`.
A pointer is aligned to its size (`_Alignof (void *) = sizeof (void *)`, on both data models
below). `stateSize` is `sizeof (struct mempool)` there, what `mempool_state_size()` returns. -/
structure Arch where
  ptrSize : Nat
  stateSize : Nat
  ptrSize_ge : 2 ≤ ptrSize

/-- The LP64 data model the repository's tests run on: 8-byte pointers, and
`sizeof (struct mempool)` is 112 bytes there (four pointers, five `uint32_t`, seven more in the
statistics, the three-pointer hook record, two `bool`s, padded to 8). -/
def lp64 : Arch := ⟨8, 112, by decide⟩

/-- The ILP32 data model of 32-bit targets: 4-byte pointers, and `sizeof (struct mempool)` is 80
bytes (the same fields, padded to 4). -/
def ilp32 : Arch := ⟨4, 80, by decide⟩

namespace Arch

variable (A : Arch)

/-- Bits in a `size_t`. -/
def w : Nat := 8 * A.ptrSize

/-- `SIZE_MAX + 1`. -/
def modulus : Nat := 2 ^ A.w

/-- A `size_t` / `uintptr_t` result, reduced as C reduces it. -/
def wrap (x : Nat) : Nat := x % A.modulus

/-- `a - b` on `size_t` / `uintptr_t` operands. -/
def sub (a b : Nat) : Nat := A.wrap (a + A.modulus - b)

/-- `p + k` on a pointer. C defines it only inside the object `p` points into (C11 §6.5.6);
the model calls it undefined, `none`, when the result is not even an address, which is how
the pool's own pointer arithmetic can fail (`mempool_init` on a buffer whose layout check
wrapped). -/
def ptrAdd (p k : Nat) : Option Nat := if p + k < A.modulus then some (p + k) else none

/-- `(free_node_t *)a`. A `free_node_t` holds one pointer, so its alignment is `ptrSize`, and
C11 §6.3.2.3p7 makes the conversion undefined when `a` is not a multiple of it; `NULL` converts
to `NULL`. -/
def nodePtr (a : Nat) : Option Nat := if a % A.ptrSize = 0 then some a else none

theorem nodePtr_of_aligned {A : Arch} {a : Nat} (h : a % A.ptrSize = 0) : A.nodePtr a = some a :=
  if_pos h

theorem nodePtr_eq_some {A : Arch} {a b : Nat} : A.nodePtr a = some b ↔ a % A.ptrSize = 0 ∧ a = b := by
  unfold nodePtr; split <;> simp [*]

theorem modulus_eq : A.modulus = 256 ^ A.ptrSize := by
  rw [modulus, w, Nat.pow_mul]

theorem modulus_pos : 0 < A.modulus := Nat.pos_pow_of_pos _ (by decide)

/-- A 16-bit `size_t` at least: the bound the layout arithmetic leans on. -/
theorem modulus_ge : 65536 ≤ A.modulus := by
  rw [modulus_eq]
  calc 65536 = 256 ^ 2 := rfl
    _ ≤ 256 ^ A.ptrSize := Nat.pow_le_pow_right (by decide) A.ptrSize_ge

@[simp] theorem wrap_of_lt {A : Arch} {x : Nat} (h : x < A.modulus) : A.wrap x = x :=
  Nat.mod_eq_of_lt h

theorem wrap_le {A : Arch} (x : Nat) : A.wrap x ≤ x := Nat.mod_le _ _

theorem wrap_lt {A : Arch} (x : Nat) : A.wrap x < A.modulus := Nat.mod_lt _ A.modulus_pos

theorem sub_of_le {A : Arch} {a b : Nat} (h : b ≤ a) (ha : a - b < A.modulus) :
    A.sub a b = a - b := by
  rw [sub, wrap, show a + A.modulus - b = a - b + A.modulus by omega, Nat.add_mod_right,
    Nat.mod_eq_of_lt ha]

theorem ptrAdd_of_lt {A : Arch} {p k : Nat} (h : p + k < A.modulus) : A.ptrAdd p k = some (p + k) :=
  if_pos h

theorem ptrAdd_eq_some {A : Arch} {p k q : Nat} :
    A.ptrAdd p k = some q ↔ p + k < A.modulus ∧ p + k = q := by
  unfold ptrAdd; split <;> simp [*]

end Arch

/-- `a / b` on unsigned operands: undefined for `b = 0`. -/
def udiv (a b : Nat) : Option Nat := if b = 0 then none else some (a / b)

/-- `a % b` on unsigned operands: undefined for `b = 0`. -/
def umod (a b : Nat) : Option Nat := if b = 0 then none else some (a % b)

theorem udiv_of_pos {a b : Nat} (h : 0 < b) : udiv a b = some (a / b) := if_neg (by omega)

theorem umod_of_pos {a b : Nat} (h : 0 < b) : umod a b = some (a % b) := if_neg (by omega)

/-! ## Memory -/

/-- The bytes of the machine, by address. The control block is not among them: it lives in the
caller's state buffer, which no operation reaches through a computed address, so the model
keeps it as a record of its own (`State.pool`). -/
def Mem : Type := Nat → UInt8

/-- The `k`-byte word stored at `a`, least significant byte first. -/
def loadWord : Nat → Mem → Nat → Nat
  | 0, _, _ => 0
  | k + 1, m, a => (m a).toNat + 256 * loadWord k m (a + 1)

/-- Stores the low `k` bytes of `v` at `a`, least significant byte first. -/
def storeWord : Nat → Mem → Nat → Nat → Mem
  | 0, m, _, _ => m
  | k + 1, m, a, v => storeWord k (Function.update m a (UInt8.ofNat v)) (a + 1) (v / 256)

/-- `memset(a, 0, k)`. -/
def memset0 (m : Mem) (a k : Nat) : Mem := fun b => if a ≤ b ∧ b < a + k then 0 else m b

/-- One byte store, `*(uint8_t *)a = v`. -/
def storeByte (m : Mem) (a : Nat) (v : UInt8) : Mem := Function.update m a v

/-- A word store touches only its own `k` bytes. -/
theorem storeWord_apply_of_not_mem {k : Nat} {m : Mem} {a v b : Nat} (h : b < a ∨ a + k ≤ b) :
    storeWord k m a v b = m b := by
  induction k generalizing m a v with
  | zero => rfl
  | succ k ih =>
    rw [storeWord, ih (by omega), Function.update_noteq (by omega)]

theorem loadWord_congr {k : Nat} {m m' : Mem} {a : Nat} (h : ∀ j < k, m' (a + j) = m (a + j)) :
    loadWord k m' a = loadWord k m a := by
  induction k generalizing a with
  | zero => rfl
  | succ k ih =>
    have h0 := h 0 (by omega)
    simp only [Nat.add_zero] at h0
    rw [loadWord, loadWord, h0, ih fun j hj => by
      simpa only [Nat.add_assoc, Nat.add_comm 1 j] using h (j + 1) (by omega)]

/-- Reading a word back gives what was stored, when it fits in `k` bytes. -/
theorem loadWord_storeWord {k : Nat} {m : Mem} {a v : Nat} (hv : v < 256 ^ k) :
    loadWord k (storeWord k m a v) a = v := by
  induction k generalizing m a v with
  | zero => simp at hv; simp [loadWord, hv]
  | succ k ih =>
    rw [storeWord, loadWord, ih (by rw [Nat.pow_succ] at hv; omega),
      storeWord_apply_of_not_mem (Or.inl (Nat.lt_succ_self a)), Function.update_same]
    simp only [UInt8.toNat, UInt8.ofNat, BitVec.toNat_ofNat]
    omega

@[simp] theorem memset0_apply (m : Mem) (a k b : Nat) :
    memset0 m a k b = if a ≤ b ∧ b < a + k then 0 else m b := rfl

theorem storeByte_apply (m : Mem) (a : Nat) (v : UInt8) (b : Nat) :
    storeByte m a v b = if b = a then v else m b := by
  simp only [storeByte, Function.update_apply]

/-! ## `uint32_t` and `uint8_t` -/

theorem toNat_ofNat32 (n : Nat) : (UInt32.ofNat n).toNat = n % 2 ^ 32 := BitVec.toNat_ofNat ..

theorem toNat_ofNat8 (n : Nat) : (UInt8.ofNat n).toNat = n % 2 ^ 8 := BitVec.toNat_ofNat ..

theorem u32_lt_iff {a b : UInt32} : a < b ↔ a.toNat < b.toNat := Iff.rfl

theorem u32_le_iff {a b : UInt32} : a ≤ b ↔ a.toNat ≤ b.toNat := Iff.rfl

theorem u32_toNat_lt (a : UInt32) : a.toNat < 2 ^ 32 := a.toBitVec.isLt

theorem u8_toNat_lt (a : UInt8) : a.toNat < 2 ^ 8 := a.toBitVec.isLt

theorem u32_toNat_add (a b : UInt32) : (a + b).toNat = (a.toNat + b.toNat) % 2 ^ 32 :=
  BitVec.toNat_add ..

theorem u32_toNat_sub (a b : UInt32) : (a - b).toNat = (2 ^ 32 - b.toNat + a.toNat) % 2 ^ 32 :=
  BitVec.toNat_sub ..

theorem u32_sub_self (a : UInt32) : a - a = 0 := by
  show (⟨a.toBitVec - a.toBitVec⟩ : UInt32) = ⟨0⟩; rw [BitVec.sub_self]; rfl

/-- Storing the word memory already holds changes nothing. -/
theorem storeWord_self {k : Nat} {m : Mem} {a v : Nat} (h : loadWord k m a = v)
    (hv : v < 256 ^ k) : storeWord k m a v = m := by
  induction k generalizing a v with
  | zero => rfl
  | succ k ih =>
    rw [loadWord] at h
    have hbyte : (m a).toNat < 256 := u8_toNat_lt _
    have hofNat : UInt8.ofNat v = m a :=
      UInt8.toNat.inj (by rw [toNat_ofNat8]; show v % 256 = _; omega)
    rw [storeWord, hofNat, Function.update_eq_self]
    exact ih (by omega) (by rw [Nat.pow_succ] at hv; omega)

/-- The mask `(uint8_t)(1U << bit_index)`. -/
def bitMask (bitIndex : UInt32) : UInt8 := UInt8.ofNat (1 <<< bitIndex.toNat)

/-- Bit `k` of a byte. -/
def byteBit (b : UInt8) (k : Nat) : Bool := b.toNat.testBit k

theorem bitMask_toNat {k : UInt32} (hk : k.toNat < 8) : (bitMask k).toNat = 2 ^ k.toNat := by
  rw [bitMask, toNat_ofNat8, Nat.shiftLeft_eq, Nat.one_mul]
  exact Nat.mod_eq_of_lt (Nat.pow_lt_pow_of_lt (by decide) hk)

theorem byteBit_or_mask {b : UInt8} {k : UInt32} (hk : k.toNat < 8) (j : Nat) :
    byteBit (b ||| bitMask k) j = (byteBit b j || decide (k.toNat = j)) := by
  have : (b ||| bitMask k).toNat = b.toNat ||| (bitMask k).toNat := BitVec.toNat_or ..
  simp only [byteBit, this, Nat.testBit_or, bitMask_toNat hk, Nat.testBit_two_pow]

theorem byteBit_and_not_mask {b : UInt8} {k : UInt32} (hk : k.toNat < 8) (j : Nat) :
    byteBit (b &&& ~~~bitMask k) j = (byteBit b j && !decide (k.toNat = j)) := by
  have hn : (~~~bitMask k).toNat = 2 ^ 8 - 1 - (bitMask k).toNat := BitVec.toNat_not
  have hlt : (bitMask k).toNat < 2 ^ 8 := u8_toNat_lt _
  simp only [byteBit, UInt8.and_toNat, Nat.testBit_and, hn,
    show 2 ^ 8 - 1 - (bitMask k).toNat = 2 ^ 8 - ((bitMask k).toNat + 1) by omega]
  rw [Nat.testBit_two_pow_sub_succ hlt, bitMask_toNat hk, Nat.testBit_two_pow]
  by_cases hj : j < 8
  · simp [hj]
  · have : b.toNat.testBit j = false := Nat.testBit_lt_two_pow
      (Nat.lt_of_lt_of_le (u8_toNat_lt b) (Nat.pow_le_pow_right (by decide) (by omega)))
    simp [this]

/-- A byte none of whose eight bits is set is zero. -/
theorem byte_eq_zero_of_byteBit {b : UInt8} (h : ∀ k < 8, byteBit b k = false) : b = 0 := by
  apply UInt8.toNat.inj
  apply Nat.eq_of_testBit_eq
  intro k
  rw [show (0 : UInt8).toNat = 0 from rfl, Nat.zero_testBit]
  by_cases hk : k < 8
  · exact h k hk
  · exact Nat.testBit_lt_two_pow
      (Nat.lt_of_lt_of_le (u8_toNat_lt b) (Nat.pow_le_pow_right (by decide) (by omega)))

/-- The test `(byte & mask) == 0U` reads bit `bit_index`. -/
theorem and_bitMask_eq_zero {b : UInt8} {k : UInt32} (hk : k.toNat < 8) :
    (b &&& bitMask k = 0) ↔ byteBit b k.toNat = false := by
  constructor
  · intro h
    have := congrArg (fun x : UInt8 => x.toNat.testBit k.toNat) h
    simpa [byteBit, UInt8.and_toNat, bitMask_toNat hk] using this
  · intro h
    apply UInt8.toNat.inj
    apply Nat.eq_of_testBit_eq
    intro j
    simp only [UInt8.and_toNat, Nat.testBit_and, bitMask_toNat hk, Nat.testBit_two_pow]
    by_cases hj : k.toNat = j
    · subst hj; simpa [byteBit] using h
    · simp [hj]

end Mempool
