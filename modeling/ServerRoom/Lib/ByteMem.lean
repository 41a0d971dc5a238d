import Mathlib.Algebra.Group.Nat.Defs
import Mathlib.Data.List.GetD
import Mathlib.Data.Nat.Notation
import Mathlib.Logic.Function.Basic

/-!
# Byte-addressed memory

A memory is a function from addresses to bytes. Programs that treat one object
both as a packed struct and as raw bytes are modelled on it: a field is a word
at an offset, a region is a slice.

* `slice_write`, `slice_write_disj`: what a region holds after a write to it, and
  after a write elsewhere.
* `ofLE`, `toLE`: little-endian words of `n` bytes; `swap32` reverses the bytes of
  a 32-bit word (`bytes32_swap32`), so `store32_swap32` reverses them in memory.
-/

namespace ByteMem

/-- A byte-addressed memory. -/
abbrev Mem := ℕ → UInt8

/-- The `len` bytes from address `off` on. -/
def slice (m : Mem) (off len : ℕ) : List UInt8 := (List.range len).map fun i => m (off + i)

/-- The memory with the bytes `bs` at address `off`. -/
def write (m : Mem) (off : ℕ) (bs : List UInt8) : Mem :=
  fun i => if off ≤ i then bs.getD (i - off) (m i) else m i

/-- The memory with one byte changed. -/
def put (m : Mem) (i : ℕ) (b : UInt8) : Mem := Function.update m i b

@[simp] theorem slice_length (m : Mem) (off len : ℕ) : (slice m off len).length = len := by
  simp [slice]

@[simp] theorem slice_zero (m : Mem) (off : ℕ) : slice m off 0 = [] := rfl

theorem slice_congr {m m' : Mem} {off len : ℕ} (h : ∀ i, off ≤ i → i < off + len → m i = m' i) :
    slice m off len = slice m' off len := by
  unfold slice
  apply List.map_congr_left
  intro i hi
  exact h _ (by omega) (by have := List.mem_range.1 hi; omega)

theorem slice_append (m : Mem) (off a b : ℕ) :
    slice m off (a + b) = slice m off a ++ slice m (off + a) b := by
  simp [slice, List.range_add, Function.comp_def, Nat.add_assoc]

theorem slice_succ (m : Mem) (off n : ℕ) : slice m off (n + 1) = slice m off n ++ [m (off + n)] := by
  rw [slice_append]; simp [slice]

theorem slice_take (m : Mem) (off : ℕ) {a n : ℕ} (h : a ≤ n) :
    (slice m off n).take a = slice m off a := by
  obtain ⟨b, rfl⟩ := Nat.exists_eq_add_of_le h
  rw [slice_append, List.take_append_of_le_length (by simp), List.take_of_length_le (by simp)]

theorem slice_drop (m : Mem) (off : ℕ) {a n : ℕ} (h : a ≤ n) :
    (slice m off n).drop a = slice m (off + a) (n - a) := by
  obtain ⟨b, rfl⟩ := Nat.exists_eq_add_of_le h
  rw [slice_append, List.drop_append_of_le_length (by simp), List.drop_of_length_le (by simp),
    List.nil_append, Nat.add_sub_cancel_left]

theorem write_of_lt (m : Mem) {off i : ℕ} (bs : List UInt8) (h : i < off) :
    write m off bs i = m i := by
  simp [write, Nat.not_le.2 h]

theorem write_of_ge (m : Mem) {off i : ℕ} (bs : List UInt8) (h : off + bs.length ≤ i) :
    write m off bs i = m i := by
  unfold write
  rw [if_pos (by omega), List.getD_eq_default _ _ (by omega)]

theorem write_of_disj (m : Mem) {off i : ℕ} (bs : List UInt8) (h : i < off ∨ off + bs.length ≤ i) :
    write m off bs i = m i :=
  h.elim (write_of_lt m bs) (write_of_ge m bs)

theorem write_of_mem (m : Mem) {off i : ℕ} (bs : List UInt8) (h : i < bs.length) :
    write m off bs (off + i) = bs[i] := by
  simp [write, h]

/-- **A region holds what was written to it.** -/
theorem slice_write (m : Mem) (off : ℕ) (bs : List UInt8) :
    slice (write m off bs) off bs.length = bs := by
  apply List.ext_getElem (by simp)
  intro i h1 h2
  simp [slice, write_of_mem m bs h2]

/-- `slice_write`, with the length of the region given separately. -/
theorem slice_write_eq (m : Mem) (off : ℕ) {n : ℕ} {bs : List UInt8} (h : bs.length = n) :
    slice (write m off bs) off n = bs := by
  subst h; exact slice_write m off bs

/-- **A write elsewhere leaves a region as it was.** -/
theorem slice_write_disj (m : Mem) {off o len : ℕ} (bs : List UInt8)
    (h : off + len ≤ o ∨ o + bs.length ≤ off) : slice (write m o bs) off len = slice m off len := by
  apply slice_congr
  intro i h1 h2
  rcases h with h | h
  · exact write_of_lt m bs (by omega)
  · exact write_of_ge m bs (by omega)

/-- Writing back what a region holds changes nothing. -/
theorem write_slice_self (m : Mem) (off len : ℕ) : write m off (slice m off len) = m := by
  funext i
  by_cases h1 : off ≤ i
  · by_cases h2 : i < off + len
    · obtain ⟨j, rfl⟩ := Nat.exists_eq_add_of_le h1
      rw [write_of_mem m _ (by simpa using h2)]
      simp [slice]
    · exact write_of_ge m _ (by simp; omega)
  · exact write_of_lt m _ (by omega)

/-- The last of two writes to one region wins. -/
theorem write_write (m : Mem) (off : ℕ) {a b : List UInt8} (h : a.length = b.length) :
    write (write m off a) off b = write m off b := by
  funext i
  by_cases h1 : off ≤ i
  · by_cases h2 : i < off + b.length
    · obtain ⟨j, rfl⟩ := Nat.exists_eq_add_of_le h1
      rw [write_of_mem _ b (by omega), write_of_mem _ b (by omega)]
    · rw [write_of_ge _ b (by omega), write_of_ge _ b (by omega), write_of_ge _ a (by omega)]
  · rw [write_of_lt _ b (by omega), write_of_lt _ b (by omega), write_of_lt _ a (by omega)]

/-- Two blocks, one after the other. -/
theorem write_append (m : Mem) (off : ℕ) (a b : List UInt8) :
    write (write m off a) (off + a.length) b = write m off (a ++ b) := by
  funext i
  rcases Nat.lt_or_ge i off with h | h
  · rw [write_of_lt _ _ (by omega), write_of_lt _ _ h, write_of_lt _ _ h]
  · obtain ⟨j, rfl⟩ := Nat.exists_eq_add_of_le h
    rcases Nat.lt_or_ge j a.length with ha | ha
    · rw [write_of_lt _ _ (by omega), write_of_mem _ _ ha, write_of_mem _ _ (by simp; omega),
        List.getElem_append_left ha]
    · obtain ⟨k, rfl⟩ := Nat.exists_eq_add_of_le ha
      rcases Nat.lt_or_ge k b.length with hb | hb
      · rw [← Nat.add_assoc, write_of_mem _ _ hb, Nat.add_assoc, write_of_mem _ _ (by simp; omega),
          List.getElem_append_right (by omega)]
        simp
      · rw [write_of_ge _ _ (by omega), write_of_ge _ _ (by omega), write_of_ge _ _ (by simp; omega)]

theorem put_self (m : Mem) (n : ℕ) (b : UInt8) : put m n b n = b := Function.update_self _ _ _

theorem put_of_ne (m : Mem) {n i : ℕ} (b : UInt8) (h : i ≠ n) : put m n b i = m i :=
  Function.update_of_ne h _ _

theorem slice_put_disj (m : Mem) {off len n : ℕ} (b : UInt8) (h : off + len ≤ n ∨ n < off) :
    slice (put m n b) off len = slice m off len :=
  slice_congr fun _ _ _ => put_of_ne m b (by omega)

theorem slice_put (m : Mem) (n : ℕ) (b : UInt8) : slice (put m n b) 0 (n + 1) = slice m 0 n ++ [b] := by
  rw [slice_succ]
  congr 1
  · exact slice_put_disj m b (by omega)
  · simp [put_self]

/-! ## Little-endian words -/

/-- The number that bytes spell, least significant byte first. -/
def ofLE : List UInt8 → ℕ
  | [] => 0
  | b :: bs => b.toNat + 256 * ofLE bs

/-- The `n` low bytes of a number, least significant first. -/
def toLE : ℕ → ℕ → List UInt8
  | 0, _ => []
  | n + 1, w => UInt8.ofNat (w % 256) :: toLE n (w / 256)

@[simp] theorem toLE_length : ∀ n w, (toLE n w).length = n := by
  intro n
  induction n with
  | zero => intro w; rfl
  | succ n ih => intro w; simp [toLE, ih]

theorem ofLE_lt (bs : List UInt8) : ofLE bs < 256 ^ bs.length := by
  induction bs with
  | nil => simp [ofLE]
  | cons b bs ih =>
    have hb := b.toNat_lt
    simp only [ofLE, List.length_cons, Nat.pow_succ]
    omega

theorem toLE_ofLE (bs : List UInt8) : toLE bs.length (ofLE bs) = bs := by
  induction bs with
  | nil => rfl
  | cons b bs ih =>
    have hb := b.toNat_lt
    have h1 : (b.toNat + 256 * ofLE bs) % 256 = b.toNat := by omega
    have h2 : (b.toNat + 256 * ofLE bs) / 256 = ofLE bs := by omega
    simp only [ofLE, List.length_cons, toLE, h1, h2, ih, UInt8.ofNat_toNat]

theorem ofLE_toLE : ∀ n w, ofLE (toLE n w) = w % 256 ^ n := by
  intro n
  induction n with
  | zero => intro w; simp [toLE, ofLE, Nat.mod_one]
  | succ n ih =>
    intro w
    have hm : (UInt8.ofNat (w % 256)).toNat = w % 256 := by simp
    simp only [toLE, ofLE, ih, hm]
    rw [Nat.pow_succ', Nat.mod_mul]

/-- The four bytes of a 32-bit word on a little-endian host. -/
def bytes32 (w : UInt32) : List UInt8 := toLE 4 w.toNat

/-- The 32-bit word with the given bytes. -/
def word32 (bs : List UInt8) : UInt32 := UInt32.ofNat (ofLE bs)

/-- The word with its bytes in the reverse order. -/
def swap32 (w : UInt32) : UInt32 := word32 (bytes32 w).reverse

/-- The 32-bit word at an address. -/
def load32 (m : Mem) (off : ℕ) : UInt32 := word32 (slice m off 4)

/-- The memory with a 32-bit word stored at an address. -/
def store32 (m : Mem) (off : ℕ) (w : UInt32) : Mem := write m off (bytes32 w)

/-- The 64-bit word at an address. -/
def load64 (m : Mem) (off : ℕ) : UInt64 := UInt64.ofNat (ofLE (slice m off 8))

/-- The memory with a 64-bit word stored at an address. -/
def store64 (m : Mem) (off : ℕ) (w : UInt64) : Mem := write m off (toLE 8 w.toNat)

@[simp] theorem bytes32_length (w : UInt32) : (bytes32 w).length = 4 := toLE_length 4 _

theorem bytes32_word32 {bs : List UInt8} (h : bs.length = 4) : bytes32 (word32 bs) = bs := by
  have hlt := ofLE_lt bs
  rw [h] at hlt
  have hn : (word32 bs).toNat = ofLE bs := by
    unfold word32; rw [UInt32.toNat_ofNat']; exact Nat.mod_eq_of_lt (by omega)
  unfold bytes32
  rw [hn, ← h, toLE_ofLE]

theorem word32_bytes32 (w : UInt32) : word32 (bytes32 w) = w := by
  have hw := w.toNat_lt
  unfold word32 bytes32
  rw [ofLE_toLE, Nat.mod_eq_of_lt (by omega), UInt32.ofNat_toNat]

theorem bytes32_inj {v w : UInt32} (h : bytes32 v = bytes32 w) : v = w := by
  rw [← word32_bytes32 v, h, word32_bytes32]

@[simp] theorem bytes32_swap32 (w : UInt32) : bytes32 (swap32 w) = (bytes32 w).reverse :=
  bytes32_word32 (by simp)

@[simp] theorem swap32_swap32 (w : UInt32) : swap32 (swap32 w) = w :=
  bytes32_inj (by simp)

theorem swap32_zero : swap32 0 = 0 := by decide

theorem bytes32_load32 (m : Mem) (off : ℕ) : bytes32 (load32 m off) = slice m off 4 :=
  bytes32_word32 (by simp)

/-- A word read back is the word stored. -/
theorem load32_store32 (m : Mem) (off : ℕ) (w : UInt32) : load32 (store32 m off w) off = w := by
  unfold load32 store32
  rw [slice_write_eq _ _ (bytes32_length w), word32_bytes32]

/-- A word in memory is `w` when its bytes are those of `w`. -/
theorem load32_eq_iff {m : Mem} {off : ℕ} {w : UInt32} : load32 m off = w ↔ slice m off 4 = bytes32 w := by
  rw [← bytes32_load32]
  exact ⟨fun h => by rw [h], bytes32_inj⟩

theorem load64_eq_iff {m : Mem} {off : ℕ} {w : UInt64} :
    load64 m off = w ↔ slice m off 8 = toLE 8 w.toNat := by
  have hl : (slice m off 8).length = 8 := slice_length m off 8
  have hlt := ofLE_lt (slice m off 8)
  rw [hl] at hlt
  have hw := w.toNat_lt
  have hn : (load64 m off).toNat = ofLE (slice m off 8) := by
    unfold load64; rw [UInt64.toNat_ofNat']; exact Nat.mod_eq_of_lt (by omega)
  constructor
  · intro h
    have hb := toLE_ofLE (slice m off 8)
    rw [hl] at hb
    rw [← h, hn, hb]
  · intro h
    apply UInt64.toNat_inj.1
    rw [hn, h, ofLE_toLE, Nat.mod_eq_of_lt (by omega)]

theorem slice_store32 (m : Mem) (off : ℕ) (w : UInt32) : slice (store32 m off w) off 4 = bytes32 w :=
  slice_write_eq m off (bytes32_length w)

theorem slice_store32_disj (m : Mem) {off o len : ℕ} (w : UInt32) (h : off + len ≤ o ∨ o + 4 ≤ off) :
    slice (store32 m o w) off len = slice m off len :=
  slice_write_disj m _ (by simpa using h)

theorem slice_store64_disj (m : Mem) {off o len : ℕ} (w : UInt64) (h : off + len ≤ o ∨ o + 8 ≤ off) :
    slice (store64 m o w) off len = slice m off len :=
  slice_write_disj m _ (by simpa using h)

theorem store32_of_disj (m : Mem) {o i : ℕ} (w : UInt32) (h : i < o ∨ o + 4 ≤ i) :
    store32 m o w i = m i :=
  write_of_disj m _ (by simpa using h)

theorem store64_of_disj (m : Mem) {o i : ℕ} (w : UInt64) (h : i < o ∨ o + 8 ≤ i) :
    store64 m o w i = m i :=
  write_of_disj m _ (by simpa using h)

theorem load32_congr {m m' : Mem} {off : ℕ} (h : slice m off 4 = slice m' off 4) :
    load32 m off = load32 m' off := by
  unfold load32; rw [h]

/-- A word elsewhere is not changed by a store. -/
theorem load32_store32_disj (m : Mem) {off o : ℕ} (w : UInt32) (h : off + 4 ≤ o ∨ o + 4 ≤ off) :
    load32 (store32 m o w) off = load32 m off :=
  load32_congr (slice_store32_disj m w h)

/-- Stores to disjoint places commute. -/
theorem store32_comm (m : Mem) {o p : ℕ} (v w : UInt32) (h : o + 4 ≤ p ∨ p + 4 ≤ o) :
    store32 (store32 m o v) p w = store32 (store32 m p w) o v := by
  have hout : ∀ (m m' : Mem) (o i : ℕ) (w : UInt32), (¬ (o ≤ i ∧ i < o + 4) → m i = m' i) →
      store32 m o w i = store32 m' o w i := by
    intro m m' o i w hi
    unfold store32 write
    split
    · by_cases h4 : i < o + 4
      · have hl : i - o < (bytes32 w).length := by rw [bytes32_length]; omega
        rw [List.getD_eq_getElem _ _ hl, List.getD_eq_getElem _ _ hl]
      · rw [hi (by omega)]
    · exact hi (by omega)
  funext i
  by_cases hp : p ≤ i ∧ i < p + 4
  · rw [store32_of_disj (store32 m p w) v (by omega)]
    exact hout _ _ p i w (fun h => absurd hp h)
  · rw [store32_of_disj (store32 m o v) w (by omega)]
    exact hout _ _ o i v (fun _ => (store32_of_disj m w (by omega)).symm)

/-- **Storing the byte-swapped word reverses the four bytes in place.** -/
theorem store32_swap32 (m : Mem) (off : ℕ) :
    store32 m off (swap32 (load32 m off)) = write m off (slice m off 4).reverse := by
  unfold store32; rw [bytes32_swap32, bytes32_load32]

/-- Swapping a word in place twice restores the memory. -/
theorem store32_swap32_twice (m : Mem) (off : ℕ) :
    store32 (store32 m off (swap32 (load32 m off))) off
      (swap32 (load32 (store32 m off (swap32 (load32 m off))) off)) = m := by
  rw [load32_store32, swap32_swap32]
  unfold store32
  rw [write_write _ _ (by simp), bytes32_load32, write_slice_self]

end ByteMem
