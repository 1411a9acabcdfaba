/-!
# Bytes

Everything that travels or is hashed is a list of bytes: a list is what a proof can take apart, and
the formats below only ever consume it from the front.

* `littleEndian` and `toNatLE` turn numbers into bytes and back, least significant byte first;
  `bigEndian` and `toNatBE` are the same maps on the reversed list.  `toNatLE_littleEndian` and
  `littleEndian_toNatLE` say that on the numbers below the `capacity` of the width they are inverse.
* `FixedBytes n` is a run of exactly `n` bytes: a hash, an address, the command field of a frame.
* `FixedBytes.take?` cuts such a run off the front, if there are enough bytes.

A field of four bytes is a list together with the statement that its length is four (`FixedBytes
4`), and a number fits it if it is below `Bytes.capacity 4`.  That is why the maps between numbers
and bytes are told for every width at once, and why `Bytes.capacity` is a recursion like theirs and
not a power: the lemmas about it go through by the same induction.
-/

set_option autoImplicit false

namespace Bitcoin

/-- A run of bytes. -/
abbrev Bytes := List UInt8

namespace Bytes

/-! ## Numbers as bytes -/

/-- The `width` bytes of `n`, least significant first.  Bits beyond the width are dropped. -/
def littleEndian : Nat → Nat → Bytes
  | 0, _ => []
  | width + 1, n => UInt8.ofNat n :: littleEndian width (n / 256)

/-- The number with these bytes, least significant first. -/
def toNatLE : Bytes → Nat
  | [] => 0
  | b :: bs => b.toNat + 256 * toNatLE bs

/-- How many numbers fit into `width` bytes. -/
def capacity : Nat → Nat
  | 0 => 1
  | width + 1 => 256 * capacity width

/-- The `width` bytes of `n`, most significant first. -/
def bigEndian (width n : Nat) : Bytes := (littleEndian width n).reverse

/-- The number with these bytes, most significant first. -/
def toNatBE (bs : Bytes) : Nat := toNatLE bs.reverse

/-- A run of `n` zero bytes. -/
def zeros (n : Nat) : Bytes := List.replicate n 0

@[simp] theorem length_littleEndian (width n : Nat) : (littleEndian width n).length = width := by
  induction width generalizing n with
  | zero => rfl
  | succ width ih => simp [littleEndian, ih]

@[simp] theorem length_bigEndian (width n : Nat) : (bigEndian width n).length = width := by
  simp [bigEndian]

@[simp] theorem length_zeros (n : Nat) : (zeros n).length = n := by simp [zeros]

theorem toNatLE_littleEndian (width n : Nat) :
    toNatLE (littleEndian width n) = n % capacity width := by
  induction width generalizing n with
  | zero => simp [littleEndian, toNatLE, capacity, Nat.mod_one]
  | succ width ih =>
    have hb : (UInt8.ofNat n).toNat = n % 256 := UInt8.toNat_ofNat'
    rw [littleEndian, toNatLE, ih, hb, capacity, Nat.mod_mul]

theorem toNatLE_lt (bs : Bytes) : toNatLE bs < capacity bs.length := by
  induction bs with
  | nil => simp [toNatLE, capacity]
  | cons b bs ih =>
    have hb : b.toNat < 256 := b.toNat_lt
    rw [toNatLE, List.length_cons, capacity]
    omega

theorem littleEndian_toNatLE (bs : Bytes) : littleEndian bs.length (toNatLE bs) = bs := by
  induction bs with
  | nil => rfl
  | cons b bs ih =>
    have hb : b.toNat < 256 := b.toNat_lt
    have hdiv : (b.toNat + 256 * toNatLE bs) / 256 = toNatLE bs := by omega
    have hmod : (b.toNat + 256 * toNatLE bs) % 256 = b.toNat := by omega
    have hhead : UInt8.ofNat (b.toNat + 256 * toNatLE bs) = b := by
      rw [← UInt8.toNat_inj, UInt8.toNat_ofNat']
      exact hmod
    rw [List.length_cons, toNatLE, littleEndian, hdiv, hhead, ih]

theorem toNatBE_bigEndian (width n : Nat) : toNatBE (bigEndian width n) = n % capacity width := by
  simp [toNatBE, bigEndian, toNatLE_littleEndian]

theorem bigEndian_toNatBE (bs : Bytes) : bigEndian bs.length (toNatBE bs) = bs := by
  have h := littleEndian_toNatLE bs.reverse
  rw [List.length_reverse] at h
  rw [bigEndian, toNatBE, h, List.reverse_reverse]

theorem toNatBE_lt (bs : Bytes) : toNatBE bs < capacity bs.length := by
  simpa [toNatBE] using toNatLE_lt bs.reverse

theorem length_lt_of_prefix {short front : Bytes} (h : short <+: front) (hne : short ≠ front) :
    short.length < front.length :=
  Nat.lt_of_not_le fun hle => hne (h.eq_of_length_le hle)

/-- What breaks off within two runs of bytes breaks off within the first or within the second. -/
theorem prefix_append_cases {short front tail : Bytes} (h : short <+: front ++ tail) :
    short <+: front ∧ short ≠ front ∨ ∃ left, short = front ++ left ∧ left <+: tail := by
  rcases Nat.lt_or_ge short.length front.length with hlt | hle
  · refine .inl ⟨List.prefix_of_prefix_length_le h (List.prefix_append _ _)
      (Nat.le_of_lt hlt), ?_⟩
    rintro rfl
    exact absurd hlt (Nat.lt_irrefl _)
  · obtain ⟨left, rfl⟩ := List.prefix_of_prefix_length_le (List.prefix_append _ _) h hle
    exact .inr ⟨left, rfl, (List.prefix_append_right_inj front).1 h⟩

end Bytes

/-! ## Runs of a fixed length -/

/-- Exactly `n` bytes. -/
structure FixedBytes (n : Nat) where
  toBytes : Bytes
  length_eq : toBytes.length = n
deriving DecidableEq

namespace FixedBytes

attribute [simp] FixedBytes.length_eq

@[ext] theorem ext {n : Nat} {a b : FixedBytes n} (h : a.toBytes = b.toBytes) : a = b := by
  cases a; cases b; simpa using h

/-- The run of zero bytes: the hash that stands for "none". -/
def zero (n : Nat) : FixedBytes n := ⟨Bytes.zeros n, Bytes.length_zeros n⟩

instance (n : Nat) : Inhabited (FixedBytes n) := ⟨zero n⟩

/-- The bytes as a fixed run, if there are exactly `n` of them. -/
def ofBytes? (n : Nat) (bs : Bytes) : Option (FixedBytes n) :=
  if h : bs.length = n then some ⟨bs, h⟩ else none

/-- Cuts `n` bytes off the front.  Only the bytes cut off are counted, so the cost does not depend
on how many follow. -/
def take? (n : Nat) (bs : Bytes) : Option (FixedBytes n × Bytes) :=
  let front := bs.take n
  if h : front.length = n then some (⟨front, h⟩, bs.drop n) else none

/-- The `width` bytes from place `start` on. -/
def slice {n : Nat} (a : FixedBytes n) (start width : Nat) (h : start + width ≤ n) :
    FixedBytes width :=
  ⟨(a.toBytes.drop start).take width, by
    rw [List.length_take, List.length_drop, a.length_eq]; omega⟩

/-- Two runs, one behind the other. -/
def append {m n : Nat} (a : FixedBytes m) (b : FixedBytes n) : FixedBytes (m + n) :=
  ⟨a.toBytes ++ b.toBytes, by rw [List.length_append, a.length_eq, b.length_eq]⟩

@[simp] theorem ofBytes?_toBytes {n : Nat} (a : FixedBytes n) : ofBytes? n a.toBytes = some a := by
  simp [ofBytes?]

theorem ofBytes?_eq_some_iff {n : Nat} {bs : Bytes} {a : FixedBytes n} :
    ofBytes? n bs = some a ↔ bs = a.toBytes := by
  rw [ofBytes?, Option.dite_none_right_eq_some]
  constructor
  · rintro ⟨_, h⟩
    cases h
    rfl
  · rintro rfl
    exact ⟨a.length_eq, rfl⟩

theorem take?_append {n : Nat} (a : FixedBytes n) (rest : Bytes) :
    take? n (a.toBytes ++ rest) = some (a, rest) := by
  have ht : (a.toBytes ++ rest).take n = a.toBytes := List.take_left' a.length_eq
  have hd : (a.toBytes ++ rest).drop n = rest := List.drop_left' a.length_eq
  simp only [take?, ht, hd, a.length_eq, dite_true]

theorem take?_eq_some_iff {n : Nat} {bs rest : Bytes} {a : FixedBytes n} :
    take? n bs = some (a, rest) ↔ bs = a.toBytes ++ rest := by
  constructor
  · intro h
    simp only [take?, Option.dite_none_right_eq_some, Option.some.injEq, Prod.mk.injEq] at h
    obtain ⟨_, rfl, rfl⟩ := h
    exact (List.take_append_drop n bs).symm
  · rintro rfl
    exact take?_append a rest

theorem take?_eq_none_iff {n : Nat} {bs : Bytes} : take? n bs = none ↔ bs.length < n := by
  simp only [take?, dite_eq_right_iff, reduceCtorEq, imp_false, List.length_take]
  omega

/-- A field is cut out from behind what stands in front of it. -/
theorem slice_eq_of_append {n start width : Nat} {whole : FixedBytes n} {field : FixedBytes width}
    (h : start + width ≤ n) (front back : Bytes)
    (hwhole : whole.toBytes = front ++ (field.toBytes ++ back)) (hstart : front.length = start) :
    whole.slice start width h = field := by
  ext1
  show (whole.toBytes.drop start).take width = field.toBytes
  rw [hwhole, List.drop_left' hstart, List.take_left' field.length_eq]

end FixedBytes

end Bitcoin
