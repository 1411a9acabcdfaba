import Bitcoin.Text.Numeral

/-!
# Key paths

A key of the tree is found by the steps that lead to it from the master key.  A step is an index
below `2 ^ 31` and says whether the child is hardened, that is, derived from the private half of its
parent; both are kept in one number of 32 bits, the top bit for hardened.

* `ChildNumber.index`, `ChildNumber.isHardened` and `ChildNumber.ofParts` take the number apart and
  put it together (`ofParts_parts`).
* `KeyPath.toString` writes a path the way `Bitcoin.KeyPath.Parse` reads it.
* Paths are ordered like words, by the numbers of their steps (`KeyPath.compare`).
-/

set_option autoImplicit false

namespace Bitcoin

/-! ## Steps -/

/-- A step of a path, as the number that is written into serialized keys. -/
structure ChildNumber where
  raw : UInt32
deriving DecidableEq, Hashable, Inhabited

namespace ChildNumber

/-- The number of indices, and the bit that marks hardened children. -/
def hardenedBit : Nat := 0x80000000

/-- The index without the mark. -/
def index (child : ChildNumber) : Nat := child.raw.toNat % hardenedBit

/-- Whether the child is hardened. -/
def isHardened (child : ChildNumber) : Bool := decide (hardenedBit ≤ child.raw.toNat)

/-- The first child. -/
def first : ChildNumber := ⟨0⟩

/-- The step with an index below `2 ^ 31`. -/
def ofParts (index : Nat) (hardened : Bool) : ChildNumber :=
  ⟨UInt32.ofNat (if hardened then index + hardenedBit else index)⟩

theorem index_lt (child : ChildNumber) : child.index < hardenedBit := Nat.mod_lt _ (by decide)

theorem ofParts_parts (child : ChildNumber) : ofParts child.index child.isHardened = child := by
  have hlt : child.raw.toNat < 4294967296 := child.raw.toNat_lt
  have hnumber :
      (if child.isHardened then child.index + hardenedBit else child.index) = child.raw.toNat := by
    by_cases h : hardenedBit ≤ child.raw.toNat <;>
      simp only [isHardened, index, h, decide_true, decide_false, if_true, if_false,
        Bool.false_eq_true] <;>
      simp only [hardenedBit] at h ⊢ <;> omega
  rw [ofParts, hnumber, UInt32.ofNat_toNat]

theorem raw_ofParts {index : Nat} (h : index < hardenedBit) (hardened : Bool) :
    (ofParts index hardened).raw.toNat = if hardened then index + hardenedBit else index := by
  simp only [hardenedBit] at h ⊢
  rw [ofParts, UInt32.toNat_ofNat', Nat.mod_eq_of_lt]
  · rfl
  · cases hardened <;> simp only [hardenedBit, if_true, if_false, Bool.false_eq_true] <;> omega

theorem index_ofParts {index : Nat} (h : index < hardenedBit) (hardened : Bool) :
    (ofParts index hardened).index = index := by
  rw [ChildNumber.index, raw_ofParts h]
  simp only [hardenedBit] at h ⊢
  split <;> omega

theorem isHardened_ofParts {index : Nat} (h : index < hardenedBit) (hardened : Bool) :
    (ofParts index hardened).isHardened = hardened := by
  rw [isHardened, raw_ofParts h]
  simp only [hardenedBit] at h ⊢
  cases hardened
  · simpa using h
  · simp

/-- The index, with an `H` behind it if the child is hardened. -/
def toChars (child : ChildNumber) : List Char :=
  Text.digits child.index ++ if child.isHardened then ['H'] else []

/-- The step as a text. -/
def toString (child : ChildNumber) : String := String.ofList child.toChars

end ChildNumber

/-! ## Paths -/

/-- The steps from the master key to a key; the master key has none. -/
structure KeyPath where
  steps : List ChildNumber
deriving DecidableEq, Hashable, Inhabited

namespace KeyPath

/-- The path of the master key. -/
def master : KeyPath := ⟨[]⟩

/-- The number of steps. -/
def depth (path : KeyPath) : Nat := path.steps.length

/-- Whether this is the path of the master key. -/
def isMaster (path : KeyPath) : Bool := path.steps.isEmpty

/-- The path of a child. -/
def child (path : KeyPath) (step : ChildNumber) : KeyPath := ⟨path.steps ++ [step]⟩

/-- The path, followed by the steps of another. -/
def extend (path other : KeyPath) : KeyPath := ⟨path.steps ++ other.steps⟩

/-- The last step. -/
def last? (path : KeyPath) : Option ChildNumber := path.steps.getLast?

/-- The path without its last step. -/
def parent? (path : KeyPath) : Option KeyPath :=
  if path.isMaster then none else some ⟨path.steps.dropLast⟩

/-- The path as it is read: `M`, and a slash in front of every step. -/
def toChars (path : KeyPath) : List Char :=
  'M' :: path.steps.flatMap fun step => '/' :: step.toChars

/-- The path as a text. -/
def toString (path : KeyPath) : String := String.ofList path.toChars

/-- The order of words, where a step is as large as its number. -/
def compare (a b : KeyPath) : Ordering :=
  List.compareLex (fun x y => Ord.compare x.raw.toNat y.raw.toNat) a.steps b.steps

end KeyPath

end Bitcoin
