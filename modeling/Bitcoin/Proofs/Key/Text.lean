import Bitcoin.Key.Serialized
import Bitcoin.Proofs.Base58
import Bitcoin.Proofs.Curve.Encoding
import Bitcoin.Proofs.Key.Derive

/-!
# Keys as text: one spelling for each

A text is taken apart into 78 bytes, these into six fields, and the fields into what a key knows.
Each of the three steps has its own equivalence, which says both that nothing is lost and that
nothing else is accepted.

* `ExtendedKey.serialize_eq_iff`: the six fields are the bytes, all of them.
* `ExtendedKey.pathOfStep_eq_ok_iff`, `ExtendedKey.secretOfField_eq_ok_iff` and
  `Point.decompress?_eq_some_iff`: a field is read back just if it was written.
* `ExtendedKey.ofText_eq_ok_iff`: **what a text spells is a key whose text it is**.
* `ExtendedKey.toText_of_ofText`: so a key that is read is written as it was.

An equivalence for each step is more than two round trips, and less work.  Going from left to right
it says that whatever is accepted is written as it was; going from right to left, that what was
written is accepted.  As long as each step is stated like this, steps are put together by rewriting,
and no case of an error has to be looked at: a text that is refused is one that no key has.

Two of the steps are not bijections between types and have conditions.  A serialized key has a
number in front that tells one network and one half, so that the half in the last field is known
(`KeyHalf.ofVersion?_eq_some_iff`).  And the path has to fit the depth: `ExtendedKey.Short` says
which keys a text can spell, and `ExtendedKey.short_iff_pathOfStep` that the reader asks for just
this.

The public half is 33 bytes, which name a point by its first coordinate and one bit.  That this is
one spelling for each point is shown in `Bitcoin.Proofs.Curve.Encoding`.  The checksum and the
letters are the matter of `Bitcoin.Proofs.Base58`.

The 78 bytes and what they stand for:

```
 0 ..  3   number of the network and the half
 4         depth
 5 ..  8   fingerprint of the parent
 9 .. 12   number of the child
13 .. 44   chain code
45 .. 77   public half, or a zero and the private half
```

No field is checked by its own length, since each is cut out with the width that it has
(`FixedBytes.slice`); that they are all of the bytes, with none left over, is part of
`ExtendedKey.serialize_eq_iff`.
-/

set_option autoImplicit false

namespace Bitcoin

open Curve

/-! ## Fields of bytes -/

namespace FixedBytes

variable {n start width : Nat} {whole : FixedBytes n} {field : FixedBytes width} {rest : Bytes}

/-- A field stands in front of the rest just if it is cut out and the rest is left. -/
theorem drop_eq_append_iff (h : start + width ≤ n) :
    whole.toBytes.drop start = field.toBytes ++ rest ↔
      whole.slice start width h = field ∧ whole.toBytes.drop (start + width) = rest := by
  have hsplit : whole.toBytes.drop start =
      (whole.slice start width h).toBytes ++ whole.toBytes.drop (start + width) := by
    rw [← List.drop_drop]
    exact (List.take_append_drop _ _).symm
  have hlength : (whole.slice start width h).toBytes.length = field.toBytes.length := by
    rw [length_eq, length_eq]
  rw [hsplit, FixedBytes.ext_iff]
  exact ⟨fun heq => List.append_inj heq hlength, fun ⟨hfield, hrest⟩ => by rw [hfield, hrest]⟩

/-- A number as a field. -/
def bigEndian (width value : Nat) : FixedBytes width :=
  ⟨Bytes.bigEndian width value, Bytes.length_bigEndian width value⟩

/-- A number is written as some bytes just if these are read as the number. -/
theorem eq_bigEndian_iff {value : Nat} (h : value < Bytes.capacity width) :
    field = bigEndian width value ↔ Bytes.toNatBE field.toBytes = value := by
  constructor
  · rintro rfl
    rw [bigEndian, Bytes.toNatBE_bigEndian, Nat.mod_eq_of_lt h]
  · rintro rfl
    have hspelled := Bytes.bigEndian_toNatBE field.toBytes
    rw [field.length_eq] at hspelled
    exact FixedBytes.ext hspelled.symm

end FixedBytes

/-- The private half that bytes spell is written as these bytes. -/
theorem Secret.ofBytes?_eq_some_iff {bytes : FixedBytes 32} {secret : Secret} :
    ofBytes? bytes = some secret ↔ bytes = secret.toBytes := by
  constructor
  · intro h
    rw [ofBytes?, ofNat?] at h
    split at h
    · next hrange =>
      cases h
      exact (FixedBytes.eq_bigEndian_iff (hrange.2.trans (by decide))).2 rfl
    · cases h
  · rintro rfl
    exact ofBytes?_toBytes secret

/-- The number in front of a serialized key tells one network and one half. -/
theorem KeyHalf.ofVersion?_eq_some_iff {n : Nat} {network : Network} {half : KeyHalf} :
    ofVersion? n = some (network, half) ↔ network.forKeys = network ∧ half.version network = n := by
  constructor
  · intro h
    have hversion : half.version network = n := by simpa using List.find?_some h
    have hknown := List.mem_of_find?_eq_some h
    refine ⟨?_, hversion⟩
    simp only [List.mem_cons, Prod.mk.injEq, List.not_mem_nil, or_false] at hknown
    rcases hknown with ⟨rfl, -⟩ | ⟨rfl, -⟩ | ⟨rfl, -⟩ | ⟨rfl, -⟩ <;> rfl
  · rintro ⟨hnetwork, rfl⟩
    rw [ofVersion?_version, hnetwork]

theorem KeyHalf.version_lt (half : KeyHalf) (network : Network) :
    half.version network < Bytes.capacity 4 := by
  cases half <;> cases network <;> decide

/-- The depth that a byte spells. -/
theorem ofNat_toNatBE_eq_iff {field : FixedBytes 1} {depth : UInt8} :
    UInt8.ofNat (Bytes.toNatBE field.toBytes) = depth ↔
      field = FixedBytes.bigEndian 1 depth.toNat := by
  have hlt : Bytes.toNatBE field.toBytes < Bytes.capacity 1 := by
    simpa only [field.length_eq] using Bytes.toNatBE_lt field.toBytes
  rw [FixedBytes.eq_bigEndian_iff depth.toNat_lt, ← UInt8.toNat_inj, UInt8.toNat_ofNat']
  exact (Nat.mod_eq_of_lt hlt).congr_left

/-- The number of a child that four bytes spell. -/
theorem ChildNumber.mk_toNatBE_eq_iff {field : FixedBytes 4} {child : ChildNumber} :
    ⟨UInt32.ofNat (Bytes.toNatBE field.toBytes)⟩ = child ↔
      field = FixedBytes.bigEndian 4 child.raw.toNat := by
  have hlt : Bytes.toNatBE field.toBytes < Bytes.capacity 4 := by
    simpa only [field.length_eq] using Bytes.toNatBE_lt field.toBytes
  obtain ⟨raw⟩ := child
  rw [FixedBytes.eq_bigEndian_iff raw.toNat_lt, mk.injEq, ← UInt32.toNat_inj, UInt32.toNat_ofNat']
  exact (Nat.mod_eq_of_lt hlt).congr_left

namespace ExtendedKey

variable {key : ExtendedKey} {network : Network} {half : KeyHalf} {version : Nat}
  {bytes : FixedBytes serializedLength} {field : FixedBytes 33} {secret : Secret}
  {depth : UInt8} {parentFingerprint : FixedBytes 4} {child : ChildNumber} {path : KeyPath}
  {text : String}

/-! ## The fields

A field stands at its place in the 78 bytes and is what is written of one part of a key.  The
equivalences below have the first on one side and the second on the other. -/

/-- **The six fields are the bytes.** -/
theorem serialize_eq_iff (hversion : version < Bytes.capacity 4) :
    key.serialize version field = bytes.toBytes ↔
      Bytes.toNatBE (bytes.slice 0 4 (by decide)).toBytes = version ∧
      UInt8.ofNat (Bytes.toNatBE (bytes.slice 4 1 (by decide)).toBytes) = key.depth ∧
      bytes.slice 5 4 (by decide) = key.parentFingerprint ∧
      ⟨UInt32.ofNat (Bytes.toNatBE (bytes.slice 9 4 (by decide)).toBytes)⟩ = key.childNumber ∧
      bytes.slice 13 32 (by decide) = key.chainCode ∧
      bytes.slice 45 33 (by decide) = field := by
  have hfields : key.serialize version field =
      (FixedBytes.bigEndian 4 version).toBytes ++
        ((FixedBytes.bigEndian 1 key.depth.toNat).toBytes ++ (key.parentFingerprint.toBytes ++
          ((FixedBytes.bigEndian 4 key.childNumber.raw.toNat).toBytes ++
            (key.chainCode.toBytes ++ (field.toBytes ++ []))))) := by
    simp [serialize, FixedBytes.bigEndian, Bytes.bigEndian, Bytes.littleEndian]
  have hend : bytes.toBytes.drop 78 = [] := List.drop_eq_nil_of_le (Nat.le_of_eq bytes.length_eq)
  have hstart : bytes.toBytes = bytes.toBytes.drop 0 := rfl
  rw [ofNat_toNatBE_eq_iff, ChildNumber.mk_toNatBE_eq_iff, ← FixedBytes.eq_bigEndian_iff hversion,
    hfields, eq_comm, hstart]
  -- One field after the other is cut off the front.
  iterate 6 rw [FixedBytes.drop_eq_append_iff (by decide)]
  simp only [hend, and_true]

/-- The path of a key that is read is its last step, and there is none just at depth zero. -/
theorem pathOfStep_eq_ok_iff :
    pathOfStep depth parentFingerprint child = .ok path ↔
      path.last?.getD .first = child ∧ path.steps.length ≤ 1 ∧ (depth = 0 ↔ path = .master) ∧
        (depth = 0 → parentFingerprint = .zero 4) := by
  rw [pathOfStep]
  by_cases hdepth : depth = 0
  · rw [if_pos hdepth]
    constructor
    · intro h
      split at h
      · cases h
      · next hparent =>
        split at h
        · cases h
        · next hchild =>
          cases h
          exact ⟨(not_not.1 hchild).symm, Nat.zero_le _, by simp [hdepth],
            fun _ => not_not.1 hparent⟩
    · rintro ⟨rfl, -, hmaster, hparent⟩
      obtain rfl := hmaster.1 hdepth
      rw [if_neg (not_not.2 (hparent hdepth))]
      rfl
  · rw [if_neg hdepth, Except.ok.injEq]
    constructor
    · rintro rfl
      exact ⟨rfl, Nat.le_refl _, by simp [hdepth, KeyPath.master], fun h => absurd h hdepth⟩
    · rintro ⟨rfl, hlength, hmaster, -⟩
      rcases path with ⟨_ | ⟨step, _ | ⟨second, rest⟩⟩⟩
      · exact absurd (hmaster.2 rfl) hdepth
      · rfl
      · simp at hlength

/-- The zero in front of a private half and its 32 bytes are the field. -/
theorem secretOfField_eq_ok_iff :
    secretOfField field = .ok secret ↔ secretField secret = field := by
  obtain ⟨mark, rest, hfield⟩ := List.exists_cons_of_length_eq_add_one field.length_eq
  have hrest : rest.length = 32 := by
    have hlength := field.length_eq
    rwa [hfield, List.length_cons, Nat.add_right_cancel_iff] at hlength
  have hslice : field.slice 1 32 (by decide) = ⟨rest, hrest⟩ := by
    apply FixedBytes.ext
    show (field.toBytes.drop 1).take 32 = rest
    rw [hfield, List.drop_one, List.tail_cons, List.take_of_length_le (Nat.le_of_eq hrest)]
  have hspelled : secretField secret = field ↔ 0 = mark ∧ ⟨rest, hrest⟩ = secret.toBytes := by
    rw [FixedBytes.ext_iff, FixedBytes.ext_iff, hfield, secretField, List.cons.injEq]
    exact and_congr_right' eq_comm
  rw [secretOfField, hspelled, hslice, hfield, List.head?_cons, ← Secret.ofBytes?_eq_some_iff]
  by_cases hmark : mark = 0
  · rw [hmark, if_neg (not_not.2 rfl)]
    cases Secret.ofBytes? ⟨rest, hrest⟩ <;> simp
  · rw [if_pos (by simpa using hmark)]
    simp [Ne.symm hmark]

/-! ## The key -/

/-- Whether a key can be read from a text with one of its halves in this field. -/
def Spells (key : ExtendedKey) (field : FixedBytes 33) : KeyHalf → Prop
  | .publicHalf => key.secret = none ∧ key.point.Proper ∧ key.point.compress = field
  | .privateHalf => ∃ secret, key.secret = some secret ∧ key.point = secret.toPoint ∧
      secretField secret = field

/-- There is no path just at depth zero, and no parent there. -/
structure Rooted (key : ExtendedKey) : Prop where
  depth_eq_zero_iff : key.depth = 0 ↔ key.path = .master
  parentFingerprint_eq_zero : key.depth = 0 → key.parentFingerprint = .zero 4

/-- Of its path, a key that is read knows the last step at most. -/
structure Short (key : ExtendedKey) : Prop extends Rooted key where
  length_le_one : key.path.steps.length ≤ 1

theorem short_iff_pathOfStep :
    key.Short ↔ pathOfStep key.depth key.parentFingerprint key.childNumber = .ok key.path := by
  rw [pathOfStep_eq_ok_iff]
  exact ⟨fun ⟨⟨hdepth, hparent⟩, hlength⟩ => ⟨rfl, hlength, hdepth, hparent⟩,
    fun ⟨_, hlength, hdepth, hparent⟩ => ⟨⟨hdepth, hparent⟩, hlength⟩⟩

theorem ofPoint_eq_self (h : key.secret = none) :
    ofPoint key.path key.depth key.chainCode key.point key.parentFingerprint = key := by
  rw [ofPoint, ← h]

theorem ofSecret_eq_self (h : key.secret = some secret) (hpoint : key.point = secret.toPoint) :
    ofSecret key.path key.depth key.chainCode secret key.parentFingerprint = key := by
  rw [ofSecret, ← h, ← hpoint]

/-- What 78 bytes spell is a key with these fields. -/
theorem spells_of_deserialize (h : deserialize bytes = .ok (key, network)) :
    network.forKeys = network ∧ key.Short ∧ ∃ half field, key.Spells field half ∧
      key.serialize (half.version network) field = bytes.toBytes := by
  rw [deserialize] at h
  split at h
  · cases h
  · next found half hfound =>
    obtain ⟨hnetwork, hnumber⟩ := KeyHalf.ofVersion?_eq_some_iff.1 hfound
    obtain ⟨path, hpath, h⟩ := Fallible.bind_eq_ok_iff.1 h
    obtain ⟨hchild, hlength, hmaster, hparent⟩ := pathOfStep_eq_ok_iff.1 hpath
    cases half with
    | publicHalf =>
      dsimp only at h
      split at h
      · next point hpoint =>
        cases h
        obtain ⟨hproper, hfield⟩ := Point.decompress?_eq_some_iff.1 hpoint
        refine ⟨hnetwork, ⟨⟨hmaster, hparent⟩, hlength⟩, .publicHalf, _,
          ⟨rfl, hproper, hfield⟩, ?_⟩
        rw [serialize_eq_iff (KeyHalf.version_lt _ _)]
        exact ⟨hnumber.symm, rfl, rfl, hchild.symm, rfl, rfl⟩
      · cases h
    | privateHalf =>
      obtain ⟨secret, hsecret, h⟩ := Fallible.bind_eq_ok_iff.1 h
      cases h
      refine ⟨hnetwork, ⟨⟨hmaster, hparent⟩, hlength⟩, .privateHalf, _,
        ⟨secret, rfl, paired_ofSecret secret rfl, secretOfField_eq_ok_iff.1 hsecret⟩, ?_⟩
      rw [serialize_eq_iff (KeyHalf.version_lt _ _)]
      exact ⟨hnumber.symm, rfl, rfl, hchild.symm, rfl, rfl⟩

/-- The fields of a key spell the key. -/
theorem deserialize_of_spells (hnetwork : network.forKeys = network) (hshort : key.Short)
    (hspells : key.Spells field half)
    (hbytes : key.serialize (half.version network) field = bytes.toBytes) :
    deserialize bytes = .ok (key, network) := by
  obtain ⟨hnumber, hdepth, hparent, hchild, hchain, hfield⟩ :=
    (serialize_eq_iff (KeyHalf.version_lt half network)).1 hbytes
  have hfound := KeyHalf.ofVersion?_eq_some_iff.2 ⟨hnetwork, hnumber.symm⟩
  rw [deserialize, hfound]
  dsimp only
  rw [hdepth, hparent, hchild, hchain, hfield, short_iff_pathOfStep.1 hshort]
  refine Fallible.bind_eq_ok_iff.2 ⟨key.path, rfl, ?_⟩
  cases half with
  | publicHalf =>
    obtain ⟨hsecret, hproper, hcompress⟩ := hspells
    dsimp only
    rw [Point.decompress?_eq_some_iff.2 ⟨hproper, hcompress⟩]
    dsimp only
    rw [ofPoint_eq_self hsecret]
  | privateHalf =>
    obtain ⟨secret, hsecret, hpoint, hspelled⟩ := hspells
    refine Fallible.bind_eq_ok_iff.2 ⟨secret, secretOfField_eq_ok_iff.2 hspelled, ?_⟩
    rw [ofSecret_eq_self hsecret hpoint]
    rfl

/-- **What a text spells is a key whose text it is.** -/
theorem ofText_eq_ok_iff :
    ofText text = .ok (key, network) ↔
      network.forKeys = network ∧ key.Short ∧ ∃ half field, key.Spells field half ∧
        Base58.encodeChecked (key.serialize (half.version network) field) = text := by
  rw [ofText]
  constructor
  · intro h
    split at h
    · cases h
    · next data hdata =>
      split at h
      · cases h
      · next bytes hbytes =>
        cases hread : deserialize bytes with
        | error fault =>
          rw [hread] at h
          cases h
        | ok found =>
          rw [hread] at h
          cases h
          obtain ⟨hnetwork, hshort, half, field, hspells, hserialize⟩ :=
            spells_of_deserialize hread
          refine ⟨hnetwork, hshort, half, field, hspells, ?_⟩
          rw [hserialize, ← FixedBytes.ofBytes?_eq_some_iff.1 hbytes]
          exact Base58.encodeChecked_of_decodeChecked hdata
  · rintro ⟨hnetwork, hshort, half, field, hspells, rfl⟩
    have hread : deserialize ⟨_, key.length_serialize (half.version network) field⟩ =
        .ok (key, network) := deserialize_of_spells hnetwork hshort hspells rfl
    rw [Base58.decodeChecked_encodeChecked]
    dsimp only
    rw [FixedBytes.ofBytes?, dif_pos (key.length_serialize (half.version network) field)]
    dsimp only
    rw [hread]
    rfl

/-- **A key that is read is written as it was.** -/
theorem toText_of_ofText (h : ofText text = .ok (key, network)) :
    (key.isWatching = false → key.toPrivateText network = .ok text) ∧
      (key.isWatching = true → key.toPublicText network = text) := by
  obtain ⟨-, -, half, field, hspells, htext⟩ := ofText_eq_ok_iff.1 h
  cases half with
  | publicHalf =>
    obtain ⟨hsecret, -, rfl⟩ := hspells
    refine ⟨fun hprivate => ?_, fun _ => htext⟩
    rw [isWatching, hsecret] at hprivate
    cases hprivate
  | privateHalf =>
    obtain ⟨secret, hsecret, -, rfl⟩ := hspells
    refine ⟨fun _ => ?_, fun hwatching => ?_⟩
    · rw [toPrivateText, hsecret, ← htext]
    · rw [isWatching, hsecret] at hwatching
      cases hwatching

theorem exists_of_toOption_ofText {watching : Bool}
    (h : ((ofText text).toOption.map fun found => (found.1.isWatching, found.2)) =
      some (watching, network)) :
    ∃ key, ofText text = .ok (key, network) ∧ key.isWatching = watching := by
  cases hread : ofText text with
  | error e =>
    rw [hread] at h
    cases h
  | ok found =>
    rw [hread] at h
    cases h
    exact ⟨found.1, rfl, rfl⟩

/-- Both halves of a hardened child of a published master key. -/
theorem toText_of_ofText_published :
    let privateText := "xprv9uHRZZhk6KAJC1avXpDAp4MDc3sQKNxDiPvvkX8Br5ngLNv1TxvUxt4cV1r" ++
      "GL5hj6KCesnDYUhd7oWgT11eZG7XnxHrnYeSvkzY7d2bhkJ7"
    let publicText := "xpub68Gmy5EdvgibQVfPdqkBBCHxA5htiqg55crXYuXoQRKfDBFA1WEjWgP6LHh" ++
      "wBZeNK1VTsfTFUHCdrfp1bgwQ9xv5ski8PX9rL2dZXvgGDnw"
    (∃ key, ofText privateText = .ok (key, .mainnet) ∧
      key.toPrivateText .mainnet = .ok privateText) ∧
    ∃ key, ofText publicText = .ok (key, .mainnet) ∧ key.toPublicText .mainnet = publicText := by
  intro privateText publicText
  obtain ⟨key, hkey, hprivate⟩ : ∃ key, ofText privateText = .ok (key, .mainnet) ∧
      key.isWatching = false := exists_of_toOption_ofText (by decide +kernel)
  obtain ⟨watching, hwatching, hpublic⟩ : ∃ key, ofText publicText = .ok (key, .mainnet) ∧
      key.isWatching = true := exists_of_toOption_ofText (by decide +kernel)
  exact ⟨⟨key, hkey, (toText_of_ofText hkey).1 hprivate⟩,
    ⟨watching, hwatching, (toText_of_ofText hwatching).2 hpublic⟩⟩

end ExtendedKey

end Bitcoin
