import Bitcoin.Message.Block
import Bitcoin.Message.Inventory
import Bitcoin.Message.PeerAddress
import Bitcoin.Message.Version
import Bitcoin.Proofs.Payload.Exact

/-!
# The formats of messages are exact

Each format of a payload is read field by field in the order in which it is written, so each is
exact because its fields are.  A format that has rules of its own is exact for the values that keep
them:

* `PeerEntry.exact_read`, `InventoryItem.exact_read` and `BloomFilter.exact_read` are about the
  values that pass the `check` of their type.  **What the writer checks, the reader accepts.**
* The last field of an introduction may be missing, and the last field of a rejection is all that is
  left.  Both are read right only where the payload ends, which is what `Reader.ExactAtEnd` says.

Transactions, which have two formats, are in a module of their own.

Most proofs here have the same two steps.  A reader of several fields is taken apart with
`Reader.Exact.bind_eq_ok_iff`, one field after the other, until there is an equation between the
payload and the fields one behind the other; then the fields are recognised in what is written.
Both directions are in the one equivalence, so no format is gone through twice.

Where a type has values that must not be written, the check that guards the writer is the condition
under which the reader is exact.  For `InventoryKind` this is that a number has one name: a kind
that is written as a number that stands for another kind would be read as that one.  For
`PeerAddress` it is what `PeerAddress.ofBytes_eq_ok_iff` says of the bytes of an address and the
number of its network.

A count in front of a list is compared with the limit of its format before any entry is read, so the
number of entries is part of the condition for a list and not of that for an entry.
-/

set_option autoImplicit false

namespace Bitcoin

open Reader Stateful

/-! ## Addresses -/

theorem NetAddr.exact_read : NetAddr.read.Exact NetAddr.write fun _ => True := by
  intro bytes addr rest
  simp only [NetAddr.read, (exact_u64 _).bind_eq_ok_iff, (exact_fixed _ _).bind_eq_ok_iff,
    (exact_u16BE _).bind_eq_ok_iff, pure_apply, EStateM.Result.ok.injEq, true_and]
  refine ⟨?_, ?_⟩
  · rintro ⟨services, _, rfl, ip, _, rfl, port, _, rfl, rfl, rfl⟩
    simp [NetAddr.write]
  · rintro rfl
    simp only [NetAddr.write, List.append_assoc]
    exact ⟨_, _, rfl, _, _, rfl, _, _, rfl, rfl, rfl⟩

theorem AddressEntry.exact_read : AddressEntry.read.Exact AddressEntry.write fun _ => True := by
  intro bytes entry rest
  simp only [AddressEntry.read, (exact_u32 _).bind_eq_ok_iff, NetAddr.exact_read.bind_eq_ok_iff,
    pure_apply, EStateM.Result.ok.injEq, true_and]
  refine ⟨?_, ?_⟩
  · rintro ⟨timestamp, _, rfl, addr, _, rfl, rfl, rfl⟩
    simp [AddressEntry.write]
  · rintro rfl
    simp only [AddressEntry.write, List.append_assoc]
    exact ⟨_, _, rfl, _, _, rfl, rfl, rfl⟩

theorem AddressEntry.exact_readList :
    AddressEntry.readList.Exact AddressEntry.writeList
      fun entries => entries.length ≤ AddressEntry.maxEntries :=
  (exact_list AddressEntry.exact_read _ (by decide)).congr fun _ => by simp

/-! ## Addresses on overlay networks -/

/-- Bytes make sense on a network just as the address that has them, if that may be written. -/
theorem PeerAddress.ofBytes_eq_ok_iff {networkId : UInt8} {bytes : Bytes} {address : PeerAddress} :
    PeerAddress.ofBytes networkId bytes = .ok address ∧ bytes.length ≤ PeerAddress.maxLength ↔
      address.check = .ok () ∧ address.networkId = networkId ∧ address.toBytes = bytes := by
  refine ⟨?_, ?_⟩
  · rintro ⟨h, hlength⟩
    rw [PeerAddress.ofBytes] at h
    -- An unknown network takes any bytes, and a known one has a length of its own.
    cases hid : AddressNetwork.ofId? networkId with
    | none =>
      rw [hid] at h
      cases h
      refine ⟨?_, rfl, rfl⟩
      rw [PeerAddress.check, hid, if_neg (by simp), if_neg (by omega)]
    | some network =>
      simp only [hid] at h
      split at h
      · next run hrun =>
        cases h
        refine ⟨rfl, AddressNetwork.id_of_ofId? hid, ?_⟩
        simp only [FixedBytes.ofBytes?, Option.dite_none_right_eq_some, Option.some.injEq] at hrun
        obtain ⟨_, rfl⟩ := hrun
        rfl
      · cases h
  · rintro ⟨hcheck, rfl, rfl⟩
    cases address with
    | known network run =>
      have hsize : network.size ≤ PeerAddress.maxLength := by cases network <;> decide
      refine ⟨?_, by rw [PeerAddress.toBytes, run.length_eq]; exact hsize⟩
      simp only [PeerAddress.ofBytes, PeerAddress.networkId, PeerAddress.toBytes,
        AddressNetwork.ofId?_id, FixedBytes.ofBytes?_toBytes]
    | unknown id bytes =>
      rw [PeerAddress.check] at hcheck
      split at hcheck
      · cases hcheck
      next hid =>
      split at hcheck
      · cases hcheck
      next hlength =>
      refine ⟨?_, Nat.le_of_not_lt hlength⟩
      rw [PeerAddress.networkId, PeerAddress.ofBytes, Option.not_isSome_iff_eq_none.1 hid]
      rfl

theorem PeerEntry.exact_read :
    PeerEntry.read.Exact PeerEntry.write fun entry => entry.address.check = .ok () := by
  intro bytes entry rest
  simp only [PeerEntry.read, (exact_u32 _).bind_eq_ok_iff, (exact_compactSize _).bind_eq_ok_iff,
    (exact_u8 _).bind_eq_ok_iff, true_and]
  refine ⟨?_, ?_⟩
  · rintro ⟨timestamp, _, rfl, services, _, ⟨hservices, rfl⟩, networkId, _, rfl, length, _,
      ⟨-, rfl⟩, h⟩
    split at h
    · cases h
    next hlength =>
    simp only [(exact_take _ _).bind_eq_ok_iff, (exact_u16BE _).bind_eq_ok_iff, true_and] at h
    obtain ⟨run, _, ⟨hrun, rfl⟩, port, _, rfl, h⟩ := h
    cases haddress : PeerAddress.ofBytes networkId run with
    | error violation =>
      rw [haddress] at h
      cases h
    | ok address =>
      rw [haddress] at h
      cases h
      obtain ⟨hcheck, rfl, rfl⟩ := PeerAddress.ofBytes_eq_ok_iff.1 ⟨haddress, by omega⟩
      refine ⟨hcheck, ?_⟩
      simp [PeerEntry.write, CompactSize.encodeBytes, hrun, UInt64.toNat_ofNat_of_lt' hservices]
  · rintro ⟨hcheck, rfl⟩
    obtain ⟨haddress, hlength⟩ := PeerAddress.ofBytes_eq_ok_iff.2 ⟨hcheck, rfl, rfl⟩
    have hmax : PeerAddress.maxLength = 512 ∧ 512 < CompactSize.limit := by decide
    simp only [PeerEntry.write, CompactSize.encodeBytes, List.append_assoc]
    refine ⟨_, _, rfl, _, _, ⟨entry.services.bits.toNat_lt, rfl⟩, _, _, rfl,
      entry.address.toBytes.length, _, ⟨by omega, rfl⟩, ?_⟩
    rw [if_neg (by omega)]
    simp only [(exact_take _ _).bind_eq_ok_iff, (exact_u16BE _).bind_eq_ok_iff, true_and]
    refine ⟨_, _, ⟨rfl, rfl⟩, _, _, rfl, ?_⟩
    rw [haddress, UInt64.ofNat_toNat]
    rfl

theorem PeerEntry.exact_readList :
    PeerEntry.readList.Exact PeerEntry.writeList
      fun entries => entries.length ≤ PeerEntry.maxEntries ∧
        ∀ entry ∈ entries, entry.address.check = .ok () :=
  exact_list PeerEntry.exact_read _ (by decide)

/-! ## Inventories -/

theorem InventoryKind.check_eq_ok_iff {kind : InventoryKind} :
    kind.check = .ok () ↔ InventoryKind.ofUInt32 kind.toUInt32 = kind := by
  rw [InventoryKind.check]
  split <;> simp [*]

theorem InventoryItem.exact_read :
    InventoryItem.read.Exact InventoryItem.write fun item => item.kind.check = .ok () := by
  intro bytes item rest
  simp only [InventoryItem.read, (exact_u32 _).bind_eq_ok_iff, (exact_fixed _ _).bind_eq_ok_iff,
    pure_apply, EStateM.Result.ok.injEq, true_and, InventoryKind.check_eq_ok_iff]
  refine ⟨?_, ?_⟩
  · rintro ⟨number, _, rfl, hash, _, rfl, rfl, rfl⟩
    simp [InventoryItem.write, InventoryKind.toUInt32_ofUInt32]
  · rintro ⟨hkind, rfl⟩
    simp only [InventoryItem.write, List.append_assoc]
    exact ⟨_, _, rfl, _, _, rfl, by rw [hkind], rfl⟩

theorem InventoryItem.exact_readList :
    InventoryItem.readList.Exact InventoryItem.writeList
      fun items => items.length ≤ InventoryItem.maxEntries ∧
        ∀ item ∈ items, item.kind.check = .ok () :=
  exact_list InventoryItem.exact_read _ (by decide)

/-! ## Headers and locators -/

theorem BlockHeader.exact_read : BlockHeader.read.Exact BlockHeader.write fun _ => True := by
  intro bytes header rest
  simp only [BlockHeader.read, (exact_i32 _).bind_eq_ok_iff, (exact_fixed _ _).bind_eq_ok_iff,
    (exact_u32 _).bind_eq_ok_iff, pure_apply, EStateM.Result.ok.injEq, true_and]
  refine ⟨?_, ?_⟩
  · rintro ⟨version, _, rfl, previous, _, rfl, merkleRoot, _, rfl, time, _, rfl, bits, _, rfl,
      nonce, _, rfl, rfl, rfl⟩
    simp [BlockHeader.write]
  · rintro rfl
    simp only [BlockHeader.write, List.append_assoc]
    exact ⟨_, _, rfl, _, _, rfl, _, _, rfl, _, _, rfl, _, _, rfl, _, _, rfl, rfl, rfl⟩

/-- The number of transactions behind a header is written as zero and read as nothing else. -/
theorem BlockHeader.exact_readEntry :
    BlockHeader.readEntry.Exact BlockHeader.writeEntry fun _ => True := by
  intro bytes header rest
  simp only [BlockHeader.readEntry, BlockHeader.exact_read.bind_eq_ok_iff,
    (exact_compactSize _).bind_eq_ok_iff, true_and]
  refine ⟨?_, ?_⟩
  · rintro ⟨header, _, rfl, transactions, _, ⟨-, rfl⟩, h⟩
    split at h
    · next hnone =>
      cases h
      rw [BlockHeader.writeEntry, hnone, List.append_assoc]
    · cases h
  · rintro rfl
    rw [BlockHeader.writeEntry, List.append_assoc]
    exact ⟨_, _, rfl, 0, _, ⟨by decide, rfl⟩, rfl⟩

theorem BlockHeader.exact_readList :
    BlockHeader.readList.Exact BlockHeader.writeList
      fun headers => headers.length ≤ BlockHeader.maxEntries :=
  (exact_list BlockHeader.exact_readEntry _ (by decide)).congr fun _ => by simp

theorem BlockLocator.exact_read :
    BlockLocator.read.Exact BlockLocator.write
      fun locator => locator.hashes.length ≤ BlockLocator.maxEntries := by
  intro bytes locator rest
  simp only [BlockLocator.read, (exact_u32 _).bind_eq_ok_iff,
    (exact_list (exact_fixed 32 "locator: hash") "locator: count"
      (show BlockLocator.maxEntries < CompactSize.limit by decide)).bind_eq_ok_iff,
    (exact_fixed _ _).bind_eq_ok_iff, pure_apply, EStateM.Result.ok.injEq, true_and, implies_true,
    and_true]
  refine ⟨?_, ?_⟩
  · rintro ⟨version, _, rfl, hashes, _, ⟨hlength, rfl⟩, stop, _, rfl, rfl, rfl⟩
    exact ⟨hlength, by simp [BlockLocator.write]⟩
  · rintro ⟨hlength, rfl⟩
    simp only [BlockLocator.write, List.append_assoc]
    exact ⟨_, _, rfl, _, _, ⟨hlength, rfl⟩, _, _, rfl, rfl, rfl⟩

/-! ## Bloom filters -/

theorem BloomFilter.check_eq_ok_iff {filter : BloomFilter} :
    filter.check = .ok () ↔ filter.data.length ≤ BloomFilter.maxLength ∧
      filter.hashFunctions ≤ BloomFilter.maxHashFunctions := by
  rw [BloomFilter.check]
  split
  · simp only [reduceCtorEq, false_iff]
    omega
  next hlength =>
  split
  · simp only [reduceCtorEq, false_iff, not_and, UInt32.not_le]
    exact fun _ => by assumption
  next hfunctions =>
  exact iff_of_true rfl ⟨Nat.le_of_not_lt hlength, UInt32.not_lt.1 hfunctions⟩

theorem BloomFilter.exact_read :
    BloomFilter.read.Exact BloomFilter.write fun filter => filter.check = .ok () := by
  intro bytes filter rest
  simp only [BloomFilter.read, (exact_varBytes _).bind_eq_ok_iff, BloomFilter.check_eq_ok_iff]
  refine ⟨?_, ?_⟩
  · rintro ⟨data, _, ⟨-, rfl⟩, h⟩
    split at h
    · cases h
    next hlength =>
    simp only [(exact_u32 _).bind_eq_ok_iff, true_and] at h
    obtain ⟨hashFunctions, _, rfl, h⟩ := h
    split at h
    · cases h
    next hfunctions =>
    simp only [(exact_u32 _).bind_eq_ok_iff, (exact_u8 _).bind_eq_ok_iff, pure_apply,
      EStateM.Result.ok.injEq, true_and] at h
    obtain ⟨tweak, _, rfl, flags, _, rfl, rfl, rfl⟩ := h
    exact ⟨⟨Nat.le_of_not_lt hlength, UInt32.not_lt.1 hfunctions⟩, by simp [BloomFilter.write]⟩
  · rintro ⟨⟨hlength, hfunctions⟩, rfl⟩
    have hmax : BloomFilter.maxLength < CompactSize.limit := by decide
    simp only [BloomFilter.write, List.append_assoc]
    refine ⟨filter.data, _, ⟨by omega, rfl⟩, ?_⟩
    rw [if_neg (by omega)]
    simp only [(exact_u32 _).bind_eq_ok_iff, true_and]
    refine ⟨filter.hashFunctions, _, rfl, ?_⟩
    rw [if_neg (UInt32.not_lt.2 hfunctions)]
    simp only [(exact_u32 _).bind_eq_ok_iff, (exact_u8 _).bind_eq_ok_iff, pure_apply,
      EStateM.Result.ok.injEq, true_and]
    exact ⟨_, _, rfl, _, _, rfl, rfl, rfl⟩

/-! ## The last field of a payload -/

/-- A missing flag is written as nothing, so it is read as missing only at the end. -/
theorem VersionMessage.exactAtEnd_readRelay :
    VersionMessage.readRelay.ExactAtEnd VersionMessage.writeRelay fun _ => True := by
  intro bytes relay
  cases bytes with
  | nil =>
    have hread : VersionMessage.readRelay [] = .ok none [] := rfl
    rw [hread]
    rcases relay with _ | _ | _ <;> simp [VersionMessage.writeRelay]
  | cons flag bytes =>
    have hread : VersionMessage.readRelay (flag :: bytes) =
        (if flag = 0 then pure (some false) else if flag = 1 then pure (some true)
          else refuse .relayFlag : Reader (Option Bool)) bytes := rfl
    rw [hread]
    split
    · next hflag =>
      rcases relay with _ | _ | _ <;> simp [VersionMessage.writeRelay, pure_apply, hflag]
    split
    · next hflag =>
      rcases relay with _ | _ | _ <;> simp [VersionMessage.writeRelay, pure_apply, hflag]
    · next hfalse htrue =>
      have hrefused : (refuse .relayFlag : Reader (Option Bool)) bytes =
          .error (.invalid .relayFlag) bytes := rfl
      rw [hrefused]
      rcases relay with _ | _ | _ <;> simp [VersionMessage.writeRelay, hfalse, htrue]

theorem VersionMessage.exactAtEnd_read :
    VersionMessage.read.ExactAtEnd VersionMessage.write
      fun v => (Text.toUtf8 v.userAgent).length < CompactSize.limit := by
  intro bytes v
  simp only [VersionMessage.read, (exact_i32 _).bind_eq_ok_iff, (exact_u64 _).bind_eq_ok_iff,
    (exact_i64 _).bind_eq_ok_iff, NetAddr.exact_read.bind_eq_ok_iff, (exact_text _).bind_eq_ok_iff,
    bind_eq_ok_iff, pure_apply, EStateM.Result.ok.injEq, true_and]
  refine ⟨?_, ?_⟩
  · rintro ⟨version, _, rfl, services, _, rfl, timestamp, _, rfl, receiver, _, rfl, sender, _, rfl,
      nonce, _, rfl, userAgent, _, ⟨huserAgent, rfl⟩, startHeight, _, rfl, relay, _, hrelay, rfl,
      rfl⟩
    obtain ⟨-, rfl⟩ := (VersionMessage.exactAtEnd_readRelay _ _).1 hrelay
    exact ⟨huserAgent, by simp [VersionMessage.write]⟩
  · rintro ⟨huserAgent, rfl⟩
    have hrelay := (VersionMessage.exactAtEnd_readRelay _ v.relay).2 ⟨trivial, rfl⟩
    simp only [VersionMessage.write, List.append_assoc]
    exact ⟨_, _, rfl, _, _, rfl, _, _, rfl, _, _, rfl, _, _, rfl, _, _, rfl, _, _,
      ⟨huserAgent, rfl⟩, _, _, rfl, _, _, hrelay, rfl, rfl⟩

/-- The data of a rejection is all that is left, so nothing stands behind it. -/
theorem RejectMessage.exactAtEnd_read :
    RejectMessage.read.ExactAtEnd RejectMessage.write
      fun reject => (Text.toUtf8 reject.message).length < CompactSize.limit ∧
        (Text.toUtf8 reject.reason).length < CompactSize.limit := by
  intro bytes reject
  simp only [RejectMessage.read, (exact_text _).bind_eq_ok_iff, (exact_u8 _).bind_eq_ok_iff,
    bind_eq_ok_iff, takeRest, pure_apply, EStateM.Result.ok.injEq, true_and]
  refine ⟨?_, ?_⟩
  · rintro ⟨message, _, ⟨hmessage, rfl⟩, code, _, rfl, reason, _, ⟨hreason, rfl⟩, data, _,
      ⟨rfl, rfl⟩, rfl, -⟩
    exact ⟨⟨hmessage, hreason⟩, by simp [RejectMessage.write]⟩
  · rintro ⟨⟨hmessage, hreason⟩, rfl⟩
    simp only [RejectMessage.write, List.append_assoc]
    exact ⟨_, _, ⟨hmessage, rfl⟩, _, _, rfl, _, _, ⟨hreason, rfl⟩, _, _, ⟨rfl, rfl⟩, rfl, rfl⟩

end Bitcoin
