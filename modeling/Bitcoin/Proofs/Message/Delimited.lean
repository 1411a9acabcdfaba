import Bitcoin.Proofs.Message.Readable
import Bitcoin.Proofs.Payload.Delimited

/-!
# Where a payload ends

A payload says itself where it ends, for nearly all commands: with its last byte missing it is too
short, and with one more byte it is too long.  No other rule of its format is found broken then.

* `Command.DelimitsItself` lists the commands.  Left out are the rejection, whose data is all that
  is left, the ping of an old node, which may be empty, and the introduction.
* `VersionMessage.readFront` is the introduction up to its last field, which may be missing.
* `Message.error_of_cut` is what is read of a payload that is cut off, or goes on.

That a payload which is cut off is refused is not surprising.  The point is the error: it is always
the one that says that bytes are missing, and never that a number is too large or a text is none.  A
caller that gets any other error can therefore give up, for no bytes that could still come would
make a message of those that are there.

The proof has no case distinctions on where the cut is.  Each format is a row of readers, each of
which delimits what it reads, and `Reader.Delimited.bind` does not ask in which of them the cut
falls.  The work was in the order in which a reader looks at things: the length of an address is
compared with its limit before the address is there, which is right because the length itself is;
but whether the bytes of a text are UTF-8 is only looked at when all of them are.

The three commands that are left out are so for two reasons.  The readers of a rejection and of an
old ping ask where the payload ends, so that what is cut off may be a payload again.  The
introduction does this for its last byte only, and for it the theorem says what happens at each cut:
without the relay flag it is an introduction that does not have it, and anywhere else it is too
short.
-/

set_option autoImplicit false

namespace Bitcoin

open Reader Stateful

/-! ## The formats -/

theorem NetAddr.delimited_read : NetAddr.read.Delimited :=
  (delimited_u64 _).bind fun _ => (delimited_fixed 16 _).bind fun _ =>
    (delimited_u16BE _).bind fun _ => delimited_pure _

theorem AddressEntry.delimited_read : AddressEntry.read.Delimited :=
  (delimited_u32 _).bind fun _ => NetAddr.delimited_read.bind fun _ => delimited_pure _

/-- The length of an address is looked at before the address is read, and the network behind it. -/
theorem PeerEntry.delimited_read : PeerEntry.read.Delimited := by
  refine (delimited_u32 _).bind fun _ => (delimited_compactSize _).bind fun _ =>
    (delimited_u8 _).bind fun _ => (delimited_compactSize _).bind fun length => ?_
  refine (delimited_refuse _).ite ?_
  refine (delimited_take length _).bind fun _ => (delimited_u16BE _).bind fun _ => ?_
  split
  · exact delimited_pure _
  · exact delimited_refuse _

theorem InventoryItem.delimited_read : InventoryItem.read.Delimited :=
  (delimited_u32 _).bind fun _ => (delimited_fixed 32 _).bind fun _ => delimited_pure _

theorem BlockHeader.delimited_read : BlockHeader.read.Delimited :=
  (delimited_i32 _).bind fun _ => (delimited_fixed 32 _).bind fun _ =>
    (delimited_fixed 32 _).bind fun _ => (delimited_u32 _).bind fun _ =>
      (delimited_u32 _).bind fun _ => (delimited_u32 _).bind fun _ => delimited_pure _

theorem BlockHeader.delimited_readEntry : BlockHeader.readEntry.Delimited :=
  BlockHeader.delimited_read.bind fun _ => (delimited_compactSize _).bind fun _ =>
    (delimited_pure _).ite (delimited_refuse _)

theorem BlockLocator.delimited_read : BlockLocator.read.Delimited :=
  (delimited_u32 _).bind fun _ => (delimited_list (delimited_fixed 32 _) _ _).bind fun _ =>
    (delimited_fixed 32 _).bind fun _ => delimited_pure _

theorem BloomFilter.delimited_read : BloomFilter.read.Delimited :=
  (delimited_varBytes _).bind fun _ => (delimited_refuse _).ite <|
    (delimited_u32 _).bind fun _ => (delimited_refuse _).ite <|
      (delimited_u32 _).bind fun _ => (delimited_u8 _).bind fun _ => delimited_pure _

/-! ## Transactions and blocks -/

theorem OutPoint.delimited_read : OutPoint.read.Delimited :=
  (delimited_fixed 32 _).bind fun _ => (delimited_u32 _).bind fun _ => delimited_pure _

theorem TxInput.delimited_read : TxInput.read.Delimited :=
  OutPoint.delimited_read.bind fun _ => (delimited_varBytes _).bind fun _ =>
    (delimited_u32 _).bind fun _ => delimited_pure _

theorem TxInput.delimited_readWitness (input : TxInput) : input.readWitness.Delimited :=
  (delimited_list (delimited_varBytes _) _ _).bind fun _ => delimited_pure _

theorem TxOutput.delimited_read : TxOutput.read.Delimited :=
  (delimited_i64 _).bind fun _ => (delimited_varBytes _).bind fun _ => delimited_pure _

namespace Transaction

theorem delimited_readInputs : readInputs.Delimited := delimited_list TxInput.delimited_read _ _

theorem delimited_readOutputs : readOutputs.Delimited := delimited_list TxOutput.delimited_read _ _

theorem delimited_readWitnesses (inputs : List TxInput) : (readWitnesses inputs).Delimited :=
  (delimited_mapM TxInput.delimited_readWitness inputs).bind fun _ =>
    (delimited_pure _).ite (delimited_refuse _)

/-- The flags decide which sections follow, and the sections are all read before the flags are
refused. -/
theorem delimited_readSections : readSections.Delimited := by
  refine (delimited_u8 _).bind fun flags => (delimited_pure _).ite ?_
  refine delimited_readInputs.bind fun inputs => delimited_readOutputs.bind fun outputs => ?_
  have hknown (inputs : List TxInput) : (if flags = 1 then pure (inputs, outputs)
      else refuse .unknownTransactionSections : Reader _).Delimited :=
    (delimited_pure _).ite (delimited_refuse _)
  exact ((delimited_readWitnesses inputs).bind hknown).ite ((delimited_pure inputs).bind hknown)

theorem delimited_readSpending (protocol : ProtocolVersion) :
    (readSpending protocol).Delimited :=
  delimited_readInputs.bind fun _ => delimited_readSections.ite <|
    delimited_readOutputs.bind fun _ => delimited_pure _

theorem delimited_read (protocol : ProtocolVersion) : (read protocol).Delimited :=
  (delimited_i32 _).bind fun _ => (delimited_readSpending protocol).bind fun _ =>
    (delimited_u32 _).bind fun _ => delimited_pure _

end Transaction

theorem Block.delimited_read (protocol : ProtocolVersion) : (Block.read protocol).Delimited :=
  BlockHeader.delimited_read.bind fun _ =>
    (delimited_list (Transaction.delimited_read protocol) _ _).bind fun _ => delimited_pure _

theorem MerkleBlock.delimited_read : MerkleBlock.read.Delimited :=
  BlockHeader.delimited_read.bind fun _ => (delimited_u32 _).bind fun _ =>
    (delimited_list (delimited_fixed 32 _) _ _).bind fun _ =>
      (delimited_varBytes _).bind fun _ => delimited_pure _

/-! ## Introductions -/

namespace VersionMessage

/-- Reads an introduction up to the relay flag. -/
def readFront : Reader VersionMessage := do
  let version ← Reader.i32 "version: version"
  let services ← Reader.u64 "version: services"
  let timestamp ← Reader.i64 "version: timestamp"
  let receiver ← NetAddr.read
  let sender ← NetAddr.read
  let nonce ← Reader.u64 "version: nonce"
  let userAgent ← Reader.text "version: user_agent"
  let startHeight ← Reader.i32 "version: start_height"
  return ⟨version, ⟨services⟩, timestamp, receiver, sender, nonce, userAgent, startHeight, none⟩

/-- The relay flag is read behind all the rest. -/
theorem read_eq : read = readFront >>= fun v => (fun relay => { v with relay }) <$> readRelay := by
  simp only [read, readFront, bind_assoc, pure_bind, map_eq_pure_bind]

theorem delimited_readFront : readFront.Delimited :=
  (delimited_i32 _).bind fun _ => (delimited_u64 _).bind fun _ => (delimited_i64 _).bind fun _ =>
    NetAddr.delimited_read.bind fun _ => NetAddr.delimited_read.bind fun _ =>
      (delimited_u64 _).bind fun _ => (delimited_text _).bind fun _ =>
        (delimited_i32 _).bind fun _ => delimited_pure _

/-- What breaks off within the relay flag leaves the flag out. -/
theorem eq_nil_of_prefix_writeRelay {relay : Option Bool} {short : Bytes}
    (h : short <+: writeRelay relay) (hne : short ≠ writeRelay relay) : short = [] := by
  have hlength : (writeRelay relay).length ≤ 1 := by rcases relay with _ | _ | _ <;> decide
  have hlt := Bytes.length_lt_of_prefix h hne
  exact List.length_eq_zero_iff.1 (by omega)

/-- **An introduction without its relay flag is an introduction**, and cut off anywhere else it is
too short. -/
theorem read_of_cut {payload : Bytes} {v : VersionMessage} (h : read payload = .ok v []) :
    ∃ front, payload = front ++ writeRelay v.relay ∧
      read front = .ok { v with relay := none } [] ∧
        ∀ short, short <+: payload → short ≠ payload → short ≠ front → read.Starves short := by
  rw [read_eq] at h ⊢
  obtain ⟨w, left, hfront, hlast⟩ := bind_eq_ok_iff.1 h
  obtain ⟨relay, hrelay, rfl⟩ := map_eq_ok_iff.1 hlast
  obtain ⟨-, rfl⟩ := (exactAtEnd_readRelay left relay).1 hrelay
  obtain ⟨front, rfl, htakes⟩ := delimited_readFront _ _ _ hfront
  refine ⟨front, rfl, ?_, fun short hshort hpayload hne => ?_⟩
  · have hwhole := htakes.whole []
    rw [List.append_nil] at hwhole
    rw [bind_of_eq_ok hwhole]
    rfl
  · rcases Bytes.prefix_append_cases hshort with ⟨hcut, hcut'⟩ | ⟨left, rfl, hleft⟩
    · exact (htakes.starves short hcut hcut').bind
    · have hnil := eq_nil_of_prefix_writeRelay hleft fun heq => hpayload (by rw [heq])
      rw [hnil, List.append_nil] at hne
      exact absurd rfl hne

end VersionMessage

/-! ## Messages -/

/-- The payload of the command says itself where it ends. -/
def Command.DelimitsItself (protocol : ProtocolVersion) : Command → Prop
  | .version | .reject => False
  | .ping => protocol.needsPingNonce = true
  | _ => True

namespace Message

variable {protocol : ProtocolVersion} {command : String} {known : Command} {message : Message}
  {payload : Bytes}

/-- A ping that has to have its nonce is nothing but the nonce. -/
theorem delimited_readPing (h : protocol.needsPingNonce = true) :
    (readPing protocol).Delimited := by
  have hread : readPing protocol = some <$> u64 "ping: nonce" := by
    funext bytes
    show (if bytes.isEmpty && !protocol.needsPingNonce then (pure none : Reader (Option UInt64))
      else some <$> u64 "ping: nonce") bytes = _
    rw [h, Bool.not_true, Bool.and_false]
    rfl
  rw [hread]
  exact (delimited_u64 _).map _

theorem delimited_read (h : known.DelimitsItself protocol) :
    (read protocol known).Delimited := by
  cases known with
  | version => exact h.elim
  | reject => exact h.elim
  | ping => exact (delimited_readPing h).map _
  | verack | sendAddrV2 | getAddr | sendHeaders | mempool => exact delimited_pure _
  | addr => exact (delimited_list AddressEntry.delimited_read _ _).map _
  | addrV2 => exact (delimited_list PeerEntry.delimited_read _ _).map _
  | pong => exact (delimited_u64 _).map _
  | feeFilter => exact (delimited_i64 _).map _
  | inv | getData | notFound => exact (delimited_list InventoryItem.delimited_read _ _).map _
  | getBlocks | getHeaders => exact BlockLocator.delimited_read.map _
  | headers => exact (delimited_list BlockHeader.delimited_readEntry _ _).map _
  | block => exact (Block.delimited_read protocol).map _
  | tx => exact (Transaction.delimited_read protocol).map _
  | merkleBlock => exact MerkleBlock.delimited_read.map _
  | filterLoad => exact BloomFilter.delimited_read.map _

theorem decode_of_ofName? (hknown : Command.ofName? command = some known) (payload : Bytes) :
    decode protocol command payload = exactly known.name (read protocol known) payload := by
  rw [decode, hknown]

/-- **A payload that is cut off is too short, and one that goes on is too long.**  This is so for
all commands that delimit themselves, wherever the payload is cut and whatever stands behind it; of
an introduction, that it may do without its relay flag. -/
theorem error_of_cut (hknown : Command.ofName? command = some known)
    (h : decode protocol command payload = .ok message) :
    (known.DelimitsItself protocol →
      (∀ short, short <+: payload → short ≠ payload →
        ∃ field, decode protocol command short = .error (.unexpectedEnd field)) ∧
      ∀ extra, extra ≠ [] → decode protocol command (payload ++ extra) =
        .error (.trailingBytes command extra.length)) ∧
    (known = .version → ∃ v front, message = version v ∧
      payload = front ++ VersionMessage.writeRelay v.relay ∧
      decode protocol command front = .ok (version { v with relay := none }) ∧
      ∀ short, short <+: payload → short ≠ payload → short ≠ front →
        ∃ field, decode protocol command short = .error (.unexpectedEnd field)) := by
  simp only [decode_of_ofName? hknown] at h ⊢
  rw [← Command.name_of_ofName? hknown]
  refine ⟨fun hdelimits => (delimited_read hdelimits).exactly_eq_error h, ?_⟩
  rintro rfl
  obtain ⟨v, hread, rfl⟩ := map_eq_ok_iff.1 (exactly_eq_ok_iff.1 h)
  obtain ⟨front, hpayload, hfront, hstarves⟩ := VersionMessage.read_of_cut hread
  refine ⟨v, front, rfl, hpayload, ?_, fun short hshort hne hne' => ?_⟩
  · exact exactly_eq_ok_iff.2 (map_eq_ok_iff.2 ⟨_, hfront, rfl⟩)
  · exact exactly_of_starves (hstarves short hshort hne hne').bind _

/-- A ping that is cut off, one that goes on, and an introduction without its relay flag. -/
theorem error_of_cut_ping_version :
    (∃ field, decode .current "ping" [7, 0, 0] = .error (.unexpectedEnd field)) ∧
      decode .current "ping" [7, 0, 0, 0, 0, 0, 0, 0, 9] = .error (.trailingBytes "ping" 1) ∧
      decode .current "version" (Bytes.zeros 86) =
        .ok (version { (default : VersionMessage) with relay := some false }) ∧
      decode .current "version" (Bytes.zeros 85) = .ok (version default) := by
  have hping : decode .current "ping" [7, 0, 0, 0, 0, 0, 0, 0] = .ok (ping (some 7)) := rfl
  have hversion : decode .current "version" (Bytes.zeros 86) =
      .ok (version { (default : VersionMessage) with relay := some false }) := rfl
  obtain ⟨hcut, hextra⟩ := (error_of_cut (Command.ofName?_name .ping) hping).1 rfl
  obtain ⟨v, front, hv, hpayload, hfront, -⟩ :=
    (error_of_cut (Command.ofName?_name .version) hversion).2 rfl
  cases hv
  have hfront85 : front = Bytes.zeros 85 := List.append_cancel_right hpayload.symm
  refine ⟨hcut [7, 0, 0] (by decide) (by decide), hextra [9] (by decide), hversion, ?_⟩
  rw [← hfront85]
  exact hfront

end Message

end Bitcoin
