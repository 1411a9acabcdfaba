import Bitcoin.CommandLine.Arguments
import Bitcoin.Frame

/-!
# What a command line asks for

The words of a command line are read into an `Invocation`: the network and the protocol version, and
one of five actions.  The options of the whole program stand in front of the action, and the network
may also come from the environment; an option wins over it.

* `Invocation.parse?` reads the words; whatever cannot be read is a mistake in their use.
-/

set_option autoImplicit false

namespace Bitcoin.CommandLine

/-- A message to be written.  Hashes are given in the order in which people write them, last byte
first. -/
inductive MessageRequest where
  | version (userAgent : String) (startHeight : Int32)
  | verack
  | ping (nonce : UInt64)
  | getHeaders (locator : List String)
  | getData (blocks : List String)
deriving DecidableEq

/-- What is to be done. -/
inductive Action where
  /-- Show the messages in a hexadecimal text, or in what is read from the input. -/
  | decode (hex : Option String)
  /-- Write a message as a frame. -/
  | encode (request : MessageRequest)
  /-- Write a frame with any command and a payload in hexadecimal. -/
  | encodeRaw (command payload : String)
  /-- Show the key at a path from a seed. -/
  | derive (seed path : String)
  /-- Show the first children of a key. -/
  | next (seed parent : String) (count : UInt32) (hardened : Bool)
deriving DecidableEq

/-- A command line that makes sense. -/
structure Invocation where
  network : Network
  protocol : ProtocolVersion
  action : Action
deriving DecidableEq

/-! ## Values of options -/

/-- A version or a height. -/
def int32? (word : String) : Option Int32 :=
  (integerIn? (-2147483648) 2147483647 word).map Int32.ofInt

/-- A number of children. -/
def uint32? (word : String) : Option UInt32 :=
  (integerIn? 0 4294967295 word).map fun n => UInt32.ofNat n.toNat

/-- A nonce. -/
def uint64? (word : String) : Option UInt64 :=
  (naturalUpTo? 18446744073709551615 word).map UInt64.ofNat

/-- The value of an option, or a default if it was not given; a value that cannot be read is a
mistake. -/
def valueOr {α : Type} (given : Given) (name : String) (read : String → Option α) (default : α) :
    Option α :=
  match given.value? name with
  | some word => read word
  | none => some default

/-! ## Actions -/

/-- The message that some words ask to write. -/
def MessageRequest.parse? : List String → Option MessageRequest
  | "version" :: words => do
    let given ← onlyOptions [("user-agent", .single), ("start-height", .single)] words
    return version (← valueOr given "user-agent" some "/btc-cli:0.1.0/")
      (← valueOr given "start-height" int32? 0)
  | "verack" :: words => do
    let _ ← onlyOptions [] words
    return verack
  | "ping" :: words => do
    let given ← onlyOptions [("nonce", .single)] words
    return ping (← uint64? (← given.value? "nonce"))
  | "get-headers" :: words => do
    let given ← onlyOptions [("locator", .many)] words
    return getHeaders (given.values "locator")
  | "get-data" :: words => do
    let given ← onlyOptions [("block", .many)] words
    return getData (given.values "block")
  | _ => none

/-- The action that some words ask for. -/
def Action.parse? : List String → Option Action
  | "decode" :: words => do
    let given ← onlyOptions [("hex", .single)] words
    return decode (given.value? "hex")
  | "encode" :: "raw" :: words => do
    let given ← onlyOptions [("command", .single), ("payload", .single)] words
    return encodeRaw (← given.value? "command") (← valueOr given "payload" some "")
  | "encode" :: words => encode <$> MessageRequest.parse? words
  | "derive" :: words => do
    let given ← onlyOptions [("seed", .single), ("path", .single)] words
    return derive (← given.value? "seed") (← valueOr given "path" some "M")
  | "next" :: words => do
    let given ← onlyOptions
      [("seed", .single), ("parent", .single), ("count", .single), ("hardened", .switch)] words
    return next (← given.value? "seed") (← valueOr given "parent" some "M")
      (← valueOr given "count" uint32? 1) (given.has "hardened")
  | _ => none

namespace Invocation

/-- The network to use: the one that is asked for, else the one of the environment, else the main
one. -/
def network? (given : Given) (environment : Option String) : Option Network :=
  match given.value? "network", environment with
  | some word, _ => Network.ofName? word
  | none, some word => Network.ofName? word
  | none, none => some .mainnet

/-- The invocation that some words spell, in an environment that may name a network. -/
def parse? (words : List String) (environment : Option String) : Option Invocation := do
  let (given, rest) ← takeOptions [("network", .single), ("protocol-version", .single)] [] words
  let network ← network? given environment
  let protocol ← valueOr given "protocol-version" int32? ProtocolVersion.current
  return ⟨network, protocol, ← Action.parse? rest⟩

/-- What both ends of a connection agree on. -/
def link (invocation : Invocation) : Link := ⟨invocation.network, invocation.protocol⟩

end Invocation

end Bitcoin.CommandLine
