import Bitcoin.Text.Utf8

/-!
# Commands

The command of a message says how its payload is to be read.  On the wire it is twelve bytes, filled
up with zeros (`Command.field`).

The name that travels has at most twelve small letters and digits.  It is compared as a text, so a
command with other letters, or more of them, is not known; what is done about it is decided by who
reads.
-/

set_option autoImplicit false

namespace Bitcoin

/-- The commands that this library can read. -/
inductive Command where
  | version
  | verack
  | addr
  | addrV2
  | sendAddrV2
  | getAddr
  | ping
  | pong
  | sendHeaders
  | feeFilter
  | reject
  | inv
  | getData
  | notFound
  | getBlocks
  | getHeaders
  | headers
  | block
  | tx
  | mempool
  | merkleBlock
  | filterLoad
deriving DecidableEq, Repr

namespace Command

/-- All commands. -/
def all : List Command :=
  [version, verack, addr, addrV2, sendAddrV2, getAddr, ping, pong, sendHeaders, feeFilter, reject,
    inv, getData, notFound, getBlocks, getHeaders, headers, block, tx, mempool, merkleBlock,
    filterLoad]

/-- The name of a command on the wire. -/
def name : Command → String
  | version => "version"
  | verack => "verack"
  | addr => "addr"
  | addrV2 => "addrv2"
  | sendAddrV2 => "sendaddrv2"
  | getAddr => "getaddr"
  | ping => "ping"
  | pong => "pong"
  | sendHeaders => "sendheaders"
  | feeFilter => "feefilter"
  | reject => "reject"
  | inv => "inv"
  | getData => "getdata"
  | notFound => "notfound"
  | getBlocks => "getblocks"
  | getHeaders => "getheaders"
  | headers => "headers"
  | block => "block"
  | tx => "tx"
  | mempool => "mempool"
  | merkleBlock => "merkleblock"
  | filterLoad => "filterload"

/-- The command with that name. -/
def ofName? (text : String) : Option Command := all.find? fun command => command.name == text

theorem ofName?_name (command : Command) : ofName? command.name = some command := by
  cases command <;> decide

theorem name_of_ofName? {text : String} {command : Command} (h : ofName? text = some command) :
    command.name = text := by
  have := List.find?_some h
  simpa using this

/-- The length of the command field of a message. -/
def fieldLength : Nat := 12

/-- The name as twelve bytes, filled up with zeros. -/
def field (command : Command) : FixedBytes fieldLength :=
  ⟨Text.toUtf8 command.name ++ Bytes.zeros (fieldLength - (Text.toUtf8 command.name).length), by
    cases command <;> decide⟩

end Command

end Bitcoin
