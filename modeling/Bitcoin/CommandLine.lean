import Bitcoin.CommandLine.Invocation
import Bitcoin.Frame.Outline
import Bitcoin.Key.Outline
import Bitcoin.Key.Serialized
import Bitcoin.KeyTree
import Bitcoin.Text.Blank

/-!
# The command line

What the program prints for its words, its environment and its input.  Nothing here talks to the
world: the moment, which a version message tells, comes in from outside, and the result is a value.

* `decodeReport` shows the messages of a stream, `encodeReport` and `encodeRawReport` show a frame
  in hexadecimal, `deriveReport` and `nextReport` show keys.
* `run` puts them together: what was printed before an error stays printed.

What a program does in the end is to print and to stop.  Here this is a value: `Report` is what was
printed and the error that came after it, if one did, and `CommandLine.Outcome` is the exit code
with the two outputs.  Only the outermost layer in `Bitcoin.Main` does anything with it, so that all
of the program can be spoken of in theorems.

Everything that comes from the world is an argument.  The bytes of the input, the environment, and,
for an introduction, the time and a random number (`CommandLine.Moment`) are handed to
`CommandLine.run` from outside.

The order in which arguments are looked at can be seen from the errors, and is kept: a seed is read
before a path, and both before a key is derived.
-/

set_option autoImplicit false

namespace Bitcoin.CommandLine

/-- Why an action ends early. -/
inductive CommandError where
  | hex (error : HexError)
  /-- A hash on the command line does not have 32 bytes. -/
  | hashLength
  | frame (error : FrameError)
  | key (error : KeyError)

namespace CommandError

/-- The error as it is shown. -/
def describe : CommandError → String
  | hex error => error.describe
  | hashLength => Text.quoted "hash must be 32 bytes"
  | frame error => error.outline.flat
  | key error => error.outline.flat

end CommandError

/-- What an action prints, and the error that ends it, if one does. -/
structure Report where
  printed : String
  error : Option CommandError

namespace Report

/-- A report of something that may fail before anything is printed. -/
def ofExcept : Except CommandError String → Report
  | .ok printed => ⟨printed, none⟩
  | .error e => ⟨"", some e⟩

end Report

/-- The bytes of a hexadecimal text. -/
def bytesOfHex (text : String) : Except CommandError Bytes := (Bytes.ofHex text).mapError .hex

/-! ## Messages -/

/-- Shows the messages of a stream, one below the other.  The stream may end anywhere, and any other
error ends the report. -/
def streamReport (link : Link) (bytes : Bytes) : Report :=
  let (messages, e) := link.messages (Stream.ofBytes bytes)
  ⟨String.join (messages.map fun message => message.outline.tall ++ "\n"),
    if e = .insufficientData then none else some (.frame e)⟩

/-- Shows the messages in a hexadecimal text, with blanks around it or not, or in the input. -/
def decodeReport (link : Link) (hex : Option String) (input : Bytes) : Report :=
  match hex with
  | none => streamReport link input
  | some text =>
    match bytesOfHex (String.ofList (Text.trim text.toList)) with
    | .ok bytes => streamReport link bytes
    | .error e => ⟨"", some e⟩

/-- A hash that was written last byte first. -/
def displayedHash (text : String) : Except CommandError Hash256 := do
  let bytes ← bytesOfHex text
  match FixedBytes.ofBytes? 32 bytes.reverse with
  | some hash => return hash
  | none => throw .hashLength

/-- What the world tells a version message. -/
structure Moment where
  timestamp : Int64
  nonce : UInt64

/-- The message that is asked for. -/
def requestedMessage (link : Link) (moment : Moment) : MessageRequest → Except CommandError Message
  | .version userAgent startHeight => .ok (.introduce link.protocol .none moment.timestamp
      .unspecified moment.nonce userAgent startHeight)
  | .verack => .ok .verack
  | .ping nonce => .ok (.ping (some nonce))
  | .getHeaders locator => do
    let hashes ← locator.mapM displayedHash
    return .requestHeaders link.protocol (if hashes.isEmpty then [genesisHash] else hashes)
  | .getData blocks => return .requestBlocks true (← blocks.mapM displayedHash)

/-- What a writer writes, in hexadecimal. -/
def writtenText (writer : SinkWriter Unit) : Except CommandError String :=
  match writer Sink.empty with
  | .ok () sink => .ok (Bytes.toHex sink.written ++ "\n")
  | .error e _ => .error (.frame e)

/-- Shows the frame of a message. -/
def encodeReport (link : Link) (moment : Moment) (request : MessageRequest) : Report :=
  Report.ofExcept do
    let message ← requestedMessage link moment request
    writtenText (link.writeMessage message)

/-- Shows the frame of a payload in hexadecimal, which is read before the command is looked at. -/
def encodeRawReport (link : Link) (command payload : String) : Report :=
  Report.ofExcept do
    let payload ← bytesOfHex payload
    writtenText (link.writeRaw command payload)

/-! ## Keys -/

/-- Shows a key, with its private half if it is known. -/
def keyText (key : ExtendedKey) (network : Network) : String :=
  "path:        " ++ key.path.toString ++ "\n" ++
  "fingerprint: " ++ Bytes.toHex key.fingerprint.toBytes ++ "\n" ++
  "public key:  " ++ Bytes.toHex key.pointBytes.toBytes ++ "\n" ++
  "xpub:        " ++ key.toPublicText network ++ "\n" ++
  match key.toPrivateText network with
  | .ok text => "xprv:        " ++ text ++ "\n"
  | .error _ => ""

/-- The master key of a seed in hexadecimal, and a path.  The seed is read before the path, and the
path before the key is derived. -/
def masterAndPath (seed path : String) : Except CommandError (ExtendedKey × KeyPath) := do
  let seed ← bytesOfHex seed
  let path ← (KeyPath.ofText path).mapError .key
  let master ← (ExtendedKey.ofSeed seed).mapError .key
  return (master, path)

/-- Shows the key at a path. -/
def deriveReport (network : Network) (seed path : String) : Report :=
  Report.ofExcept do
    let (master, path) ← masterAndPath seed path
    let key ← (master.derivePath path).mapError .key
    return keyText key network

/-- Shows so many children of a key, one after the other, behind what was `printed` before. -/
def childrenReport (network : Network) (parent : KeyPath) (hardened : Bool) (printed : String) :
    Nat → KeyTree → Report
  | 0, _ => ⟨printed, none⟩
  | count + 1, tree =>
    match KeyTree.deriveNextChild parent false true hardened tree with
    | .ok key tree =>
      childrenReport network parent hardened (printed ++ keyText key network ++ "\n") count tree
    | .error e _ => ⟨printed, some (.key e)⟩

/-- Shows the first children of a key. -/
def nextReport (network : Network) (seed parent : String) (count : UInt32) (hardened : Bool) :
    Report :=
  match masterAndPath seed parent with
  | .ok (master, parent) =>
    childrenReport network parent hardened "" count.toNat (KeyTree.ofRoot master)
  | .error e => ⟨"", some e⟩

/-! ## The whole program -/

/-- What an invocation prints, for some input. -/
def Invocation.report (invocation : Invocation) (moment : Moment) (input : Bytes) : Report :=
  match invocation.action with
  | .decode hex => decodeReport invocation.link hex input
  | .encode request => encodeReport invocation.link moment request
  | .encodeRaw command payload => encodeRawReport invocation.link command payload
  | .derive seed path => deriveReport invocation.network seed path
  | .next seed parent count hardened => nextReport invocation.network seed parent count hardened

/-- How the program ends. -/
structure Outcome where
  exitCode : Nat
  output : String
  errorOutput : String

/-- How the words are used. -/
def usage : String :=
  "usage: btc-cli [--network NETWORK] [--protocol-version VERSION] ACTION\n" ++
  "  decode [--hex HEX]\n" ++
  "  encode version [--user-agent TEXT] [--start-height HEIGHT]\n" ++
  "  encode verack\n" ++
  "  encode ping --nonce NONCE\n" ++
  "  encode get-headers [--locator HASH]...\n" ++
  "  encode get-data [--block HASH]...\n" ++
  "  encode raw --command COMMAND [--payload HEX]\n" ++
  "  derive --seed HEX [--path PATH]\n" ++
  "  next --seed HEX [--parent PATH] [--count COUNT] [--hardened]\n"

/-- How the program ends for its words, its environment and its input: with 0, with 1 after an
error, and with 2 if the words make no sense. -/
def run (words : List String) (environment : Option String) (moment : Moment) (input : Bytes) :
    Outcome :=
  match Invocation.parse? words environment with
  | none => ⟨2, "", usage⟩
  | some invocation =>
    let report := invocation.report moment input
    match report.error with
    | none => ⟨0, report.printed, ""⟩
    | some e => ⟨1, report.printed, "Error: " ++ e.describe ++ "\n"⟩

end Bitcoin.CommandLine
