import Bitcoin.CommandLine
import Std.Time.DateTime.Timestamp

/-!
# The program

Hands the words, the environment, the moment and the input to `Bitcoin.CommandLine.run`, and prints
what comes out.
-/

set_option autoImplicit false

namespace Bitcoin.CommandLine

/-- Whether the input is read: only if messages are to be shown that the words do not hold. -/
def readsInput (words : List String) (environment : Option String) : Bool :=
  match Invocation.parse? words environment with
  | some ⟨_, _, .decode none⟩ => true
  | _ => false

/-- The time and a random number. -/
def currentMoment : IO Moment := do
  let now ← Std.Time.Timestamp.now
  let random ← IO.getRandomBytes 8
  return ⟨Int64.ofInt now.toSecondsSinceUnixEpoch.val,
    UInt64.ofNat (Bytes.toNatLE random.data.toList)⟩

/-- Runs the program for some words. -/
def execute (words : List String) : IO UInt32 := do
  let environment ← IO.getEnv "BTC_NETWORK"
  let input ←
    if readsInput words environment then (← IO.getStdin).readBinToEnd else pure ByteArray.empty
  let outcome := run words environment (← currentMoment) input.data.toList
  (← IO.getStdout).putStr outcome.output
  (← IO.getStderr).putStr outcome.errorOutput
  return UInt32.ofNat outcome.exitCode

end Bitcoin.CommandLine

/-- The entry point. -/
def main (words : List String) : IO UInt32 := Bitcoin.CommandLine.execute words
