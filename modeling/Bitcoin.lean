import Bitcoin.Main
import Bitcoin.Proofs.CommandLine.Children
import Bitcoin.Proofs.CommandLine.Decoding
import Bitcoin.Proofs.CommandLine.Shown
import Bitcoin.Proofs.Frame.Ending
import Bitcoin.Proofs.Frame.Raw
import Bitcoin.Proofs.Frame.Relay
import Bitcoin.Proofs.Frame.Retry
import Bitcoin.Proofs.Frame.Steps
import Bitcoin.Proofs.Key.Exported
import Bitcoin.Proofs.Key.Imported
import Bitcoin.Proofs.Key.Outcome
import Bitcoin.Proofs.Key.Watching
import Bitcoin.Proofs.KeyTree.NextChild
import Bitcoin.Proofs.KeyTree.Order
import Bitcoin.Proofs.KeyTree.Replaced
import Bitcoin.Proofs.KeyTree.Search
import Bitcoin.Proofs.Message.CursorRequests
import Bitcoin.Proofs.Message.Delimited
import Bitcoin.Proofs.Message.Overlap
import Bitcoin.Proofs.Message.Preimage
import Bitcoin.Proofs.Message.RoundTrip
import Bitcoin.Proofs.Payload.Size
