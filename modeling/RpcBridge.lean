import RpcBridge.Files.Tree
import RpcBridge.Dispatch.Call
import RpcBridge.Dispatch.Directory
import RpcBridge.Main
import RpcBridge.Proofs.Client.Restore
import RpcBridge.Proofs.Client.Supported
import RpcBridge.Proofs.Wire.Written
import RpcBridge.Proofs.Client.Image
import RpcBridge.Proofs.Client.Absent
import RpcBridge.Proofs.Client.Received
import RpcBridge.Proofs.Client.Prepare
import RpcBridge.Proofs.Dispatch.Input
import RpcBridge.Proofs.Wire.KeyNames
import RpcBridge.Proofs.Wire.Echo
import RpcBridge.Proofs.Wire.Missing
import RpcBridge.Proofs.Wire.Spellings
import RpcBridge.Proofs.Wire.Taken
import RpcBridge.Proofs.Client.Serialize
import RpcBridge.Proofs.Client.Sent
import RpcBridge.Proofs.Client.Arrives
import RpcBridge.Proofs.Client.Identifiers
import RpcBridge.Proofs.Client.Opened
import RpcBridge.Proofs.Client.Undisturbed
import RpcBridge.Proofs.Client.Unbound
import RpcBridge.Proofs.Procedure.Reached
import RpcBridge.Proofs.Dispatch.Directory
import RpcBridge.Proofs.Dispatch.Modes
import RpcBridge.Proofs.Dispatch.Absent
import RpcBridge.Proofs.Client.AnyKeys
import RpcBridge.Proofs.Client.Emitted
import RpcBridge.Proofs.Client.WellScoped
import RpcBridge.Proofs.Client.Grammar
import RpcBridge.Proofs.Client.Reaches
import RpcBridge.Proofs.Client.Moved
import RpcBridge.Proofs.Client.Directions
import RpcBridge.Proofs.Client.History
import RpcBridge.Proofs.Wire.Declared
import RpcBridge.Proofs.Wire.Paths
import RpcBridge.Proofs.Wire.Located
import RpcBridge.Proofs.Value.Sameness
import RpcBridge.Proofs.Wire.Settled
import RpcBridge.Proofs.Descriptor.Composition
import RpcBridge.Proofs.Client.Context
import RpcBridge.Proofs.Client.Catalog
