import NativeBoundary.Kem.Agreement
import NativeBoundary.Proofs.Memory.Holders
import NativeBoundary.Scenario.Files
import NativeBoundary.Scenario.Run
import NativeBoundary.Proofs.Memory.Accounts
import NativeBoundary.Proofs.Memory.Pools
import NativeBoundary.Proofs.Memory.Scopes
import NativeBoundary.Proofs.Memory.Ledger
import NativeBoundary.Proofs.Memory.Owners
import NativeBoundary.Proofs.Memory.Frees
import NativeBoundary.Proofs.Memory.Faithful
import NativeBoundary.Proofs.Memory.WipeBeforeRelease
import NativeBoundary.Proofs.Process.Entries
import NativeBoundary.Proofs.Process.Operations
import NativeBoundary.Proofs.Process.Honest
import NativeBoundary.Proofs.Process.ReleasedOnce
import NativeBoundary.Proofs.Call.Restores
import NativeBoundary.Proofs.Call.Body
import NativeBoundary.Proofs.Call.Copies
import NativeBoundary.Proofs.Call.Neutral
import NativeBoundary.Proofs.Transport.OutParameters
import NativeBoundary.Proofs.Memory.Consumed
import NativeBoundary.Proofs.Handles.Bindings
import NativeBoundary.Proofs.Memory.Delivery
import NativeBoundary.Proofs.Kem.Outcomes
import NativeBoundary.Proofs.Kem.Slots
import NativeBoundary.Proofs.Kem.Observations
import NativeBoundary.Proofs.Memory.BatchCodec
import NativeBoundary.Proofs.Memory.Extents
import NativeBoundary.Proofs.Handles.Histories
import NativeBoundary.Proofs.Transport.Links
import NativeBoundary.Proofs.Transport.MeshDelivery
import NativeBoundary.Proofs.Kem.KeyAgreement
import NativeBoundary.Proofs.Memory.Places
import NativeBoundary.Proofs.Memory.Attempts
import NativeBoundary.Proofs.Process.Shortage
import NativeBoundary.Proofs.Memory.CleanPools
import NativeBoundary.Proofs.Process.Tending
import NativeBoundary.Proofs.Process.PoolHistories
import NativeBoundary.Proofs.Memory.Contents
import NativeBoundary.Proofs.Process.Loans
import NativeBoundary.Proofs.Process.Teardown
import NativeBoundary.Proofs.Process.OpenScopes
import NativeBoundary.Proofs.Process.ForeignBatches
import NativeBoundary.Proofs.Process.Marshalling
import NativeBoundary.Proofs.Transport.Contexts
import NativeBoundary.Proofs.Handles.Roles
import NativeBoundary.Proofs.Process.Workers
import NativeBoundary.Proofs.Process.Isolation
import NativeBoundary.Proofs.Transport.Outcomes
import NativeBoundary.Proofs.Transport.InTurn
import NativeBoundary.Proofs.Call.PublicWipes
import NativeBoundary.Proofs.Call.ErrorKinds
import NativeBoundary.Proofs.Config.Nearest
import NativeBoundary.Proofs.Toml.Numerals
import NativeBoundary.Proofs.Toml.Lines
import NativeBoundary.Proofs.Config.Overlay
import NativeBoundary.Proofs.Config.Saved
import NativeBoundary.Proofs.Process.Lengths
