import ForkReplay.Assembly
import ForkReplay.Chain.Sample
import ForkReplay.Json.Reader
import ForkReplay.Main
import ForkReplay.State.MemoryState
import ForkReplay.Proofs.Lookups
import ForkReplay.Proofs.BlockOrder
import ForkReplay.Proofs.BlockReplay
import ForkReplay.Proofs.SeparateReplays
import ForkReplay.Proofs.Planning
import ForkReplay.Proofs.ListingForms
import ForkReplay.Proofs.WireForms
import ForkReplay.Proofs.LockOrder
import ForkReplay.Proofs.ForkQueries
import ForkReplay.Proofs.StandIn
import ForkReplay.Proofs.Operations
import ForkReplay.Proofs.RevertText
import ForkReplay.Proofs.HexArguments
import ForkReplay.Proofs.RawRevert
import ForkReplay.Proofs.FiledCodes
import ForkReplay.Proofs.FailureTexts
import ForkReplay.Proofs.ReturnedData
import ForkReplay.Proofs.Counters
import ForkReplay.Proofs.BlobSeries
import ForkReplay.Proofs.PriceWidth
import ForkReplay.Proofs.CompleteBlocks
import ForkReplay.Proofs.CodeScan
import ForkReplay.Proofs.HeadOrder
import ForkReplay.Proofs.ForkSchedule
import ForkReplay.Proofs.HexRefusals
import ForkReplay.Proofs.Endpoints
import ForkReplay.Proofs.SignerRefunds
import ForkReplay.Proofs.Designators
