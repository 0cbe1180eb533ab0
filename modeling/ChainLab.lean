import ChainLab.Commit.Linear
import ChainLab.Commit.Relay
import ChainLab.Execution.AriaProgress
import ChainLab.Execution.BatchSI.FirstFit
import ChainLab.Execution.BlockSTM.MVMemory
import ChainLab.Execution.FailedTransaction
import ChainLab.Execution.GroundhogReplay
import ChainLab.Execution.GroundhogReserve
import ChainLab.Execution.Literature.AddressGraphSerial
import ChainLab.Execution.Literature.ConflictGraphSerial
import ChainLab.Execution.Porygon.Certificate
import ChainLab.Execution.Window
import ChainLab.Home.Fetch
import ChainLab.Home.Visibility
import ChainLab.Mempool.Integrity
import ChainLab.Pbft.Decision
import ChainLab.Pbft.Equivocation
import ChainLab.Pbft.Intersection
import ChainLab.Pbft.Leader
import ChainLab.Pbft.NewView
import ChainLab.Pbft.Retransmission
import ChainLab.Pbft.Safety.Network
import ChainLab.Pbft.VoteOrder
import ChainLab.Proposal.Compact
import ChainLab.State.Appliers
import ChainLab.State.Rotation
import ChainLab.Storage.ProposalCodec
