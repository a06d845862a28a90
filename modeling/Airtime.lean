import Airtime.Document.Json
import Airtime.Main
import Airtime.Proofs.Atomic
import Airtime.Proofs.BeamReport
import Airtime.Proofs.BlockLife
import Airtime.Proofs.Booking
import Airtime.Proofs.CellStep
import Airtime.Proofs.ChannelMaps
import Airtime.Proofs.Commuting
import Airtime.Proofs.Conservation
import Airtime.Proofs.Counting
import Airtime.Proofs.Directions
import Airtime.Proofs.Fairness
import Airtime.Proofs.FillShares
import Airtime.Proofs.Pool
import Airtime.Proofs.PoolQueue
import Airtime.Proofs.Precedence
import Airtime.Proofs.Queues
import Airtime.Proofs.RoundTrip
import Airtime.Proofs.SidelinkAtomic
import Airtime.Proofs.SidelinkGrant
import Airtime.Proofs.SidelinkLedger
import Airtime.Proofs.SidelinkSlot
import Airtime.Proofs.SidelinkStep
import Airtime.Proofs.Simulation
import Airtime.Proofs.SimulatorSlot
import Airtime.Proofs.SlotRange
import Airtime.Proofs.Statistics
import Airtime.Proofs.Totals
import Airtime.Proofs.Traffic
import Airtime.Proofs.MaxRate
import Airtime.Proofs.Schemes
import Airtime.Proofs.SidelinkSchemes
import Airtime.Proofs.Delivery
import Airtime.Proofs.Draining
import Airtime.Proofs.SlotOrder
