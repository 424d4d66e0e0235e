import Kucomms.Machine
import Kucomms.Cyclic
import Kucomms.Spsc
import Kucomms.QueueRefinement
import Kucomms.LockedAdd
import Kucomms.ExclusiveOpen
import Kucomms.Lifecycle
import Kucomms.Unregister
import Kucomms.Delivery
import Kucomms.KernelBounds
import Kucomms.QueueReads
import Kucomms.CorruptIndices
import Kucomms.UserMapping
import Kucomms.SessionLedger
import Kucomms.Fairness
import Kucomms.KernelExit
import Kucomms.FailedOperations
import Kucomms.ValidatedCopies
import Kucomms.NameGrammar
import Kucomms.Observations
import Kucomms.Cadence
import Kucomms.RingBounds
import Kucomms.MappedOnce
import Kucomms.Expansion
import Kucomms.Messages
import Kucomms.Nodes
import Kucomms.Turns
import Kucomms.Network
import Kucomms.Handlers
import Kucomms.Pointers
import Kucomms.NetworkInvariant
import Kucomms.NetworkRules
import Kucomms.NetworkNodes
import Kucomms.NetworkTurns
import Kucomms.NetworkRuns
import Kucomms.LibraryManagers
import Kucomms.Echo
import Kucomms.ManagerTest
import Kucomms.Peers
import Kucomms.Longtest
import Kucomms.LongtestRuns
import Kucomms.LibTest
import Kucomms.MappedNetwork
import Kucomms.ReaderWriter
import Kucomms.QueueTest
import Kucomms.Senders
import Kucomms.KernelObjects
import Kucomms.ModuleLifetime
import Kucomms.StartStop
