import Zona.FixedBytes
import Zona.BincodeLayout
import Zona.CheckedArithmetic
import Zona.HexText
import Zona.LabelledRuns
import Zona.NodeIdentity
import Zona.WeightedQuorum
import Zona.ValidatorSets
import Zona.Certificates
import Zona.EpochHeaders
import Zona.CommitteeRotations
import Zona.FinalityStates
import Zona.HashMaps
import Zona.LightClients
import Zona.AnchoredTrust
import Zona.PeerTables
import Zona.WireMessages
import Zona.DescriptorStores
import Zona.RateLimits
import Zona.CriticalRouting
import Zona.GreedyRouting
import Zona.NodeHandler
import Zona.EnvelopeGuards
import Zona.NodeRuns
import Zona.EndToEndDelivery
import Zona.CriticalForks
import Zona.RelayServers
import Zona.ServerNetworks
import Zona.CallCorrelation
import Zona.PayloadFidelity
import Zona.ClientConvergence
import Zona.CheckpointBudgets
import Zona.FinalityRuns
import Zona.CrossNodeAgreement
import Zona.StoreConvergence
import Zona.TableInsertions
import Zona.AdminNodes
import Zona.Introductions
import Zona.ProvenPeers
import Zona.ReferrerLabels
import Zona.RelayTermination
import Zona.SelfRoutes
import Zona.MessageRounds
import Zona.NetworkSimulators
import Zona.Quiescence
import Zona.DiversitySlots
import Zona.ForwardingBounds
import Zona.FreshWalks
import Zona.GreedyWalks
import Zona.LateResponses
import Zona.RelayDeliveries
import Zona.RelayLoops
import Zona.TableCapacity
import Zona.LongJumpSeeding
import Zona.QuorumJustification
import Zona.AuthenticAdverts
import Zona.BincodeDecoding
import Zona.EnvelopeFrames
import Zona.Invites
import Zona.SignatureDomains
import Zona.CertificateVerdicts
import Zona.EpochChains
import Zona.InviteIssuers
import Zona.IterationOrders
import Zona.PartitionIsolation
import Zona.PeerUrls
import Zona.SimReproducibility
import Zona.Snapshots
import Zona.TrainRestarts
import Zona.AnswerFullness
import Zona.DeadPeerTraffic
import Zona.FixedWindows
import Zona.InsertionReports
import Zona.LimiterWindows
import Zona.ReplyLimits
import Zona.Republishing
import Zona.RouteInspection
import Zona.Binary64
import Zona.Binary64Percentiles
import Zona.BodyStatistics
import Zona.CanonicalQueries
import Zona.ClosestSelection
import Zona.LockedReads
import Zona.MaskProfiles
import Zona.ProfileOrder
import Zona.ProfilePanics
import Zona.RouteReadiness
import Zona.StatusSnapshots
import Zona.ZoneTables
import Zona.Base64Text
import Zona.CurlClients
import Zona.CurlServers
import Zona.LatchedQueues
import Zona.TeachPipelines
import Zona.CallHistories
import Zona.CertifiedFollowers
import Zona.ClientAgreement
import Zona.JoiningNetworks
import Zona.PacketApis
import Zona.SimulatedNetworks
import Zona.MappedValues
import Zona.StoreFiles
import Zona.StoreRestarts
