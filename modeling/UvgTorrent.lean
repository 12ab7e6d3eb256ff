import UvgTorrent.Foundations.MachineIntegers
import UvgTorrent.Foundations.ByteStrings
import UvgTorrent.Foundations.AllocatedBlocks
import UvgTorrent.Foundations.HostOrder
import UvgTorrent.Foundations.PointerChains
import UvgTorrent.Foundations.FallibleRuns
import UvgTorrent.Outcomes
import UvgTorrent.Containers.Bitfields
import UvgTorrent.Containers.BitfieldRefinement
import UvgTorrent.Containers.HashMaps
import UvgTorrent.Containers.HashMapCells
import UvgTorrent.Containers.HashMapSimulation
import UvgTorrent.Containers.HashMapRefinement
import UvgTorrent.Containers.Queues
import UvgTorrent.Containers.QueueRuns
import UvgTorrent.ThreadPools.Threads
import UvgTorrent.ThreadPools.JobDelivery
import UvgTorrent.TorrentData.State
import UvgTorrent.TorrentData.ChunkWriting
import UvgTorrent.TorrentData.Geometry
import UvgTorrent.TorrentData.PieceFiles
import UvgTorrent.TorrentData.PieceWrites
import UvgTorrent.TorrentData.ChunkSteps
import UvgTorrent.TorrentData.ChunkEffects
import UvgTorrent.TorrentData.Setup
import UvgTorrent.TorrentData.Initialisation
import UvgTorrent.TorrentData.Tiling
import UvgTorrent.TorrentData.PieceStorage
import UvgTorrent.Downloads.Completion
import UvgTorrent.Downloads.Integrity
import UvgTorrent.Downloads.Assembly
import UvgTorrent.Claims.ClaimList
import UvgTorrent.Claims.ClaimSteps
import UvgTorrent.Claims.Exclusivity
import UvgTorrent.Claims.ClaimBatches
import UvgTorrent.Sockets.BufferedSockets
import UvgTorrent.Sockets.StreamIntegrity
import UvgTorrent.Sockets.ReadBuffers
import UvgTorrent.Sockets.IncomingStreams
import UvgTorrent.Downloads.Accounting
import UvgTorrent.Foundations.Scanners
import UvgTorrent.Foundations.Tilings
import UvgTorrent.Foundations.LexicalPaths
import UvgTorrent.Foundations.Comparators
import UvgTorrent.Foundations.PrefixParsers
import UvgTorrent.Bencode.Nodes
import UvgTorrent.Bencode.Decoding
import UvgTorrent.Peers.Connections
import UvgTorrent.Peers.Handshakes
import UvgTorrent.Peers.MessageReading
import UvgTorrent.Peers.Framing
import UvgTorrent.Peers.Serving
import UvgTorrent.Peers.JobScheduling
import UvgTorrent.Peers.MetadataRequests
import UvgTorrent.Peers.MetadataRaces
import UvgTorrent.Peers.MetadataClaims
import UvgTorrent.TorrentData.RangeReading
import UvgTorrent.TorrentData.PieceGathering
import UvgTorrent.TorrentData.ScatterGather
import UvgTorrent.TorrentData.RangeTermination
import UvgTorrent.TorrentData.RangeContents
import UvgTorrent.TorrentData.PieceCompleteness
import UvgTorrent.Downloads.DigestComparison
import UvgTorrent.Torrents.DataMessages
import UvgTorrent.Torrents.RequestAgreement
import UvgTorrent.Torrents.BlockPlacement
import UvgTorrent.Trackers.Recovery
import UvgTorrent.Trackers.Patience
import UvgTorrent.Trackers.AnnounceRequest
import UvgTorrent.Trackers.AnnouncedPeers
import UvgTorrent.Trackers.AnnounceIntervals
import UvgTorrent.Torrents.MetadataMessages
import UvgTorrent.Torrents.PathBuffers
import UvgTorrent.Torrents.Configuration
import UvgTorrent.Torrents.PathContainment
import UvgTorrent.Peers.Messages
import UvgTorrent.Peers.Running
import UvgTorrent.Peers.RunDecompositions
import UvgTorrent.Peers.RunEffects
import UvgTorrent.Peers.SilentPeers
import UvgTorrent.Peers.Traffic
import UvgTorrent.Peers.ConnectAttempts
import UvgTorrent.Peers.TorrentIdentity
import UvgTorrent.Peers.BitfieldSizes
import UvgTorrent.Peers.HandlerReturns
import UvgTorrent.Peers.BufferOwnership
import UvgTorrent.Peers.ChunksOfInterest
import UvgTorrent.Peers.BitfieldExchange
import UvgTorrent.Peers.PendingRequests
import UvgTorrent.Peers.InitialisationRaces
import UvgTorrent.Torrents.FrameBounds
import UvgTorrent.Torrents.Advertising
import UvgTorrent.Torrents.PeerRegistry
import UvgTorrent.Torrents.PeerListing
import UvgTorrent.Torrents.PeerRuns
import UvgTorrent.Torrents.UploadSlots
import UvgTorrent.Torrents.RegularSlots
import UvgTorrent.Torrents.MagnetLinks
import UvgTorrent.Torrents.MagnetRoundTrips
import UvgTorrent.Foundations.BlockConsumers
import UvgTorrent.Sha1.Transform
import UvgTorrent.Sha1.Standard
import UvgTorrent.Sha1.Contexts
import UvgTorrent.Sha1.Digests
import UvgTorrent.Foundations.PrefixPrinters
import UvgTorrent.Bencode.RoundTrips
import UvgTorrent.Foundations.BoundedWriters
import UvgTorrent.Bencode.Encoding
import UvgTorrent.Foundations.Framings
import UvgTorrent.Foundations.RequestReplies
import UvgTorrent.Torrents.Transfers
import UvgTorrent.Peers.EncodedMessages
import UvgTorrent.Peers.Listening
import UvgTorrent.Peers.Conversations
import UvgTorrent.Torrents.RequestedChunks
import UvgTorrent.Peers.InformedPeers
import UvgTorrent.Peers.MetadataAsks
import UvgTorrent.Torrents.MetadataTransfers
