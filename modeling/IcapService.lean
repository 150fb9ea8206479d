import IcapService.Lib.CInt
import IcapService.Lib.CString
import IcapService.Lib.Buffer
import IcapService.Lib.Chunked
import IcapService.Lib.Machine
import IcapService.NetIo
import IcapService.Request
import IcapService.Response
import IcapService.ChunkParser
import IcapService.ChunkProgress
import IcapService.ChunkRoundTrip
import IcapService.BodyReader
import IcapService.ChunkSoundness
import IcapService.GetSendBody
import IcapService.Emission
import IcapService.SendRemaining
import IcapService.Delivery
import IcapService.Lib.Ring
import IcapService.DoRequest
import IcapService.BodyRound
import IcapService.Drain
import IcapService.Headers
import IcapService.HeaderBlock
import IcapService.HeaderLines
import IcapService.HeaderRuns
import IcapService.HeaderPass
import IcapService.Encapsulated
import IcapService.Framing
import IcapService.EncapsHeaders
import IcapService.IcapHeader
import IcapService.GwRebuild
import IcapService.ContentLength
import IcapService.Quiet
import IcapService.OneStatus
import IcapService.GwService
import IcapService.WholeBlocks
import IcapService.Acl
import IcapService.ChildProcess
import IcapService.ChildStats
import IcapService.ExecProg
import IcapService.AdaptationOutcome
import IcapService.Lib.DotNet
import IcapService.ProxyApp
import IcapService.Correlation
import IcapService.HandlerOrder
import IcapService.Lib.Ledger
import IcapService.GwLifecycle
import IcapService.GwOwnership
import IcapService.WholeBody
import IcapService.AclConfig
import IcapService.IpNetwork
import IcapService.AclTime
import IcapService.ReadRow
import IcapService.Lib.Chains
import IcapService.LookupTable
import IcapService.UserGroup
import IcapService.SimpleFifo
import IcapService.CachedFile
import IcapService.MemBuf
import IcapService.Base64
import IcapService.HttpAuth
import IcapService.RingBuf
import IcapService.Lib.Linked
import IcapService.LocalCache
import IcapService.CacheInvariant
import IcapService.Lib.Words
import IcapService.SharedCache
import IcapService.SharedCacheSlots
import IcapService.SharedCacheReads
import IcapService.GwSizes
import IcapService.Statistics
import IcapService.TemplateCache
import IcapService.AclTypes
import IcapService.FormatTable
import IcapService.FormatText
import IcapService.TemplatePath
import IcapService.Decompress
import IcapService.DecompressContract
import IcapService.OutcomeStats
import IcapService.ChunkAccounting
import IcapService.CiList
import IcapService.ListRefinement
import IcapService.Lib.Insertion
import IcapService.ListSort
import IcapService.Base64Encode
import IcapService.UrlDecode
import IcapService.ConfigArgs
import IcapService.PreviewHex
import IcapService.MagicDb
import IcapService.Filetype
import IcapService.BufferPool
import IcapService.ObjectPool
import IcapService.SerialAllocator
import IcapService.MonitorSlots
import IcapService.ChildPopulation
import IcapService.EchoService
import IcapService.PoolAllocator
import IcapService.ClientEcho
import IcapService.ClientReply
