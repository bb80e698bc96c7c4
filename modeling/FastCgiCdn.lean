import FastCgiCdn.BucketIndex
import FastCgiCdn.GuardedRuns
import FastCgiCdn.DnsModel
import FastCgiCdn.DnsAddressGuard
import FastCgiCdn.DnsSchedule
import FastCgiCdn.PoolModel
import FastCgiCdn.PoolWellFormed
import FastCgiCdn.PoolStranding
import FastCgiCdn.MeasuredLoop
import FastCgiCdn.ChunkFraming
import FastCgiCdn.HttpModel
import FastCgiCdn.ChunkCuts
import FastCgiCdn.HeadModel
import FastCgiCdn.HeadReading
import FastCgiCdn.BodyReading
import FastCgiCdn.HeadCuts
import FastCgiCdn.ResponseReading
import FastCgiCdn.ConnectionModel
import FastCgiCdn.ConnectionReuse
import FastCgiCdn.DownloadModel
import FastCgiCdn.DownloadCommits
import FastCgiCdn.ClientModel
import FastCgiCdn.CacheKeys
import FastCgiCdn.BackendRequest
import FastCgiCdn.CallbackOnce
import FastCgiCdn.DnsReplies
import FastCgiCdn.ClientOutput
import FastCgiCdn.Delivery
import FastCgiCdn.OneDocument
import FastCgiCdn.OutputBuffer
import FastCgiCdn.CleanRetry
import FastCgiCdn.NameRegistry
import FastCgiCdn.PathMaps
import FastCgiCdn.SingleFlight
import FastCgiCdn.CacheFile
import FastCgiCdn.ChunkRoundTrip
import FastCgiCdn.FieldValues
import FastCgiCdn.HeadLines
import FastCgiCdn.HeadScanning
import FastCgiCdn.LengthFraming
import FastCgiCdn.CacheFields
import FastCgiCdn.Freshness
import FastCgiCdn.TransactionIds
import FastCgiCdn.RecordCuts
import FastCgiCdn.DatagramReads
import FastCgiCdn.NameWalk
import FastCgiCdn.FirstAddress
import FastCgiCdn.ParamReads
import FastCgiCdn.QueryBounds
import FastCgiCdn.RequestDecoding
import FastCgiCdn.BackendOutput
import FastCgiCdn.DeadOrigin
import FastCgiCdn.SuffixTests
import FastCgiCdn.DecoderProgress
import FastCgiCdn.FileFraming
import FastCgiCdn.HexCodec
import FastCgiCdn.PoolOutcomes
import FastCgiCdn.EmptyLists
import FastCgiCdn.PendingFlag
import FastCgiCdn.TimedOut
import FastCgiCdn.CacheExpiry
import FastCgiCdn.Sweep
import FastCgiCdn.TimeoutPass
import FastCgiCdn.ConnectionLimit
import FastCgiCdn.LastReferences
import FastCgiCdn.LoopInvariant
import FastCgiCdn.Reclamation
import FastCgiCdn.CacheVolume
import FastCgiCdn.PublishedFiles
import FastCgiCdn.AddressOrigin
import FastCgiCdn.Budgets
import FastCgiCdn.DnsEffort
import FastCgiCdn.CacheHits
import FastCgiCdn.EntityTags
import FastCgiCdn.RenewedPages
