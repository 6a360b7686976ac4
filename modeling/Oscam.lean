import Oscam.Lib.Reach
import Oscam.Lib.PurgeSearch
import Oscam.Globals
import Oscam.Ecm.Cache
import Oscam.Ecm.CacheLifetime
import Oscam.Ecm.Server
import Oscam.Ecm.Dispatch
import Oscam.Ecm.Readers
import Oscam.Ecm.Places
import Oscam.Ecm.Delivery
import Oscam.Ecm.Tags
import Oscam.Ecm.CascAnswers
import Oscam.Ecm.Waiting
import Oscam.Ecm.Slots
import Oscam.Accounts.Reinit
import Oscam.Accounts.Failban
import Oscam.Accounts.AntiCascading
import Oscam.Protocol.EcmLength
import Oscam.Protocol.ClientRequest
import Oscam.Protocol.Camd35Stream
import Oscam.Protocol.Cmd05
import Oscam.Lib.Undo
import Oscam.Lib.Rotation
import Oscam.Lib.Feistel
import Oscam.Lib.Chaining
import Oscam.Protocol.NewcamdCard
import Oscam.Protocol.NewcamdFrame
import Oscam.Protocol.NewcamdDetect
import Oscam.Protocol.Gbox
import Oscam.Lib.Holds
import Oscam.Protocol.GboxCards
import Oscam.Protocol.GboxRecv
import Oscam.Protocol.GboxAnnounce
import Oscam.Protocol.RadegastEcm
import Oscam.Cscrypt.Des
import Oscam.Cscrypt.DesInverse
import Oscam.Csctapi.T1Block
import Oscam.Csctapi.ProtocolT1
import Oscam.Csctapi.T1Send
import Oscam.Csctapi.T1Response
import Oscam.Csctapi.T1Bounds
import Oscam.Csctapi.ProtocolT0
import Oscam.Csctapi.ProtocolT14
import Oscam.Csctapi.T0Exchange
import Oscam.Csctapi.T0Transfer
import Oscam.Csctapi.T0Bounds
import Oscam.Csctapi.T0Card
import Oscam.Csctapi.T0Extended
import Oscam.Csctapi.Atr
import Oscam.Csctapi.AtrGroups
import Oscam.Csctapi.AtrBounds
import Oscam.Csctapi.AtrAnswers
import Oscam.Csctapi.BlockWaiting
import Oscam.Lib.Separated
import Oscam.Simples
import Oscam.Config.Services
import Oscam.Lib.CutStack
import Oscam.Config.EcmWhitelist
import Oscam.Cccam.Card
import Oscam.Cccam.SendEcm
import Oscam.Cccam.CardChoice
import Oscam.Cccam.Cipher
import Oscam.Cccam.CwStep
import Oscam.Lib.Walk
import Oscam.Lib.Linked
import Oscam.LList.Ops
import Oscam.LList.Cells
import Oscam.LList.Iterators
import Oscam.LList.Sweep
import Oscam.LList.Runs
import Oscam.LList.Intact
import Oscam.LList.SingleIterator
import Oscam.Cccam.CardMessage
import Oscam.Cccam.CardRoundTrip
import Oscam.Cccam.Share
import Oscam.Cccam.ShareLimits
import Oscam.Cccam.ServerCards
import Oscam.Lib.BestEntries
import Oscam.Lib.FirstGreatest
import Oscam.Cccam.BestCards
import Oscam.Cccam.CardSids
import Oscam.Cccam.NextEcm
import Oscam.Cccam.UniqueAddress
import Oscam.Cccam.ShareList
import Oscam.Lib.Verdict
import Oscam.Cccam.ServiceFilters
import Oscam.Cccam.ReaderIds
import Oscam.Cccam.Login
import Oscam.Stat.Records
import Oscam.Stat.BestReader
import Oscam.Stat.ResultList
import Oscam.Stat.Distinct
import Oscam.Stat.Fallback
import Oscam.Stat.Budget
import Oscam.Stat.Lookup
import Oscam.Stat.Turns
import Oscam.Stat.Learned
import Oscam.Stat.PrimaryReaders
import Oscam.Stat.BestValue
import Oscam.Stat.LocalCards
import Oscam.Lib.RingBuffer
import Oscam.Stat.AddStat
import Oscam.Numerals
import Oscam.Stat.StatFile
import Oscam.Stat.StatLines
import Oscam.Stat.StatRoundTrip
import Oscam.Stat.RecordKeys
import Oscam.Monitor.Requests
import Oscam.Monitor.Packets
import Oscam.Monitor.Parked
import Oscam.Http.Templates
import Oscam.Http.Expansion
import Oscam.Lib.Places
import Oscam.Dvbapi.Demux
import Oscam.Dvbapi.Capmt
import Oscam.Dvbapi.Pids
import Oscam.Dvbapi.Loops
import Oscam.Dvbapi.Bounds
import Oscam.Dvbapi.CatBounds
import Oscam.Dvbapi.Reparse
import Oscam.Dvbapi.Events
import Oscam.Dvbapi.Update
import Oscam.Dvbapi.Descrambler
import Oscam.Lib.Prefix
import Oscam.Lib.Comparison
import Oscam.Ecm.BetaTunnel
import Oscam.Ecm.Nanos
import Oscam.Ecm.ClassNanos
import Oscam.Ecm.ProviderNanos
import Oscam.Ecm.Deadlines
import Oscam.Ecm.PollTimeout
import Oscam.Stat.Sorting
import Oscam.Stat.AverageTime
import Oscam.Stat.Touched
import Oscam.Stat.FailFactor
import Oscam.Reader.EmmCache
import Oscam.Reader.EmmPasses
import Oscam.Reader.ConnectBlock
import Oscam.Reader.RateLimit
import Oscam.ByteOrder
import Oscam.Cccam.CardCounts
import Oscam.Cccam.MessageSizes
import Oscam.Protocol.NewcamdFilters
import Oscam.Config.Printing
import Oscam.Config.CaidTables
import Oscam.Config.FilterTables
import Oscam.Config.WhitelistText
import Oscam.Config.PortTables
import Oscam.Config.PortTexts
import Oscam.Config.AesKeys
import Oscam.Config.AesLists
import Oscam.Http.XmlEncode
import Oscam.Http.Base64
import Oscam.Http.Params
import Oscam.Config.Timeouts
import Oscam.Config.CaidLookups
import Oscam.Config.ClassTables
import Oscam.Config.ListTexts
import Oscam.Accounts.AcSamples
import Oscam.Config.Srvids
import Oscam.Accounts.UserNames
import Oscam.Config.ServiceFile
import Oscam.Protocol.AlphaConvert
import Oscam.Config.Groups
import Oscam.Reader.Seca
import Oscam.Reader.EmmFilters
import Oscam.Lib.KeyOrder
import Oscam.Dvbapi.TryOrder
import Oscam.Log.LogSend
import Oscam.Reader.EmmPairs
import Oscam.Http.DigestAuth
import Oscam.Lib.Threads
import Oscam.Locks
import Oscam.Garbage
import Oscam.Reader.Viaccess
