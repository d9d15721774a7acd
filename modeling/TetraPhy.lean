import TetraPhy.CallFsm.Aach
import TetraPhy.CallFsm.Clash
import TetraPhy.CallFsm.Frame
import TetraPhy.CallFsm.MaskShown
import TetraPhy.CallFsm.Ringing
import TetraPhy.CallFsm.SoftRange
import TetraPhy.CallFsm.VoiceHandover
import TetraPhy.CallFsm.VoiceRelay
import TetraPhy.CallFsm.Watchdog
import TetraPhy.Codec.EtsiDecoder
import TetraPhy.Codec.Sch
import TetraPhy.Codec.SingleError
import TetraPhy.Codec.Speech
import TetraPhy.Codec.SpeechOverflow
import TetraPhy.Daemon.CmceDispatch
import TetraPhy.Daemon.DemandConsumers
import TetraPhy.Daemon.DemandHandover
import TetraPhy.Daemon.GroupReply
import TetraPhy.Daemon.GroupSequence
import TetraPhy.Daemon.LocationUpdate
import TetraPhy.Daemon.SdsFidelity
import TetraPhy.Daemon.SdsSchedule
import TetraPhy.Infra.AxiRegs
import TetraPhy.Lib.BitWalk
import TetraPhy.Lib.Buffer
import TetraPhy.Lib.Cordic
import TetraPhy.Lib.Filter
import TetraPhy.Lib.FirstMin
import TetraPhy.Lib.IntegratorComb
import TetraPhy.Lib.OptionalParts
import TetraPhy.Lib.Probing
import TetraPhy.Lib.RegisterTrellis
import TetraPhy.Lmac.AachCode
import TetraPhy.Lmac.DropCounter
import TetraPhy.Lmac.GrantAccounting
import TetraPhy.Lmac.HalfSlotReplies
import TetraPhy.Lmac.Interleavers
import TetraPhy.Lmac.LocationUpdateAccept
import TetraPhy.Lmac.NwrkWindow
import TetraPhy.Lmac.QueueHistory
import TetraPhy.Lmac.ReplyHistory
import TetraPhy.Lmac.RxChain
import TetraPhy.Lmac.SchHdRequests
import TetraPhy.Rx.BurstAnchor
import TetraPhy.Rx.ControlBursts
import TetraPhy.Rx.DemandChains
import TetraPhy.Rx.DownlinkFraming
import TetraPhy.Rx.DownlinkReceiver
import TetraPhy.Rx.FragmentAccounting
import TetraPhy.Rx.LongChains
import TetraPhy.Rx.LongDelivery
import TetraPhy.Rx.LongReadout
import TetraPhy.Rx.NubReadout
import TetraPhy.Rx.ParsedPath
import TetraPhy.Rx.PhaseDecision
import TetraPhy.Rx.Pi4DqpskDemod
import TetraPhy.Rx.ReassemblyAgreement
import TetraPhy.Rx.RxFrontend
import TetraPhy.Rx.SequenceNumbers
import TetraPhy.Rx.SoftAgreement
import TetraPhy.Rx.TimingRecovery
import TetraPhy.Rx.UlBlockTail
import TetraPhy.Rx.UlSchFRoundTrip
import TetraPhy.Rx.UlSchHuBlocks
import TetraPhy.Rx.UlSchHuBuffers
import TetraPhy.Rx.UlSchHuDecoder
import TetraPhy.Rx.UlViterbiBlocks
import TetraPhy.Sw.BodyWriter
import TetraPhy.Sw.CmceDecodable
import TetraPhy.Sw.CmceDownlinkPdu
import TetraPhy.Sw.CmceParser
import TetraPhy.Sw.CmceSdsData
import TetraPhy.Sw.DbFile
import TetraPhy.Sw.GroupAck
import TetraPhy.Sw.MmDemandBounds
import TetraPhy.Sw.MmDemandGroups
import TetraPhy.Sw.MmDemandParser
import TetraPhy.Sw.MmDemandPdu
import TetraPhy.Sw.MmDemandWalk
import TetraPhy.Sw.UlRxStale
import TetraPhy.Tx.AachChains
import TetraPhy.Tx.AachTiming
import TetraPhy.Tx.BschAgreement
import TetraPhy.Tx.BschTiming
import TetraPhy.Tx.FillerBanks
import TetraPhy.Tx.Pi4DqpskMod
import TetraPhy.Tx.RrcFilter
import TetraPhy.Tx.SlotPrefetch
import TetraPhy.Tx.TimebaseLoads
import TetraPhy.Tx.TxFrontend
