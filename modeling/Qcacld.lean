import Qcacld.PeerRef
import Qcacld.FlowPoolConserve
import Qcacld.RxBlockAck
import Qcacld.RxIndication
import Qcacld.TxDescHlConserve
import Qcacld.RxDefrag
import Qcacld.RxPnReplay
import Qcacld.RxRing
import Qcacld.TxRefs
import Qcacld.HtcTrailer
import Qcacld.HtcTxConserve
import Qcacld.CeRing
import Qcacld.CeFast
import Qcacld.WmiTlvBounds
import Qcacld.DfsNol
import Qcacld.DfsEvents
import Qcacld.WlanLogging
import Qcacld.LimProtectionInv
import Qcacld.LimShort
import Qcacld.LimPreAuthRun
import Qcacld.LimIbss
import Qcacld.SapAcl
import Qcacld.CdsHwMode
import Qcacld.CdsMc
import Qcacld.CsrLinkList
import Qcacld.SapCac
import Qcacld.WmaReqRun
import Qcacld.TxSchedSelect
import Qcacld.RxInOrder
import Qcacld.TxDispatch
import Qcacld.LimSaQuery
import Qcacld.RxRecombine
import Qcacld.PktlogSend
import Qcacld.LimTdls
import Qcacld.TxDelay
import Qcacld.TxPeerBal
import Qcacld.TxComplete
import Qcacld.HtcBundle
import Qcacld.TxTsoConserve
import Qcacld.TxqLog
import Qcacld.TxLlPause
import Qcacld.LimSsid
import Qcacld.LimDeferred
import Qcacld.DfsTimestamp
import Qcacld.LimSuppChannels
import Qcacld.LimRatesMatch
import Qcacld.LimBandwidth
import Qcacld.DfsPhyerrTlv
import Qcacld.DfsBin5
import Qcacld.LimWepCodec
import Qcacld.CfgTxPower
import Qcacld.CdsSafeChan
import Qcacld.SapLeak
import Qcacld.CdsRegChan
import Qcacld.CdsMmieBytes
import Qcacld.CdsTempRemove
import Qcacld.RrmRequest
import Qcacld.TsoSegment
import Qcacld.CdfTrace
import Qcacld.DfsPriCheck
