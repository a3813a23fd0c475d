import Srsenb.Base.Common
import Srsenb.Base.Run
import Srsenb.Base.StdMap
import Srsenb.Base.TwoWay
import Srsenb.Base.Pool
import Srsenb.Base.Rounds
import Srsenb.Base.Funds
import Srsenb.Base.Unwinding
import Srsenb.Base.RoundRobin
import Srsenb.Base.While
import Srsenb.Base.Vectors
import Srsenb.Base.Ranges
import Srsenb.Upper.S1ap
import Srsenb.Upper.S1apIds
import Srsenb.Upper.S1apRelease
import Srsenb.Upper.Gtpu
import Srsenb.Upper.GtpuBearers
import Srsenb.Upper.Pucch
import Srsenb.Upper.Rrc
import Srsenb.Upper.RrcSteps
import Srsenb.Upper.RrcStates
import Srsenb.Upper.RrcErabs
import Srsenb.Upper.RrcErabsCtxt
import Srsenb.Upper.Paging
import Srsenb.Upper.PagingKept
import Srsenb.Upper.RrcS1ap
import Srsenb.Upper.Orphans
import Srsenb.Upper.RrcBuffers
import Srsenb.Upper.ErabLcids
import Srsenb.Upper.RrcLcg
import Srsenb.Upper.RrcNas
import Srsenb.Upper.PucchAccount
import Srsenb.Upper.PucchSlots
import Srsenb.Mac.Lib
import Srsenb.Mac.Harq
import Srsenb.Mac.SchedUe
import Srsenb.Mac.McsSearch
import Srsenb.Mac.Metric
import Srsenb.Mac.Sched
import Srsenb.Mac.MacState
import Srsenb.Mac.MacUsers
import Srsenb.Mac.MacStop
import Srsenb.Mac.RntiReuse
import Srsenb.Mac.UlPdu
import Srsenb.Mac.BsrCount
import Srsenb.Mac.CrntiCe
import Srsenb.Mac.SoftBuffers
import Srsenb.Mac.RxBuffers
import Srsenb.Mac.RarGrants
import Srsenb.Mac.RarBacked
import Srsenb.Mac.Msg3
import Srsenb.Mac.NewData
import Srsenb.Mac.RarSlots
import Srsenb.Mac.Phich
import Srsenb.Mac.PhichRuns
import Srsenb.Mac.HarqRetx
import Srsenb.Mac.HarqFeedback
import Srsenb.Mac.ConRes
import Srsenb.Mac.DlCalls
import Srsenb.Mac.UlCalls
import Srsenb.Mac.TxBound
import Srsenb.Mac.DlMetricSpec
import Srsenb.Mac.RbgMasks
import Srsenb.Mac.Grants
import Srsenb.Mac.DlRounds
import Srsenb.Mac.DlRbgs
import Srsenb.Mac.UlMetricSpec
import Srsenb.Mac.UlRbs
import Srsenb.Mac.Cce
import Srsenb.Mac.ListBounds
import Srsenb.Mac.DataBounds
import Srsenb.Mac.PduBytes
import Srsenb.Mac.Layers
import Srsenb.Mac.LcGroups
import Srsenb.Mac.RarWindow
import Srsenb.Mac.Format1a
import Srsenb.Mac.Type2
import Srsenb.Mac.PrachGuard
import Srsenb.Mac.SrCollision
import Srsenb.Mac.SiWindows
import Srsenb.Mac.UlDemand
import Srsenb.Mac.UlAllocation
import Srsenb.Mac.UlBookkeeping
import Srsenb.Mac.RoundRobin
import Srsenb.Mac.WorkConserving
import Srsenb.Mac.RetxBlocks
import Srsenb.Mac.Demand
import Srsenb.Mac.DemandCalls
import Srsenb.Mac.SrCalls
import Srsenb.Mac.Mch
import Srsenb.Phy.Worker
import Srsenb.Phy.Pusch
import Srsenb.Phy.PuschReports
import Srsenb.Phy.AckFlags
import Srsenb.Phy.AckRuns
import Srsenb.Phy.TxRing
import Srsenb.Phy.GrantRing
import Srsenb.Phy.Mbsfn
import Srsenb.Phy.PrachWorker
import Srsenb.Enb.PrachCheck
import Srsenb.Enb.HexToBytes
import Srsenb.Upper.Sibs
import Srsenb.Upper.Rlc
import Srsenb.Upper.Pdcp
import Srsenb.Stack.Stack
import Srsenb.Stack.StackUsers
import Srsenb.Stack.RrcIsolation
import Srsenb.Stack.Isolation
import Srsenb.Stack.Tunnels
import Srsenb.Stack.Removed
import Srsenb.Stack.Requests
import Srsenb.Stack.BufferStates
import Srsenb.Trace.OffOn
import Srsenb.Trace.OffOnDist
import Srsenb.Trace.Synth
import Srsenb.Trace.Usage
import Srsenb.Trace.Framing
import Srsenb.Trace.UsagePrbs
import Srsenb.Trace.HourOffTimes
import Srsenb.Trace.Strangeness
import Srsenb.Trace.Segment
import Srsenb.Trace.SegFit
import Srsenb.Trace.GetRate
import Srsenb.Trace.PerRnti
import Srsenb.Trace.PacketRows
import Srsenb.Trace.TaUpdates
