import TraceFS.Lib.Run
import TraceFS.Lib.Polling
import TraceFS.Lib.Framing
import TraceFS.Lib.Records
import TraceFS.Lib.Blocks
import TraceFS.Lib.Access
import TraceFS.Lib.ByteMemory
import TraceFS.Lib.Rv32im
import TraceFS.Lib.Rv32imSymbolic
import TraceFS.Lib.WordCopy
import TraceFS.Lib.BitSlices
import TraceFS.Lib.Numerals
import TraceFS.Lib.ShellText
import TraceFS.Lib.MaskedWrites
import TraceFS.Lib.Interrupts
import TraceFS.Lib.Preemption
import TraceFS.Lib.NumberedNames
import TraceFS.Lib.Layers
import TraceFS.Lib.BubbleSort
import TraceFS.Firmware.CTrace
import TraceFS.Firmware.CTraceProtocol
import TraceFS.Firmware.Scheduler
import TraceFS.Firmware.SchedulerRefinement
import TraceFS.Firmware.SchedulerDispatch
import TraceFS.Firmware.SchedulerTrace
import TraceFS.Firmware.SchedulerCounts
import TraceFS.Firmware.Application
import TraceFS.Firmware.ApplicationTrace
import TraceFS.Firmware.ApplicationFinish
import TraceFS.Firmware.ApplicationResponse
import TraceFS.Firmware.ApplicationSchedule
import TraceFS.Firmware.Hal
import TraceFS.Firmware.Handler
import TraceFS.Firmware.HandlerTicks
import TraceFS.Firmware.HandlerNesting
import TraceFS.Firmware.HandlerRun
import TraceFS.Firmware.TimerStopped
import TraceFS.Firmware.TrapEntry
import TraceFS.Firmware.TrapTransparency
import TraceFS.Firmware.TrapNesting
import TraceFS.Firmware.TrapResume
import TraceFS.Firmware.TrapRefinement
import TraceFS.Tools.Udp2nexus
import TraceFS.Tools.Udp2nexusSegments
import TraceFS.Tools.Udplog
import TraceFS.Tools.UdplogShort
import TraceFS.Tools.Udp2nexusPaths
import TraceFS.Tools.Transmission
import TraceFS.Tools.MemLoader
import TraceFS.Tools.MemDump
import TraceFS.Tools.Sessions
import TraceFS.Scripts.CfgTrace
import TraceFS.Scripts.CfgTraceDevice
import TraceFS.Scripts.CfgTraceRows
import TraceFS.Scripts.CfgTraceTable
import TraceFS.Scripts.CfgTraceCalls
import TraceFS.Scripts.CfgTraceChecks
import TraceFS.Scripts.CfgTraceVerified
import TraceFS.Scripts.CfgTraceMain
import TraceFS.Scripts.CfgTraceFaults
import TraceFS.Scripts.CtraceCmd
import TraceFS.Scripts.CfgEth
import TraceFS.Scripts.CfgEthWords
import TraceFS.Scripts.CfgEthGrammar
import TraceFS.Firmware.Shutdown
import TraceFS.Firmware.ShutdownFinal
import TraceFS.Firmware.Startup
import TraceFS.Firmware.StartupRun
import TraceFS.Firmware.StartupEntry
import TraceFS.Firmware.FromReset
import TraceFS.Firmware.Leds
import TraceFS.Firmware.LedInterleaving
import TraceFS.Firmware.Start
import TraceFS.Firmware.TrapVector
import TraceFS.Firmware.AsmTest
import TraceFS.Firmware.ApplicationBuild
import TraceFS.Firmware.Scenarios
import TraceFS.Firmware.ScenariosRanges
import TraceFS.Firmware.TraceContexts
import TraceFS.Firmware.TraceContextsRuns
