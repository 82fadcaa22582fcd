import AdvancedSlop.TransitionSystem
import AdvancedSlop.Agenda
import AdvancedSlop.CycleManager
import AdvancedSlop.CallHandlers
import AdvancedSlop.NextEvent
import AdvancedSlop.EventGrid
import AdvancedSlop.ThreadRegs
import AdvancedSlop.CpuInterrupt
import AdvancedSlop.WakeUp
import AdvancedSlop.Timers
import AdvancedSlop.TimerCascade
import AdvancedSlop.ReloadCounter
import AdvancedSlop.TimerCounter
import AdvancedSlop.Session
import AdvancedSlop.SavestateRestore
import AdvancedSlop.JitInvalidation
import AdvancedSlop.JitStaleness
import AdvancedSlop.LiveCoverage
import AdvancedSlop.WriteProtection
import AdvancedSlop.RegisterBanks
import AdvancedSlop.SaveBuffer
import AdvancedSlop.Cartridge
import AdvancedSlop.FlashChip
import AdvancedSlop.SerialWord
import AdvancedSlop.EepromChip
import AdvancedSlop.SaveAddressing
import AdvancedSlop.IoLut
import AdvancedSlop.DmaChannels
import AdvancedSlop.FastPath
import AdvancedSlop.BulkWrite
import AdvancedSlop.BulkRead
import AdvancedSlop.AccessOrder
import AdvancedSlop.DmaTransfer
import AdvancedSlop.TransferLaw
import AdvancedSlop.Rtc
import AdvancedSlop.SavestateTree
import AdvancedSlop.SavestateFileLaw
import AdvancedSlop.JitAllocator
import AdvancedSlop.SoundSampler
import AdvancedSlop.BlockTransferLaw
import AdvancedSlop.PcWrites
import AdvancedSlop.MemorySession
import AdvancedSlop.DerivedState
import AdvancedSlop.BitScan
import AdvancedSlop.ImmEvents
import AdvancedSlop.ReturnStack
import AdvancedSlop.RingQueue
import AdvancedSlop.SoundFifo
import AdvancedSlop.SoundFifoLaw
import AdvancedSlop.InstInfo
import AdvancedSlop.AsmAnalyzer
import AdvancedSlop.BasicBlocks
import AdvancedSlop.RegAlloc
import AdvancedSlop.RegAllocLaw
import AdvancedSlop.Relocation
import AdvancedSlop.WordArith
import AdvancedSlop.DataProcessing
import AdvancedSlop.InterpreterAlu
import AdvancedSlop.ThumbAlu
import AdvancedSlop.Disassembler
import AdvancedSlop.CycleParity
import AdvancedSlop.ReadTree
import AdvancedSlop.GuestTree
import AdvancedSlop.IdleLoop
import AdvancedSlop.FixedFifo
import AdvancedSlop.RewindRing
import AdvancedSlop.ByteReader
import AdvancedSlop.InstLog
import AdvancedSlop.TopTwo
import AdvancedSlop.PpuCompose
import AdvancedSlop.PpuMemory
import AdvancedSlop.PpuBackgrounds
import AdvancedSlop.PpuSprites
import AdvancedSlop.PpuScanline
import AdvancedSlop.CheckedRun
import AdvancedSlop.Apu
import AdvancedSlop.RenderSync
import AdvancedSlop.RenderHandshake
import AdvancedSlop.TokenStream
import AdvancedSlop.Uncompress
import AdvancedSlop.InterruptFrame
import AdvancedSlop.DirtyMirror
import AdvancedSlop.VideoDirty
import AdvancedSlop.FrameSnapshot
import AdvancedSlop.Monitor
import AdvancedSlop.RenderWait
import AdvancedSlop.ParkToken
import AdvancedSlop.PauseGate
import AdvancedSlop.SavestateDialog
import AdvancedSlop.WriteBack
import AdvancedSlop.SaveFile
import AdvancedSlop.HostCode
