import Dvnetos.Utils.StdioTruncation
import Dvnetos.Utils.StdioDigits
import Dvnetos.Utils.Bytes
import Dvnetos.Utils.StdioAppends
import Dvnetos.Utils.StdioNumerals
import Dvnetos.Utils.StringCompare
import Dvnetos.Utils.StdioScan
import Dvnetos.Utils.IntToString
import Dvnetos.Paging.Aarch64.Rebuild
import Dvnetos.Framebuffer.ConsoleTerminal
import Dvnetos.Framebuffer.ConsoleCursor
import Dvnetos.Framebuffer.ScreenPaint
import Dvnetos.Framebuffer.ScreenText
import Dvnetos.Framebuffer.ClearScreen
import Dvnetos.Framebuffer.GlyphFormat
import Dvnetos.Serial.BootLog
import Dvnetos.Image.KernelBoots
import Dvnetos.Smbios.TableVisits
import Dvnetos.Smbios.Entry
import Dvnetos.Smbios.MemorySizes
import Dvnetos.Memory.MemMap
import Dvnetos.Memory.PoolInvariant
import Dvnetos.Memory.ByteSessions
import Dvnetos.Memory.PoolContents
import Dvnetos.Memory.PoolOrder
import Dvnetos.Memory.ByteFailure
import Dvnetos.Paging.PageMaps
import Dvnetos.Paging.PoolUse
import Dvnetos.Paging.X86.PoolUse
import Dvnetos.Paging.Aarch64.PoolUse
import Dvnetos.Paging.X86.Remap
import Dvnetos.Paging.X86.MapWhole
import Dvnetos.Paging.X86.CallRuns
import Dvnetos.Paging.X86.ReadBack
import Dvnetos.Paging.MapPartial
import Dvnetos.Paging.RangeChoice
import Dvnetos.Paging.X86.Attributes
import Dvnetos.Utils.Panic
import Dvnetos.Utils.Panicf
import Dvnetos.Paging.Aarch64.MapEffect
import Dvnetos.Paging.Aarch64.CallRuns
import Dvnetos.Paging.Aarch64.WalkAddresses
import Dvnetos.Tools.WarningReport
import Dvnetos.Tools.WarningMerge
import Dvnetos.Tools.WarningNotes
import Dvnetos.Smbios.MappedReads
import Dvnetos.Tools.Bin2h
