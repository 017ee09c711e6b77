import S390Tools.Vtoc.FreeGuard
import S390Tools.Vtoc.FreeSet
import S390Tools.Fdasd.NumberRun
import S390Tools.Fdasd.Ways
import S390Tools.Fdasd.Prompt
import S390Tools.Cpuplugd.History
import S390Tools.Cmsfs.ReadBack
import S390Tools.Cmsfs.Trim
import S390Tools.Dump2tar.Queue
import S390Tools.Dump2tar.Archive
import S390Tools.Zdev.ModprobeRun
import S390Tools.Zdev.SelectRun
import S390Tools.Hyptop.Snapshot
import S390Tools.Zipl.Stage2Blocks
import S390Tools.Vmur.Transfer
import S390Tools.Zdump.LkcdRun
import S390Tools.Hmcdrvfs.FuseRun
import S390Tools.Iucvterm.Worker
import S390Tools.Zdsfs.Read
import S390Tools.Zipl.MenuRun
import S390Tools.Cmsfs.FixedScanRun
import S390Tools.Libzds.TrackBuffer
import S390Tools.Ziomon.FramerRun
import S390Tools.Zipl.DumpTargets
import S390Tools.Zipl.AddressRun
import S390Tools.Zipl.ScanRun
import S390Tools.Cpuplugd.Print
import S390Tools.Zipl.AutomenuRun
import S390Tools.Dump2tar.ReadFd
import S390Tools.Zdev.CioIgnoreRun
import S390Tools.Zdev.SettingOrder
import S390Tools.Zdev.Device
import S390Tools.Zdev.UdevExact
import S390Tools.Zdump.ElfHeaderRun
import S390Tools.Zdev.IdExact
import S390Tools.Zdev.QethAutoExact
import S390Tools.Ziomon.DeviceFilter
import S390Tools.Zipl.CommandLine
import S390Tools.Zipl.TrackIo
import S390Tools.Zdump.VmcoreinfoInit
import S390Tools.Libzds.FindElement
import S390Tools.Dasdfmt.Expand
import S390Tools.Zipl.Kdump3Exact
import S390Tools.Zdev.SettingLists
import S390Tools.Libutil.UtilListRun
import S390Tools.Ziomon.Timeframe
import S390Tools.Zipl.BootMenu
