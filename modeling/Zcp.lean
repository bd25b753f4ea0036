import Zcp.Common.ECKeyTable.Lookup
import Zcp.Common.SortKeys
import Zcp.FreeBusy.LostEvents
import Zcp.FreeBusy.Recurrence.LastOccurrence
import Zcp.FreeBusy.Recurrence.Weeks
import Zcp.FreeBusy.FreeBusyUtil.RoundTrip
import Zcp.FreeBusy.FreeBusyUtil.Bounds
import Zcp.Libserver.ECLockManager.Exclusion
import Zcp.Libserver.ECSecurity.DeletedParent
import Zcp.Gateway.IMAP.ClientView
import Zcp.Libserver.StreamUtil.Framing
import Zcp.Client.ECExchangeImportContentsChanges.LostUpdates
import Zcp.Libserver.ECCacheManager.IndexData
import Zcp.Libserver.ECCacheManager.ACLs
import Zcp.Libserver.ECCacheManager.Objects
import Zcp.Libserver.ECSearchFolders.FlushEvents
import Zcp.Libserver.ZarafaCmd.ReadState
import Zcp.Mapi4linux.Rtf.Bounds
import Zcp.Common.StringUtil.Url
import Zcp.Common.StringUtil.LineEndings
import Zcp.Libserver.ECICSHelpers
import Zcp.Common.ECFifoBuffer.Flush
import Zcp.Common.SOAPUtils.SomeElement
import Zcp.Libserver.ECSubRestriction.OwnResults
import Zcp.M4lcommon.ECMemTable.FindRow
import Zcp.Libserver.ECSecurity.Groups
import Zcp.Libserver.ECSecurity.Inheritance
import Zcp.Common.ECSerializer.Skip
import Zcp.Client.ECExchangeImportContentsChanges.Scan
import Zcp.Client.ECExchangeImportContentsChanges.Decisions
import Zcp.Libserver.StreamUtil.Errors
import Zcp.Libserver.StreamUtil.Agreement
import Zcp.Libserver.ECGenericObjectTable.Content
import Zcp.Libserver.ECGenericObjectTable.PropTags
import Zcp.Common.ECMemStream.CopyTo
import Zcp.Common.Base64
import Zcp.Gateway.IMAP.Search.Translation
import Zcp.Gateway.IMAP.Search.Shortcuts
import Zcp.Gateway.IMAP.FolderNames
import Zcp.Common.ECTableRow.Prefixes
import Zcp.FreeBusy.Recurrence.MonthSteps
import Zcp.Common.TimeUtil.LocalTime
import Zcp.Libserver.ZarafaCmdUtil.SyncScope
import Zcp.FreeBusy.Recurrence.Exceptions
import Zcp.FreeBusy.Recurrence.FirstOccurrence
import Zcp.Common.ECThreadPool.Progress
import Zcp.Gateway.POP3.DotFilter
