import Amnezia.Lib.Runs
import Amnezia.Lib.Fields
import Amnezia.Lib.LinkedSet
import Amnezia.Lib.Loops
import Amnezia.Java.Text
import Amnezia.Crypto.Key
import Amnezia.Libc.Strings
import Amnezia.Config.Attribute
import Amnezia.Config.Inet
import Amnezia.Config.Interface
import Amnezia.Config.Config
import Amnezia.Config.Parsed
import Amnezia.Config.Lists
import Amnezia.Config.RoundTrip
import Amnezia.Config.Stored
import Amnezia.Config.Document
import Amnezia.Config.Equality
import Amnezia.Tools.Encoding
import Amnezia.Tools.Config
import Amnezia.Tools.AwgQuick
import Amnezia.Tools.PrintedLine
import Amnezia.Tools.PrintedConfig
import Amnezia.Tools.PrintedPeer
import Amnezia.Tools.Printed
import Amnezia.Tools.PrintedDevice
import Amnezia.Tools.KernelPath
import Amnezia.Tools.ReachesKernel
import Amnezia.Backend.Tunnel
import Amnezia.Backend.AwgQuick
import Amnezia.Backend.AwgQuickRuns
import Amnezia.Backend.WgGo
import Amnezia.Backend.Go
import Amnezia.Backend.GoStates
import Amnezia.Backend.GoRuns
import Amnezia.Backend.GoService
import Amnezia.Databinding.SortedKeyedList
import Amnezia.Model.TunnelName
import Amnezia.Model.TunnelState
import Amnezia.Model.TunnelRequests
import Amnezia.Model.TunnelRequestsRuns
import Amnezia.Backend.GoStatistics
import Amnezia.Backend.Handshake
import Amnezia.Backend.Notifications
import Amnezia.Backend.Statistics
import Amnezia.Backend.StatusJobs
import Amnezia.Backend.StatusJobsRuns
import Amnezia.Backend.WgGoResources
import Amnezia.Config.Blocks
import Amnezia.Config.Inet4
import Amnezia.Config.Reader
import Amnezia.Config.Userspace
import Amnezia.ConfigStore.FileConfigStore
import Amnezia.ConfigStore.StoreNames
import Amnezia.Crypto.KeyText
import Amnezia.Databinding.ItemChangeListener
import Amnezia.Databinding.SortedKeyedOrder
import Amnezia.Java.Files
import Amnezia.Java.LiveReader
import Amnezia.Lib.Batches
import Amnezia.Lib.Comparators
import Amnezia.Lib.Encodings
import Amnezia.Lib.Intervals
import Amnezia.Lib.Links
import Amnezia.Lib.Netlink
import Amnezia.Lib.Positional
import Amnezia.Model.ConnectionStatus
import Amnezia.Model.KernelManager
import Amnezia.Model.ManagerRequests
import Amnezia.Model.NaturalOrder
import Amnezia.Model.Reconnection
import Amnezia.Model.RunningTunnels
import Amnezia.Model.ServerSync
import Amnezia.Model.ServerSyncRunning
import Amnezia.Model.StoredManager
import Amnezia.Model.TunnelConfig
import Amnezia.Preference.ExportImport
import Amnezia.Preference.ZipExporter
import Amnezia.Tools.Base64Key
import Amnezia.Tools.CoalescePeers
import Amnezia.Tools.Command
import Amnezia.Tools.Dump
import Amnezia.Tools.GetDevice
import Amnezia.Tools.Handshakes
import Amnezia.Tools.HexKey
import Amnezia.Tools.KernelBuffer
import Amnezia.Tools.KernelFragments
import Amnezia.Tools.KernelSet
import Amnezia.Tools.KeyText
import Amnezia.Tools.MagicHeader
import Amnezia.Tools.NetworkPrefix
import Amnezia.Tools.NullStrings
import Amnezia.Tools.Numeric
import Amnezia.Tools.ParseOptions
import Amnezia.Tools.ReadDevice
import Amnezia.Tools.Refused
import Amnezia.Tools.SetDnses
import Amnezia.Tools.SetUsers
import Amnezia.Tools.Setconf
import Amnezia.Tools.Showconf
import Amnezia.Tools.StringList
import Amnezia.Tools.Syncconf
import Amnezia.Tools.Uapi
import Amnezia.Tools.UapiRead
import Amnezia.Tools.UapiRoundTrip
import Amnezia.Tools.UidList
import Amnezia.Tools.Uint16
import Amnezia.Tools.UserspaceRoundTrip
import Amnezia.Util.NetworkState
import Amnezia.Util.RootShell
import Amnezia.Util.TunnelImporter
import Amnezia.Viewmodel.PrivateIps
import Amnezia.Viewmodel.PrivateIpsCovered
import Amnezia.Viewmodel.PrivateIpsResolve
import Amnezia.Viewmodel.PrivateIpsRuns
import Amnezia.Viewmodel.PrivateIpsUndo
import Amnezia.Viewmodel.Proxy
import Amnezia.Viewmodel.Typed
import Amnezia.Viewmodel.Unedited
import Amnezia.Widget.NameInputFilter
