import Stockly.EventMachine
import Stockly.Debounce
import Stockly.FanOut
import Stockly.LastWrite
import Stockly.RowTable
import Stockly.MarkSplit
import Stockly.MaximalRuns
import Stockly.PercentEncoding
import Stockly.PathSegments
import Stockly.LowercaseMapping
import Stockly.TextPattern
import Stockly.KeyTree
import Stockly.KeyTreePaths
import Stockly.BinaryFloat
import Stockly.Collection
import Stockly.DoubleText
import Stockly.DoubleSign
import Stockly.DataGetter
import Stockly.JGProgressHUD
import Stockly.WatchListNode
import Stockly.FirebaseAccounts
import Stockly.ProfileTableViewController
import Stockly.ProfileSteps
import Stockly.ProfileTimer
import Stockly.ProfileSymbols
import Stockly.ProfileRows
import Stockly.ProfileRefresh
import Stockly.ProfileNotification
import Stockly.ProfileOverlap
import Stockly.ProfileDelete
import Stockly.SearchViewController
import Stockly.SearchRows
import Stockly.SearchResults
import Stockly.SearchDebounce
import Stockly.RequestPaths
import Stockly.FetchCalls
import Stockly.StockController
import Stockly.StockLogos
import Stockly.SectorStockController
import Stockly.HomeTableViewController
import Stockly.HomeSections
import Stockly.HomeTableViewCell
import Stockly.KeyDataTable
import Stockly.StockLabels
import Stockly.SaveActions
import Stockly.SignUpViewController
import Stockly.NamePattern
import Stockly.EmailPattern
import Stockly.WelcomeViewController
import Stockly.SettingsViewController
import Stockly.UserNodes
import Stockly.SortedEntries
import Stockly.FLLRBNode
import Stockly.FLLRBBalance
import Stockly.FLLRBRemove
import Stockly.FTreeSortedDictionary
import Stockly.FTreeBuilder
import Stockly.FArraySortedDictionary
import Stockly.FImmutableSortedDictionary
import Stockly.FSortedEnumerators
import Stockly.FUtilities
import Stockly.FNextPushId
import Stockly.KeyedList
import Stockly.FPath
import Stockly.FNode
import Stockly.FImmutableTree
import Stockly.FCompoundWrite
import Stockly.FWriteTree
import Stockly.PendingWrites
import Stockly.EventCaches
import Stockly.FSnapshotUtilities
import Stockly.FPersistentConnection
import Stockly.ConnectionSteps
import Stockly.ConnectionInvariant
import Stockly.PutCallbacks
import Stockly.PutsToAck
import Stockly.PutsOnWire
import Stockly.ListensOnWire
import Stockly.Utf16
import Stockly.FWebSocketConnection
import Stockly.SocketFrames
