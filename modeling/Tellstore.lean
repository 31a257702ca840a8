import Tellstore.Util.FixedSizeStack
import Tellstore.Util.StackThreads
import Tellstore.Server.SnapshotCache
import Tellstore.Server.Socket
import Tellstore.Deltamain.NewestPointer
import Tellstore.Deltamain.ColumnMap.Page
import Tellstore.Deltamain.ColumnMap.NeedsCleaning
import Tellstore.Deltamain.ColumnMap.Modifier
import Tellstore.Deltamain.ColumnMap.Clean
import Tellstore.Deltamain.ColumnMap.Relocation
import Tellstore.Deltamain.ColumnMap.WellFormed
import Tellstore.Deltamain.ColumnMap.Pass
import Tellstore.Deltamain.ColumnMap.Restart
import Tellstore.Deltamain.ColumnMap.Placement
import Tellstore.Deltamain.ColumnMap.LazyCopy
import Tellstore.Deltamain.ColumnMap.Budget
