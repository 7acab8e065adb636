import Sider.Storage.CoordinatorRefines
import Sider.Storage.Observation
import Sider.Storage.MemberTtl
import Sider.Persistence.LogFile
import Sider.Persistence.Canonical
import Sider.Replication.FullSync
import Sider.Resp.RoundTrip
import Sider.Command.Size
import Sider.Security.Confinement
import Sider.Connection.Activation
