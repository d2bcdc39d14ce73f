import Sysintercept.Transparency
import Sysintercept.Lifetime
import Sysintercept.LoaderLock
import Sysintercept.Launches
import Sysintercept.Siblings
import Sysintercept.Children
import Sysintercept.Interception
import Sysintercept.Sessions
import Sysintercept.Objects
import Sysintercept.Ownership
import Sysintercept.Snapshots
