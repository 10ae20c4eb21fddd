import Permesh.Core
import Permesh.Lib.Async
import Permesh.Lib.Reader
import Permesh.Lib.Schedule
import Permesh.Lib.ScheduleLaws
import Permesh.Native.Records
import Permesh.Native.Request
import Permesh.Native.Io
import Permesh.Native.Session
import Permesh.Laws.Native.Terminal
import Permesh.Laws.Native.Framing
import Permesh.Laws.Native.Gate
import Permesh.Laws.Native.Discovery
import Permesh.Laws.Native.Output
import Permesh.Laws.Native.Requests
import Permesh.Laws.Native.Ends
import Permesh.Laws.Native.Delivery
import Permesh.Laws.Native.Spoken
import Permesh.Laws.Github.Present
import Permesh.Laws.Github.Complete
import Permesh.Laws.Github.Closed
import Permesh.Laws.Github.Requests
import Permesh.Laws.Github.Budgets
import Permesh.Laws.Github.Retries
import Permesh.Laws.Github.GrantIds
import Permesh.Laws.Github.Session
import Permesh.Laws.Github.Organizations
import Permesh.Laws.Gitlab.Consistent
import Permesh.Laws.Gitlab.Listing
import Permesh.Laws.Gitlab.Budgets
import Permesh.Laws.Gitlab.Parents
import Permesh.Laws.Gitlab.Confined
import Permesh.Laws.Gitlab.Session
import Permesh.Laws.Gitlab.Scope
import Permesh.Laws.Entra.Observed
import Permesh.Laws.Entra.Budgets
import Permesh.Laws.Google.Pages
import Permesh.Laws.Google.Form
import Permesh.Laws.Google.Session
import Permesh.Laws.Cloudflare.Access
import Permesh.Laws.Cloudflare.Listing
import Permesh.Laws.Cloudflare.Order
import Permesh.Laws.Cloudflare.Reordered
import Permesh.Laws.Cloudflare.Session
import Permesh.Laws.Cloudflare.Budgets
import Permesh.Laws.Aws.Complete
import Permesh.Laws.Aws.Session
import Permesh.Laws.IdentityCenter.Complete
import Permesh.Laws.IdentityCenter.Transport
import Permesh.Laws.IdentityCenter.Session
import Permesh.Laws.Notices
