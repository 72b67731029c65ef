import DbtBigQuery.Text
import DbtBigQuery.Errors
import DbtBigQuery.Handler
import DbtBigQuery.Connection
import DbtBigQuery.Manager
import DbtBigQuery.System
import DbtBigQuery.Retry
import DbtBigQuery.Registry
import DbtBigQuery.Cancel
import DbtBigQuery.Progress
import DbtBigQuery.Isolation
import DbtBigQuery.Binary64
import DbtBigQuery.Response
import DbtBigQuery.Labels
