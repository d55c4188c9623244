import Rusdis.Commits
import Rusdis.Complete
import Rusdis.Pipe
import Rusdis.Session
import Rusdis.Answers
import Rusdis.Dialogue
import Rusdis.Eager
import Rusdis.LastWrite
import Rusdis.Scanner
import Rusdis.Rdb
import Rusdis.RdbImage
import Rusdis.Admin
import Rusdis.Slots
import Rusdis.Calls
import Rusdis.Linear
import Rusdis.Atomic
import Rusdis.RdbContent
import Rusdis.RdbGrammar
import Rusdis.RdbText
import Rusdis.Incr
import Rusdis.Checked
import Rusdis.Glob
import Rusdis.Keys
import Rusdis.Panics
import Rusdis.BufReader
import Rusdis.Handover
import Rusdis.Startup
import Rusdis.Options
import Rusdis.Nesting
import Rusdis.Counter
import Rusdis.Slices
import Rusdis.Handshake
import Rusdis.RdbChecked
import Rusdis.RdbLoop
import Rusdis.Progress
import Rusdis.Serve
import Rusdis.Asks
import Rusdis.Relay
import Rusdis.Stream
import Rusdis.Replication
import Rusdis.Attach
import Rusdis.Words
import Rusdis.Count
import Rusdis.Registers
import Rusdis.Replicas
import Rusdis.Cut
import Rusdis.Catchup
import Rusdis.Settle
import Rusdis.Outlive
import Rusdis.Beside
