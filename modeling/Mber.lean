import Mber.Runs
import Mber.SharedSequences
import Mber.AuthManager
import Mber.LoginPipeline
import Mber.LoginRefinement
import Mber.ReportedLogin
import Mber.ProfileWrites
import Mber.RegistrationAttempt
import Mber.RegistrationPipeline
import Mber.RegistrationRefinement
import Mber.Coordinators
import Mber.ReachableWorlds
import Mber.RegistrationExit
import Mber.Logout
import Mber.BeforeHandover
import Mber.CoordinatorTree
import Mber.NavigationStack
import Mber.Application
import Mber.HomeEntry
import Mber.EmailAddress
import Mber.FormControls
import Mber.FormSubmission
import Mber.Location
import Mber.Scheduling
import Mber.DeliveredEvents
import Mber.Bags
import Mber.Trampolines
import Mber.DisposedOnce
import Mber.SharedStreams
import Mber.LoginStreams
import Mber.LoginIndicator
import Mber.RegistrationIndicator
import Mber.CoordinatorLifecycles
import Mber.KeychainUse
import Mber.RefreshGoesOn
import Mber.RefreshBackoff
