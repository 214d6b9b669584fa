import Monierave.Api.BoundedString
import Monierave.Api.BreachCache
import Monierave.Api.Lists
import Monierave.Api.LoginLimit
import Monierave.Api.MoneyMovement
import Monierave.Api.TransferHash
import Monierave.Banking.Announcements
import Monierave.Banking.Deadlocks
import Monierave.Banking.History
import Monierave.Banking.Lifecycle
import Monierave.Banking.Limits
import Monierave.Banking.Migration
import Monierave.Banking.Once
import Monierave.Banking.Reconciliation
import Monierave.Banking.Records
import Monierave.Banking.Success
import Monierave.Emails.Audits
import Monierave.Emails.DeadLetters
import Monierave.Frontend.Amounts
import Monierave.Frontend.Passwords
import Monierave.Frontend.ReturnPath
import Monierave.Users.AddressChanges
import Monierave.Users.Addresses
import Monierave.Users.Convergence
import Monierave.Users.Deliverability
import Monierave.Users.Lifecycle
import Monierave.Users.Passwords
import Monierave.Users.Rotation
import Monierave.Users.Verification
