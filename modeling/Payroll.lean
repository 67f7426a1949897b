import Payroll.Formula.Direct
import Payroll.Formula.Review
import Payroll.Json.Printer
import Payroll.Json.Reader
import Payroll.Proofs.Calendar.Months
import Payroll.Proofs.Formula.Alarms
import Payroll.Proofs.Formula.Divisors
import Payroll.Proofs.Formula.Operands
import Payroll.Proofs.Formula.Replay
import Payroll.Proofs.Formula.Storage
import Payroll.Proofs.Formula.Transparency
import Payroll.Proofs.Formula.Unambiguous
import Payroll.Proofs.Formula.Validity
import Payroll.Proofs.Pay.Bands
import Payroll.Proofs.Pay.Lines
import Payroll.Proofs.Pay.Monotone
import Payroll.Proofs.Pay.Preview
import Payroll.Proofs.Pay.Scales
import Payroll.Proofs.Pay.Tiers
import Payroll.Proofs.Pay.Unused
import Payroll.Proofs.Plan.Order
import Payroll.Proofs.Registry.History
import Payroll.Proofs.Registry.Provenance
import Payroll.Proofs.Registry.Transparency
import Payroll.Registry
import Payroll.Settings.Document
