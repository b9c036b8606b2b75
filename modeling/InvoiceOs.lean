import InvoiceOs.Approval.CatchAll
import InvoiceOs.Approval.Decision
import InvoiceOs.Approval.Directory
import InvoiceOs.Approval.Engine
import InvoiceOs.Approval.Ledger
import InvoiceOs.Approval.Match
import InvoiceOs.Approval.Policy
import InvoiceOs.Approval.PolicyRuns
import InvoiceOs.Approval.PolicyStore
import InvoiceOs.Approval.Runs
import InvoiceOs.Approval.StepRows
import InvoiceOs.Approval.StepTexts
import InvoiceOs.Approval.TextsStored
import InvoiceOs.Approval.TreeStored
import InvoiceOs.Archive.Bundle
import InvoiceOs.Archive.Complete
import InvoiceOs.Archive.Counts
import InvoiceOs.Archive.Download
import InvoiceOs.Archive.Ids
import InvoiceOs.Archive.Placed
import InvoiceOs.Archive.Stages
import InvoiceOs.Archive.Whole
import InvoiceOs.Archive.Workspace
import InvoiceOs.Audit.ClientScope
import InvoiceOs.Audit.CursorText
import InvoiceOs.Audit.Filter
import InvoiceOs.Audit.Kept
import InvoiceOs.Audit.OneState
import InvoiceOs.Audit.Paging
import InvoiceOs.Audit.Reader
import InvoiceOs.Audit.Snapshots
import InvoiceOs.Builder.Edits
import InvoiceOs.Builder.Lanes
import InvoiceOs.Builder.Nodes
import InvoiceOs.Builder.NothingLost
import InvoiceOs.Builder.Predicted
import InvoiceOs.Builder.UuidText
import InvoiceOs.Builder.Wire
import InvoiceOs.Concurrency.CreditCap
import InvoiceOs.Concurrency.RuleSaves
import InvoiceOs.Concurrency.Step
import InvoiceOs.Concurrency.Stranded
import InvoiceOs.Concurrency.Task
import InvoiceOs.Concurrency.Verdicts
import InvoiceOs.CustomRule.History
import InvoiceOs.CustomRule.Revision
import InvoiceOs.Customers.Directory
import InvoiceOs.Customers.Kept
import InvoiceOs.Customers.Replay
import InvoiceOs.Db
import InvoiceOs.Deletion.Calls
import InvoiceOs.Deletion.CarriedOn
import InvoiceOs.Deletion.Exclusive
import InvoiceOs.Deletion.Life
import InvoiceOs.Errors
import InvoiceOs.Extraction.AIDecides
import InvoiceOs.Extraction.AIMerge
import InvoiceOs.Extraction.AIReading
import InvoiceOs.Extraction.Agreement
import InvoiceOs.Extraction.Aligned
import InvoiceOs.Extraction.Alignment
import InvoiceOs.Extraction.Candidates
import InvoiceOs.Extraction.Competing
import InvoiceOs.Extraction.Corrections
import InvoiceOs.Extraction.Dates
import InvoiceOs.Extraction.LineMerge
import InvoiceOs.Extraction.Lines
import InvoiceOs.Extraction.LinesMerged
import InvoiceOs.Extraction.Merge
import InvoiceOs.Extraction.MonotoneMatch
import InvoiceOs.Extraction.OneOutcome
import InvoiceOs.Extraction.PrintedAmounts
import InvoiceOs.Extraction.Projections
import InvoiceOs.Extraction.Reconcile
import InvoiceOs.Extraction.Reordered
import InvoiceOs.Extraction.Resolve
import InvoiceOs.Extraction.ResultRows
import InvoiceOs.Extraction.Review
import InvoiceOs.Extraction.Rules
import InvoiceOs.Extraction.Shapes
import InvoiceOs.Extraction.Tokens
import InvoiceOs.Extraction.Worker
import InvoiceOs.Gateway.SessionChecker
import InvoiceOs.Gateway.SignInCap
import InvoiceOs.Gateway.SignInThrottle
import InvoiceOs.Gateway.SignedOut
import InvoiceOs.Importer.Accounted
import InvoiceOs.Importer.Amounts
import InvoiceOs.Importer.Cells
import InvoiceOs.Importer.Columns
import InvoiceOs.Importer.Created
import InvoiceOs.Importer.Grouping
import InvoiceOs.Importer.Import
import InvoiceOs.Importer.Predicts
import InvoiceOs.Importer.Rows
import InvoiceOs.Importer.Sheet
import InvoiceOs.Invitations.Cap
import InvoiceOs.Invitations.Mails
import InvoiceOs.Invoice.ApprovedContent
import InvoiceOs.Invoice.BatchReport
import InvoiceOs.Invoice.BatchSubmit
import InvoiceOs.Invoice.Content
import InvoiceOs.Invoice.ContentStream
import InvoiceOs.Invoice.CreditedNotes
import InvoiceOs.Invoice.DraftTotals
import InvoiceOs.Invoice.Edit
import InvoiceOs.Invoice.Effect
import InvoiceOs.Invoice.Fingerprint
import InvoiceOs.Invoice.LineCarry
import InvoiceOs.Invoice.LinesKept
import InvoiceOs.Invoice.NoteAmounts
import InvoiceOs.Invoice.NoteChecks
import InvoiceOs.Invoice.NoteKobo
import InvoiceOs.Invoice.Request
import InvoiceOs.Invoice.Row
import InvoiceOs.Invoice.SameMoney
import InvoiceOs.Invoice.Search
import InvoiceOs.Invoice.Status
import InvoiceOs.Invoice.Store
import InvoiceOs.Invoice.TaxSubtotals
import InvoiceOs.Invoice.Validator
import InvoiceOs.Invoice.VatBreakdown
import InvoiceOs.Invoice.Worker
import InvoiceOs.Lib.Apportion
import InvoiceOs.Lib.Base64
import InvoiceOs.Lib.Chunks
import InvoiceOs.Lib.Condition
import InvoiceOs.Lib.Csv
import InvoiceOs.Lib.Digits
import InvoiceOs.Lib.Each
import InvoiceOs.Lib.Firsts
import InvoiceOs.Lib.FixedWindow
import InvoiceOs.Lib.Framing
import InvoiceOs.Lib.Interleave
import InvoiceOs.Lib.Journal
import InvoiceOs.Lib.Keyed
import InvoiceOs.Lib.Keyset
import InvoiceOs.Lib.Least
import InvoiceOs.Lib.Like
import InvoiceOs.Lib.Matching
import InvoiceOs.Lib.OrderBy
import InvoiceOs.Lib.Refusal
import InvoiceOs.Lib.Run
import InvoiceOs.Lib.Table
import InvoiceOs.Lib.Timestamp
import InvoiceOs.Lib.Trim
import InvoiceOs.Lib.Utf8
import InvoiceOs.Lib.Weave
import InvoiceOs.Lib.Xml
import InvoiceOs.Notifications.Contact
import InvoiceOs.Notifications.Erase
import InvoiceOs.Notifications.Erased
import InvoiceOs.Notifications.EveryFact
import InvoiceOs.Notifications.Facts
import InvoiceOs.Notifications.Merge
import InvoiceOs.Notifications.NoCopy
import InvoiceOs.Numeric
import InvoiceOs.Reconciliation.Ledger
import InvoiceOs.Reconciliation.Sweep
import InvoiceOs.RuleDesk.Calls
import InvoiceOs.RuleDesk.InForce
import InvoiceOs.RuleDesk.Journal
import InvoiceOs.RuleDesk.Lifecycle
import InvoiceOs.RuleDesk.Moves
import InvoiceOs.RuleDesk.Past
import InvoiceOs.RuleDesk.Probed
import InvoiceOs.RuleDesk.Published
import InvoiceOs.RuleDesk.Versions
import InvoiceOs.Submission.Cancellation
import InvoiceOs.Submission.Canonical
import InvoiceOs.Submission.Cycle
import InvoiceOs.Submission.Delivery
import InvoiceOs.Submission.Effect
import InvoiceOs.Submission.Job
import InvoiceOs.Submission.Keys
import InvoiceOs.Submission.Moves
import InvoiceOs.Submission.OneVerdict
import InvoiceOs.Submission.PollChain
import InvoiceOs.Submission.RateLimit
import InvoiceOs.Submission.Replay
import InvoiceOs.Submission.SafeBody
import InvoiceOs.Submission.SendAgain
import InvoiceOs.Submission.Worker
import InvoiceOs.Tenancy.Calls
import InvoiceOs.Tenancy.LastAdmin
import InvoiceOs.Tenancy.LastSigner
import InvoiceOs.Tenancy.Members
import InvoiceOs.Tenancy.Signers
import InvoiceOs.Text
import InvoiceOs.Ubl.Document
import InvoiceOs.Ubl.ReadBack
import InvoiceOs.Ubl.Tree
import InvoiceOs.Ubl.WellFormed
import InvoiceOs.Validation.CollectAll
import InvoiceOs.Validation.Engine
import InvoiceOs.Validation.Evaluators
import InvoiceOs.Validation.OneRule
import InvoiceOs.Validation.Payload
