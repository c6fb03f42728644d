import OutboxPattern.Consumer.Acknowledgement
import OutboxPattern.Consumer.ChangesDelivered
import OutboxPattern.Consumer.EventsDetected
import OutboxPattern.Guarantees.Answers
import OutboxPattern.Guarantees.Capacity
import OutboxPattern.Guarantees.ChangedFields
import OutboxPattern.Guarantees.ChangingPages
import OutboxPattern.Guarantees.Columns
import OutboxPattern.Guarantees.ConnectionPool
import OutboxPattern.Guarantees.Isolation
import OutboxPattern.Guarantees.Limits
import OutboxPattern.Guarantees.Progress
import OutboxPattern.Guarantees.Serializability
import OutboxPattern.Guarantees.Timestamps
import OutboxPattern.Guarantees.Totals
import OutboxPattern.Guarantees.VersionAudit
import OutboxPattern.Pipeline.AuditColumns
import OutboxPattern.Pipeline.Convergence
import OutboxPattern.Pipeline.Draining
import OutboxPattern.Pipeline.Monitor
import OutboxPattern.Pipeline.Registration
import OutboxPattern.Pipeline.StaleEvents
import OutboxPattern.Pipeline.Texts
