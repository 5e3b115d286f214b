import Openlia.Operator.Migration.JobRuns
import Openlia.Operator.Migration.Atomicity
import Openlia.Operator.Migration.Recover
import Openlia.Operator.Migration.Terminal
import Openlia.Policy.Permissions
import Openlia.Policy.FileWrites
import Openlia.Browser.Operations
import Openlia.Chat.OneRun
import Openlia.Chat.Record
import Openlia.Usage.CountedOnce
import Openlia.Usage.IntakeRuns
import Openlia.Cli.HostIdentity
import Openlia.Operator.Skills.ActivationSafe
import Openlia.Operator.Skills.PatchRoundTrip
import Openlia.Operator.Skills.RebaseInstalled
import Openlia.Operator.Backup.Confined
import Openlia.Ingestion.PasswordMap
import Openlia.Operator.Migration.Isolation
import Openlia.Ingestion.References
import Openlia.Operator.Skills.InterruptedRemoval
import Openlia.Shares.Status
import Openlia.Workspace.Unharmed
import Openlia.Operator.Migration.IntakeRetry
import Openlia.Operator.Migration.Progress
import Openlia.Ingestion.QueueRuns
import Openlia.Ingestion.RecoveryRuns
import Openlia.Ingestion.Service
import Openlia.Ingestion.CaptureRuns
import Openlia.Operator.Skills.SyncCrash
import Openlia.Operator.Backup.Schedule
import Openlia.Operator.Backup.RemoteRetained
import Openlia.Operator.Instructions.Reviewed
import Openlia.Operator.Instructions.Resumed
import Openlia.Operator.WorkspaceMigrate.Unmixed
import Openlia.Cron.Preserved
import Openlia.Export.Decodable
import Openlia.Finance.Conserved
import Openlia.Auth.Validity
import Openlia.Operator.Features.Applied
import Openlia.Workspace.SkillFilesInside
import Openlia.Records.Toggled
import Openlia.Operator.Instructions.Diff
import Openlia.Operator.Templates.Version
import Openlia.Operator.Features.InstalledInOrder
import Openlia.Operator.Backup.Retained
import Openlia.Records.Overlaid
import Openlia.Operator.Skills.MigrationAtomic
import Openlia.Lib.RegexMatches
import Openlia.Ingestion.PagesPublished
import Openlia.Ingestion.Uncited
import Openlia.Cron.Expressions
import Openlia.Operator.Skills.DirectoryHash
import Openlia.Client.RouteRoundTrip
import Openlia.Client.WallTimeResolved
import Openlia.Client.WeekLayout
import Openlia.Lib.Tally
