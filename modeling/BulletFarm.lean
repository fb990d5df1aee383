import BulletFarm.Interaction.Program
import BulletFarm.Interaction.Environment
import BulletFarm.Interaction.Versioned
import BulletFarm.Json.Value
import BulletFarm.Json.Text
import BulletFarm.Operator.Go
import BulletFarm.Operator.Types
import BulletFarm.Operator.Payload
import BulletFarm.Operator.Controller
import BulletFarm.Operator.Calls
import BulletFarm.Operator.TaskRun
import BulletFarm.Operator.Phases
import BulletFarm.Operator.Wakeups
import BulletFarm.Operator.ReadErrors
import BulletFarm.Operator.Cluster
import BulletFarm.Operator.Merge
import BulletFarm.Interaction.Effect
import BulletFarm.Operator.Namespace
import BulletFarm.Worker.Python
import BulletFarm.Worker.Types
import BulletFarm.Worker.Memory
import BulletFarm.Worker.Elastic
import BulletFarm.Worker.Graduate
import BulletFarm.Worker.Agent
import BulletFarm.Worker.Startup
import BulletFarm.Worker.Flush
import BulletFarm.Worker.Token
import BulletFarm.Worker.Routes
import BulletFarm.System.Teardown
import BulletFarm.Worker.PullRequests
import BulletFarm.Worker.Regraduate
import BulletFarm.Worker.Duplicates
import BulletFarm.Interaction.Observer
import BulletFarm.Worker.Outage
import BulletFarm.Operator.Backoff
import BulletFarm.Operator.Leaks
import BulletFarm.Operator.Reasons
import BulletFarm.Worker.Registry
import BulletFarm.System.Fleet
import BulletFarm.System.PullRequestURL
import BulletFarm.System.Completion
import BulletFarm.System.ReadyForReview
import BulletFarm.Worker.Outcome
import BulletFarm.System.Outcome
import BulletFarm.Worker.Ending
import BulletFarm.Git.Repository
import BulletFarm.Worker.Answer
import BulletFarm.Worker.Evaluation
import BulletFarm.Worker.Workspace
import BulletFarm.Interaction.Triple
import BulletFarm.Worker.NothingStaged
import BulletFarm.Worker.Attempts
import BulletFarm.Worker.Server
import BulletFarm.Worker.ToolsCalled
import BulletFarm.Text.Search
import BulletFarm.Text.Substitution
import BulletFarm.Text.Lines
import BulletFarm.Worker.CodeEdit
import BulletFarm.Worker.Template
import BulletFarm.Worker.DocUpdate
import BulletFarm.Worker.DocIdempotent
import BulletFarm.Text.Outline
import BulletFarm.Worker.DocFrame
import BulletFarm.System.Coherence
import BulletFarm.Order.TopK
import BulletFarm.Worker.Ranking
import BulletFarm.Worker.Retrieval
import BulletFarm.Worker.Spacing
import BulletFarm.Worker.Bulk
import BulletFarm.System.RateLimit
import BulletFarm.Worker.Truthful
import BulletFarm.Order.Firsts
import BulletFarm.System.Tools
import BulletFarm.Operator.Census
import BulletFarm.Operator.Caches
import BulletFarm.Interaction.View
import BulletFarm.Interaction.Clients
import BulletFarm.Operator.AgentController
import BulletFarm.Operator.AgentViews
import BulletFarm.Interaction.Descent
import BulletFarm.Operator.Lifetime
import BulletFarm.Interaction.Monitor
import BulletFarm.Worker.Course
import BulletFarm.System.Progress
import BulletFarm.Operator.AttemptOrder
import BulletFarm.Interaction.Inevitable
import BulletFarm.Operator.Settled
import BulletFarm.Interaction.Monitored
import BulletFarm.Worker.Archive
