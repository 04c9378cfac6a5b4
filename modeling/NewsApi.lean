import NewsApi.Async.Prog
import NewsApi.Async.Host
import NewsApi.Async.Run
import NewsApi.Text.JsString
import NewsApi.Types.Article
import NewsApi.Types.Search
import NewsApi.Errors
import NewsApi.Config.Settings
import NewsApi.Http.RetryAfter
import NewsApi.Providers.Circuit
import NewsApi.Runtime.Commands
import NewsApi.Runtime.JobHost
import NewsApi.Providers.CircuitHistory
import NewsApi.Providers.Retry
import NewsApi.Providers.GNewsProvider
import NewsApi.Providers.SearchSpec
import NewsApi.Providers.Breaker
import NewsApi.Cache.MemoryStore
import NewsApi.Redis.Keyspace
import NewsApi.Cache.Lease
import NewsApi.Cache.Coordinator
import NewsApi.Cache.CoordinatorOutline
import NewsApi.Cache.LeaseReturn
import NewsApi.Cache.ColdMiss
import NewsApi.Cache.ColdMissRuns
import NewsApi.Services.SearchKey
import NewsApi.Services.NewsService
import NewsApi.Services.JobSpec
import NewsApi.Services.Process
import NewsApi.Async.SingleFlight
import NewsApi.Services.Accounting
import NewsApi.Services.Outcomes
import NewsApi.Services.Subscribers
import NewsApi.Services.Cancellation
import NewsApi.Services.Degraded
import NewsApi.Services.Replicas
import NewsApi.Providers.Justification
import NewsApi.Services.KeySpaces
import NewsApi.Middleware.ClientApiKey
import NewsApi.Async.CallStack
import NewsApi.Runtime.Shutdown
import NewsApi.Runtime.ShutdownOnce
import NewsApi.Utils.Coercion
import NewsApi.Utils.Validation
import NewsApi.Utils.BadQuery
import NewsApi.Http.Stringify
import NewsApi.Text.Base64
import NewsApi.Http.Conditional
import NewsApi.Http.Responses
import NewsApi.Controllers.NewsController
import NewsApi.Async.Trace
import NewsApi.Runtime.Watched
import NewsApi.Providers.Verdict
import NewsApi.Services.CancelledLoad
import NewsApi.Services.CancelledRuns
import NewsApi.Patterns.CircuitBreaker
import NewsApi.Providers.Textbook
import NewsApi.Providers.Visit
import NewsApi.Providers.VisitSpec
import NewsApi.Providers.Sequential
import NewsApi.Async.Waiting
import NewsApi.Config.Numbers
import NewsApi.Services.CacheUse
import NewsApi.Services.Evolution
import NewsApi.Services.Backed
import NewsApi.Services.Landed
import NewsApi.Services.LastGood
import NewsApi.Services.LastGoodKept
import NewsApi.Services.StaleOnError
import NewsApi.Services.FreshBacked
import NewsApi.Http.EntityTagList
import NewsApi.Http.StrayStar
import NewsApi.Cache.Heartbeat
import NewsApi.Cache.FailOpen
import NewsApi.Cache.WaitBound
import NewsApi.Cache.NodeCache
import NewsApi.Collections.KeyOrder
import NewsApi.Cache.MemoryStoreSteps
import NewsApi.Cache.StoreHistory
import NewsApi.Cache.RecencyIndex
import NewsApi.Cache.LeaseKept
import NewsApi.Providers.RetryCommands
import NewsApi.Providers.RetryBudget
import NewsApi.Http.Url
import NewsApi.Http.Routes
import NewsApi.Client.Paths
import NewsApi.Text.JsonText
import NewsApi.Client.HttpFailures
import NewsApi.Http.BodyParser
import NewsApi.Middleware.ErrorHandler
import NewsApi.Middleware.ErrorShape
import NewsApi.Config.HttpServer
import NewsApi.Patterns.Machine
import NewsApi.Runtime.RequestAbort
import NewsApi.Runtime.HttpServerEvents
import NewsApi.Controllers.SearchRequest
import NewsApi.Http.RetryDelay
import NewsApi.Runtime.ShutdownDeadline
import NewsApi.Services.SettingsOrder
import NewsApi.Async.AbortSignal
import NewsApi.Runtime.CombineSignals
import NewsApi.Runtime.CombinedRuns
import NewsApi.Providers.SearchListeners
import NewsApi.Async.EventEmitter
import NewsApi.Redis.CommandRunner
import NewsApi.Redis.CommandWaits
import NewsApi.Redis.CommandGate
import NewsApi.Async.Gives
import NewsApi.Cache.RedisStore
import NewsApi.Services.Cluster
import NewsApi.Http.RequestId
import NewsApi.Middleware.RateLimit
import NewsApi.Controllers.Endpoints
import NewsApi.App
import NewsApi.Services.CallHistory
import NewsApi.ErrorResponses
import NewsApi.Deployment
import NewsApi.Async.Ends
import NewsApi.Services.SearchEnds
import NewsApi.Services.Settling
import NewsApi.Async.Schedule
import NewsApi.Services.Quiescence
import NewsApi.DeploymentEnds
import NewsApi.Services.KnownErrors
import NewsApi.SearchAnswers
import NewsApi.ClientErrors
import NewsApi.Services.ParsedResults
import NewsApi.ClientArticles
