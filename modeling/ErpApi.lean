import ErpApi.Basic.Table
import ErpApi.Basic.JsString
import ErpApi.Basic.ShortCircuit
import ErpApi.Basic.Placeholder
import ErpApi.Basic.RegExp
import ErpApi.Iam.Entities
import ErpApi.Iam.PermissionResolver
import ErpApi.Iam.ReferenceDecision
import ErpApi.Iam.PermissionGuard
import ErpApi.Report.RunningNumberFormat
import ErpApi.Report.DocumentTypes
import ErpApi.Report.FormatRoundTrip
import ErpApi.Basic.Interleaving
import ErpApi.Session.SessionStore
import ErpApi.Auth.Refresh
import ErpApi.Basic.Json
import ErpApi.Basic.ObjectTree
import ErpApi.Query.FindOperator
import ErpApi.Query.EntityMetadata
import ErpApi.Query.TypeOrmQueryBuilder
import ErpApi.Query.ConditionMeaning
import ErpApi.Query.WhereCorrect
import ErpApi.Query.ProductScope
import ErpApi.Query.SingleCondition
import ErpApi.Basic.NestedSet
import ErpApi.Common.BaseService
import ErpApi.Inventory.RebuildNestedSet
import ErpApi.Inventory.TreeServices
import ErpApi.AccessKeys.AccessKeysService
import ErpApi.AccessKeys.Revocation
import ErpApi.AccessKeys.CachedRecord
import ErpApi.Session.RefreshAll
import ErpApi.Iam.PermissionSync
import ErpApi.Iam.PermissionSyncRun
import ErpApi.Report.Paginator
import ErpApi.Basic.Utf8
import ErpApi.Iam.EvaluationContext
import ErpApi.AccessKeys.AccessKeyGuard
import ErpApi.AccessKeys.KeyDecision
import ErpApi.Common.RpcErrors
import ErpApi.Query.SoftDelete
import ErpApi.Report.PrintTemplates
import ErpApi.Report.PrintTemplateRuns
import ErpApi.Iam.AdminMutations
import ErpApi.Iam.MutationEffects
import ErpApi.Iam.SessionSync
import ErpApi.Iam.ManualPermissions
import ErpApi.Inventory.LeafRule
import ErpApi.Session.LostUpdate
import ErpApi.Session.SessionIndex
import ErpApi.Basic.NumberChain
import ErpApi.Report.FormatChange
import ErpApi.Session.Rewrites
import ErpApi.Iam.ConcurrentWrites
import ErpApi.Iam.ConcurrentSync
import ErpApi.Iam.TwoChanges
import ErpApi.Auth.AuthService
import ErpApi.Auth.SessionRevocation
import ErpApi.Auth.MustChangePassword
import ErpApi.Iam.PermissionScan
import ErpApi.Inventory.RebuildReturns
import ErpApi.Basic.SequentialRun
import ErpApi.Basic.ChangeLog
import ErpApi.Iam.AssignmentAudit
import ErpApi.Common.BulkUpdate
import ErpApi.Common.BulkReconcile
import ErpApi.Inventory.Repository
import ErpApi.Inventory.Products
import ErpApi.Inventory.Operations
import ErpApi.Inventory.ProductReferences
import ErpApi.Inventory.RoundCheck
import ErpApi.Auth.LoginLock
import ErpApi.Basic.JsValue
import ErpApi.Common.MicroserviceClient
import ErpApi.AccessKeys.GuardBlocks
import ErpApi.Report.PageLayout
import ErpApi.Basic.FixedWidth
import ErpApi.Basic.JsDate
import ErpApi.Iam.DateConditions
import ErpApi.Basic.Wildcard
import ErpApi.Iam.StringLike
import ErpApi.Query.DateOperators
import ErpApi.Basic.Like
import ErpApi.Query.Postgres
import ErpApi.Query.TextOperators
import ErpApi.Query.JsonbColumns
import ErpApi.Query.JsonbParameters
import ErpApi.Query.Pagination
import ErpApi.Query.KnownProperties
import ErpApi.Query.FindAll
import ErpApi.Basic.Choices
import ErpApi.Inventory.Variants
import ErpApi.Iam.ManifestScan
import ErpApi.Iam.PermissionsService
import ErpApi.Common.CacheKey
import ErpApi.Common.Localization
import ErpApi.Common.ManyToMany
import ErpApi.Common.OneToMany
import ErpApi.Common.PageLinks
import ErpApi.Basic.ObjectPlaces
import ErpApi.Query.FieldSelection
import ErpApi.Iam.StatementTree
import ErpApi.Report.SubstituteParameters
import ErpApi.Report.BandedRender
import ErpApi.Query.FilterStrings
import ErpApi.Iam.DecoratorArgs
import ErpApi.Auth.TokenExchange
import ErpApi.Common.GracefulShutdown
import ErpApi.Storage.StorageService
import ErpApi.AccessKeys.IssuedSecrets
import ErpApi.Common.HttpLog
import ErpApi.Common.RmqDelivery
import ErpApi.Iam.PolicyEditor
