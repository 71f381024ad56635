import FlagForge.Core.EngineSoundness
import FlagForge.Core.WireRoundTrip
import FlagForge.Core.Rollout
import FlagForge.Core.HashInput
import FlagForge.Core.SegmentGrowth
import FlagForge.Core.NeverMatches
import FlagForge.Api.VariantRace
import FlagForge.Api.ReferenceRace
import FlagForge.Api.SegmentRace
import FlagForge.Storage.Optimistic
import FlagForge.Api.Sequential
import FlagForge.Storage.Seeding
import FlagForge.Api.SelfContained
import FlagForge.Sdk.Refresh
import FlagForge.Sdk.Batches
import FlagForge.Sdk.Backoff
import FlagForge.Api.CounterBound
import FlagForge.Api.Measurable
import FlagForge.Api.AuditChain
import FlagForge.Api.Cache
import FlagForge.Api.Sweeping
import FlagForge.Api.ClientKey
import FlagForge.Api.ClaimedScope
import FlagForge.Api.Registration
import FlagForge.Api.AuditPages
import FlagForge.Api.Patches
import FlagForge.Lib.Containment
import FlagForge.Storage.PrimaryKeys
import FlagForge.Storage.Dependencies
import FlagForge.Core.Significance
import FlagForge.Api.Results
import FlagForge.Storage.ExactIngest
import FlagForge.Api.RetryHint
import FlagForge.Core.PlainJson
import FlagForge.Web.Conditions
import FlagForge.Web.Segments
import FlagForge.Web.Cohorts
import FlagForge.Core.RegexCache
import FlagForge.Api.Usage
import FlagForge.Web.EvenSplit
import FlagForge.Service.Isolation
import FlagForge.Service.KeyHistory
import FlagForge.Service.Attribution
import FlagForge.Api.Conformance
import FlagForge.Service.Fleet
