import CacheFs.Effect.Prog
import CacheFs.Effect.Wp
import CacheFs.Effect.Trace
import CacheFs.Effect.Ghost
import CacheFs.Effect.Project
import CacheFs.Effect.Related
import CacheFs.Effect.Interleave
import CacheFs.Effect.Simulate
import CacheFs.Posix.Content
import CacheFs.Posix.Agree
import CacheFs.Posix.Tree
import CacheFs.Posix.DirStream
import CacheFs.Posix.Shell
import CacheFs.Path
import CacheFs.Sql.Relation
import CacheFs.Sql.Connection
import CacheFs.Store.Catalogue
import CacheFs.Meta.Schema
import CacheFs.World
import CacheFs.Meta.Ops
import CacheFs.Meta.Spec
import CacheFs.Meta.Frame
import CacheFs.Meta.Account
import CacheFs.Meta.Faults
import CacheFs.Meta.Cold
import CacheFs.Meta.Atomic
import CacheFs.Meta.Victims
import CacheFs.Meta.Exact
import CacheFs.Meta.Removal
import CacheFs.Meta.Statements
import CacheFs.Meta.Api
import CacheFs.Meta.Refine
import CacheFs.Meta.Lives
import CacheFs.Meta.Catalogue
import CacheFs.Callbacks
import CacheFs.Calls
import CacheFs.Apart
import CacheFs.Directory
import CacheFs.IoSpec
import CacheFs.Window
import CacheFs.Ledger
import CacheFs.OpenSpec
import CacheFs.Session
import CacheFs.HalfCreated
import CacheFs.Eviction
import CacheFs.Lookup
import CacheFs.Capacity
import CacheFs.Release
import CacheFs.Transparency
import CacheFs.ReadPaths
import CacheFs.Returned
import CacheFs.Remount
import CacheFs.Freshness
import CacheFs.Recency
import CacheFs.Orphans
import CacheFs.Truncation
import CacheFs.Namespace
import CacheFs.PassThrough
import CacheFs.Availability
import CacheFs.Links
import CacheFs.Crash
import CacheFs.Transfer
import CacheFs.ReRead
import CacheFs.Settings
import CacheFs.Leak
import CacheFs.Concurrent
import CacheFs.Conservation
import CacheFs.SharedReads
