import VirtualCatalog.Machine.Basic
import VirtualCatalog.Machine.Locked
import VirtualCatalog.Names.CaseInsensitive
import VirtualCatalog.Sql.Expression
import VirtualCatalog.Sql.Eval
import VirtualCatalog.Sql.Truth
import VirtualCatalog.Bridge.Grant
import VirtualCatalog.Bridge.Predicate
import VirtualCatalog.Bridge.Resolve
import VirtualCatalog.Bridge.Commit
import VirtualCatalog.Bridge.Owner
import VirtualCatalog.Bridge.Statement
import VirtualCatalog.Bridge.PolicyRace
import VirtualCatalog.Bridge.ContextRace
import VirtualCatalog.Bridge.Filling
import VirtualCatalog.Bridge.Rows
import VirtualCatalog.Bridge.UpdatedRow
import VirtualCatalog.Bridge.Reach
import VirtualCatalog.Machine.Undo
import VirtualCatalog.Machine.Steps
import VirtualCatalog.Bridge.Session
import VirtualCatalog.Bridge.Rollback
import VirtualCatalog.Bridge.Uncommitted
import VirtualCatalog.Bridge.Shaping
import VirtualCatalog.Bridge.Consistent
import VirtualCatalog.Bridge.Redeem
import VirtualCatalog.Bridge.Lookup
import VirtualCatalog.Bridge.Covered
import VirtualCatalog.Bridge.EditEffect
import VirtualCatalog.Bridge.Edits
import VirtualCatalog.Bridge.EditsKept
import VirtualCatalog.Json.Value
import VirtualCatalog.Json.Schema
import VirtualCatalog.Json.Text
import VirtualCatalog.Bridge.PolicyDocument
import VirtualCatalog.Bridge.PolicyFormat
import VirtualCatalog.Bridge.PolicySchema
import VirtualCatalog.Bridge.PolicyConfig
import VirtualCatalog.Bridge.SetPolicy
import VirtualCatalog.Bridge.Settings
import VirtualCatalog.Bridge.DocumentSettings
import VirtualCatalog.Bridge.Attempt
import VirtualCatalog.Bridge.LastWriter
import VirtualCatalog.Bridge.CreateTable
import VirtualCatalog.Bridge.OrphanedPolicy
import VirtualCatalog.Bridge.PredicateFold
import VirtualCatalog.Bridge.NameParts
import VirtualCatalog.Bridge.Whitelist
import VirtualCatalog.Bridge.UndoCount
import VirtualCatalog.Bridge.GrantShape
import VirtualCatalog.Bridge.Lockdown
import VirtualCatalog.Bytes.LittleEndian
import VirtualCatalog.Provider.Listing
import VirtualCatalog.Provider.Refresh
import VirtualCatalog.Provider.EnsureSchemas
import VirtualCatalog.Provider.Registration
import VirtualCatalog.Provider.ArrowValue
import VirtualCatalog.Provider.ArrowLayout
import VirtualCatalog.Provider.FrameDecoder
import VirtualCatalog.Provider.Framing
import VirtualCatalog.Provider.FrameEncoder
import VirtualCatalog.Provider.StreamClose
import VirtualCatalog.Provider.KeyBuffer
import VirtualCatalog.Provider.KeyedWrite
import VirtualCatalog.Provider.FilterValue
import VirtualCatalog.Provider.FilterJson
import VirtualCatalog.Provider.FilterFidelity
import VirtualCatalog.Provider.LiteralText
import VirtualCatalog.Provider.Filters
import VirtualCatalog.Provider.ArrowScalar
import VirtualCatalog.Provider.FilterMeaning
import VirtualCatalog.Provider.FilterRows
import VirtualCatalog.Provider.StreamArgs
import VirtualCatalog.Catalog.Permissions
import VirtualCatalog.Provider.SchemaEntries
import VirtualCatalog.Catalog.Gates
import VirtualCatalog.Catalog.Report
import VirtualCatalog.Bridge.Versions
import VirtualCatalog.Bridge.Isolation
import VirtualCatalog.Bridge.Probing
import VirtualCatalog.Bridge.Leaves
import VirtualCatalog.Bridge.Bound
import VirtualCatalog.Machine.Recording
import VirtualCatalog.Bridge.Validate
import VirtualCatalog.Machine.Handout
import VirtualCatalog.Provider.SchemaMessage
import VirtualCatalog.Provider.ScanRequest
import VirtualCatalog.Provider.ScanPayload
import VirtualCatalog.Provider.ScanChunks
import VirtualCatalog.Provider.RowIds
import VirtualCatalog.Provider.TargetScans
import VirtualCatalog.Provider.ScannedKeys
import VirtualCatalog.Provider.KeyedStatement
import VirtualCatalog.Provider.HostUdfs
import VirtualCatalog.Provider.WireFormat
import VirtualCatalog.Provider.Serving
import VirtualCatalog.Provider.ServedInOrder
import VirtualCatalog.Machine.Lockstep
import VirtualCatalog.Bridge.SourceRows
import VirtualCatalog.Bridge.Subqueries
import VirtualCatalog.Bridge.HiddenRows
import VirtualCatalog.Bridge.CheckedRows
import VirtualCatalog.Catalog.Wrappers
import VirtualCatalog.Catalog.AlteredEntries
import VirtualCatalog.Provider.TableStream
