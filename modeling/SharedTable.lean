import SharedTable.Proofs.Condition.AbsentFields
import SharedTable.Proofs.Condition.FieldBetween
import SharedTable.Proofs.Condition.IntegerTests
import SharedTable.Proofs.Expression.Conditions
import SharedTable.Proofs.Item.Codec
import SharedTable.Proofs.Key.Identity
import SharedTable.Proofs.Key.Integers
import SharedTable.Proofs.Key.NumberOrder
import SharedTable.Proofs.Memory.Atomicity
import SharedTable.Proofs.Query.Following
import SharedTable.Proofs.Query.Page
import SharedTable.Proofs.Query.Resume
import SharedTable.Proofs.Remote.Attribute
import SharedTable.Proofs.Remote.Expressions
import SharedTable.Proofs.Remote.Reads
import SharedTable.Proofs.Remote.Writes
import SharedTable.Proofs.Table.Batches
import SharedTable.Proofs.Table.Identity
import SharedTable.Proofs.Table.Index
import SharedTable.Proofs.Table.Interruption
import SharedTable.Proofs.Table.Isolation
import SharedTable.Proofs.Table.PointRead
import SharedTable.Proofs.Table.Reads
import SharedTable.Proofs.Table.Refinement
import SharedTable.Proofs.Table.Sharing
import SharedTable.Query
import SharedTable.Record.Shape
import SharedTable.Remote.Service
import SharedTable.Schema.Declaration
import SharedTable.Store.Memory
import SharedTable.Store.Outage
import SharedTable.Proofs.Condition.FilterLaws
import SharedTable.Proofs.Schema.Declaration
import SharedTable.Proofs.Batch.Occurrences
import SharedTable.Proofs.Memory.Listing
