import Mathlib

/-!
# Column-map pages and what compaction reads

The data of the column-map compactor (src/deltamain/colstore/ColumnMapPage.cpp).

A `ColumnMapMainPage` holds `count` rows. Each row has an entry (key, version and the
atomic `newest` word) and data columns: its size (zero marks a tombstone), its fixed-size
field values, and per variable-size field a heap entry whose offset is counted from the
top of the page's heap, which grows downward. The model keeps a row's fixed-size field
values and variable-size bytes together as one opaque `payload`, and the heap as the
number of bytes it holds: the compactor copies field values and heap bytes and never
looks into them. The fixed-size columns of one row, copied column by column by the
code, move together here.

`ColumnMapContext`, `UpdateRecordIterator`, `InsertRecord` and the log entries are not
under src/. The context's values are parameters; the iterator and the insert record are
modelled from the spec, as documented at each.
-/

set_option autoImplicit false

namespace Tellstore.Deltamain.ColumnMap

/-- The members of `ColumnMapContext` the modifier reads. -/
structure ColumnMapContext where
  entryOverhead : Nat
  fixedSize : Nat
  varSizeFieldCount : Nat
  fixedSizeCapacity : Nat
  /-- `ColumnMapContext::MAX_DATA_SIZE`. -/
  maxDataSize : Nat
  deriving DecidableEq, Repr

/-- `crossbow::align(value, alignment)`: the next multiple of `alignment`. -/
def align (value alignment : Nat) : Nat := (value + alignment - 1) / alignment * alignment

/-- `ColumnMapMainEntry`: key, version and the `newest` word of a row. -/
structure ColumnMapMainEntry where
  key : Nat
  version : Nat
  newest : Nat
  deriving DecidableEq, Repr, Inhabited

/-- The data columns of a row: `sizes[r]` (zero marks a tombstone), the field values and
variable-size bytes as one `payload`, and the heap entry offset of each variable-size
field (the entry's 4-byte copy of the field belongs to the payload). -/
structure RowData where
  size : Nat
  payload : Nat
  heapOffsets : List Nat
  deriving DecidableEq, Repr, Inhabited

/-- `ColumnMapMainPage`: its address, the `count` entries, the data of each row and the
number of bytes its heap holds. -/
structure ColumnMapMainPage where
  address : Nat
  entries : List ColumnMapMainEntry
  data : List RowData
  heapSize : Nat
  deriving DecidableEq, Repr

/-- `page->count`. -/
def ColumnMapMainPage.count (page : ColumnMapMainPage) : Nat := page.entries.length

/-- `entries[r]`: row `r`'s entry. -/
def ColumnMapMainPage.entry (page : ColumnMapMainPage) (r : Nat) : ColumnMapMainEntry :=
  page.entries.getD r default

/-- Row `r`'s data columns. -/
def ColumnMapMainPage.row (page : ColumnMapMainPage) (r : Nat) : RowData :=
  page.data.getD r default

/-- The type of an update-log entry as `processUpdates` tests it. -/
inductive RecordType where
  | data
  | delete
  deriving DecidableEq, Repr

/-- The tuple an update or insert carries: its size in bytes, the length word of each
variable-size field, and its bytes as one `payload`. -/
structure Tuple where
  size : Nat
  varSizes : List Nat
  payload : Nat
  deriving DecidableEq, Repr

/-- An `UpdateLogEntry` with the type and size of its log entry. -/
structure UpdateLogEntry where
  key : Nat
  version : Nat
  type : RecordType
  tuple : Tuple
  deriving DecidableEq, Repr

/-- Modelled from the spec: `InsertRecord` and `InsertLogEntry` are not under src/. An
insert record read for compaction: the address and tuple of its insert log entry
(`value()`), its key, its `baseVersion()` (the insert's version) and the `newest()` word
it was read with. -/
structure InsertRecord where
  address : Nat
  key : Nat
  baseVersion : Nat
  tuple : Tuple
  newest : Nat
  deriving DecidableEq, Repr

/-- The `newest` word a pointer action or an invalidation targets: that of row `idx` of
the main page at `page`, or that of the insert log entry at `address`. -/
inductive NewestSlot where
  | main (page idx : Nat)
  | insert (address : Nat)
  deriving DecidableEq, Repr

/-- A fill entry: the address of its fill page and its index there. -/
structure FillEntry where
  page : Nat
  idx : Nat
  deriving DecidableEq, Repr

/-- Modelled from the spec: `UpdateRecordIterator` is not under src/. Constructed from a
newest word and a base version, it yields the update log's entries newest first;
`entries newest baseVersion` is what it yields. -/
structure UpdateRecordIterator where
  entries : Nat → Nat → List UpdateLogEntry

/-- What a `ColumnMapPageModifier` is built with: the context, `mMinVersion`, and the
update log as the iterator reads it. -/
structure ModifierEnv where
  context : ColumnMapContext
  minVersion : Nat
  iterator : UpdateRecordIterator

end Tellstore.Deltamain.ColumnMap
