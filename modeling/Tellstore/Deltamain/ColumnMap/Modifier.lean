import Tellstore.Deltamain.ColumnMap.NeedsCleaning

/-!
# The column-map page modifier: state and primitive steps

`ColumnMapPageModifier` (ColumnMapPage.cpp:50-65, 379-639) as explicit state passing: its
members, the writes into the fill and update pages (`writeUpdate`, `writeInsert`,
`writeData`), the clean actions (`addCleanAction`), the update-log walk
(`processUpdates`) and the flushes (`flushFillPage`, `flush`, `done`).

The run is sequential and every compare-and-swap succeeds: an invalidation, an index
call and a pointer action are recorded, in order, as `Effect`s, the calls the modifier
makes on the hash table and on newest words. The fill page's entries and the update
page's rows are arrays indexed from zero, zero-initialised when their page is
allocated or reset. A failed `LOG_ASSERT` among those at lines 208, 567, 587 and 622 is
recorded in `failedAsserts` and the run goes on as in a release build; the other
assertions are not modelled. Offsets are far below `2^31` on a 2 MiB page, so the
`int32_t` casts of lines 402 and 621 are computed in `Int`.
-/

set_option autoImplicit false

namespace Tellstore.Deltamain.ColumnMap

/-- The page a clean action copies from: the modifier's update page, or a main page. -/
inductive ActionPage where
  | update
  | main (page : ColumnMapMainPage)

/-- `CleanAction`: copy rows `[startIdx, endIdx)` of `page`, heap offsets moved by
`offsetCorrection`. -/
structure CleanAction where
  page : ActionPage
  startIdx : Nat
  endIdx : Nat
  offsetCorrection : Int

/-- `PointerAction`: at flush, CAS `ptr` from `expected` to `desired` tagged MAIN. -/
structure PointerAction where
  ptr : NewestSlot
  expected : Nat
  desired : FillEntry

/-- A call the modifier makes outside its pages: a newest word CAS'd from `expected` to
INVALID (`tryInvalidate` for an insert record), `mMainTableModifier.remove`,
`mMainTableModifier.insert`, or a pointer action's CAS installing a fill entry. -/
inductive Effect where
  | invalidate (slot : NewestSlot) (expected : Nat)
  | remove (key : Nat)
  | insert (key : Nat) (entry : FillEntry) (replace : Bool)
  | installMain (slot : NewestSlot) (expected : Nat) (entry : FillEntry)
  deriving DecidableEq, Repr

/-- The members of `ColumnMapPageModifier` that change during a run, the pages it has
published, and what it has done outside them. -/
structure ColumnMapPageModifier where
  pageList : List ColumnMapMainPage
  updatePage : Nat → RowData
  updateStartIdx : Nat
  updateEndIdx : Nat
  updateIdx : Nat
  fillPage : Nat
  fillEntries : Nat → ColumnMapMainEntry
  /-- `mFillPage->heapData() - mFillHeap`: the bytes the fill heap holds. -/
  fillHeap : Nat
  fillEndIdx : Nat
  fillIdx : Nat
  fillSize : Nat
  cleanActions : List CleanAction
  pointerActions : List PointerAction
  /-- The address the page manager hands out next. -/
  nextPage : Nat
  effects : List Effect
  failedAsserts : List String
  /-- The rows past the update page's `fixedSizeCapacity()` that a write used: the code
  writes row `mUpdateIdx` unchecked, the model records it when it lies past them. -/
  updateOverruns : List Nat

namespace ColumnMapPageModifier

/-- The constructor: the update page and the first fill page are the page manager's next
two pages. -/
def init (firstPage : Nat) : ColumnMapPageModifier where
  pageList := []
  updatePage := fun _ => default
  updateStartIdx := 0
  updateEndIdx := 0
  updateIdx := 0
  fillPage := firstPage + 1
  fillEntries := fun _ => default
  fillHeap := 0
  fillEndIdx := 0
  fillIdx := 0
  fillSize := 0
  cleanActions := []
  pointerActions := []
  nextPage := firstPage + 2
  effects := []
  failedAsserts := []
  updateOverruns := []

/-- `LOG_ASSERT(condition, message)`. -/
def check (m : ColumnMapPageModifier) (condition : Bool) (message : String) :
    ColumnMapPageModifier :=
  { m with failedAsserts := if condition then m.failedAsserts else m.failedAsserts ++ [message] }

/-- Record a call made outside the pages. -/
def emit (m : ColumnMapPageModifier) (effect : Effect) : ColumnMapPageModifier :=
  { m with effects := m.effects ++ [effect] }

end ColumnMapPageModifier

open ColumnMapPageModifier

section Writes

variable (ctx : ColumnMapContext)

/-- The offsets of the heap entries `writeData` writes: `heapOffset` for the first
variable-size field, each next one lower by the length word and the aligned data of the
field before it. -/
def fieldOffsets : Nat → List Nat → List Nat
  | _, [] => []
  | heapOffset, varSize :: rest =>
    heapOffset :: fieldOffsets (heapOffset - (4 + align varSize 4)) rest

/-- `writeData`: the row it leaves at `mUpdateIdx` of the update page (size and fields,
with the heap entries pointing at the variable-size part) when that row held `row`, and
the fill heap after the variable-size part is copied onto it. -/
def writeData (fillHeap : Nat) (row : RowData) (tuple : Tuple) : RowData × Nat :=
  if ctx.varSizeFieldCount ≠ 0 then
    let fillHeap := fillHeap + (tuple.size - align ctx.fixedSize 4)
    (⟨tuple.size, tuple.payload, fieldOffsets fillHeap tuple.varSizes⟩, fillHeap)
  else ({ row with size := tuple.size, payload := tuple.payload }, fillHeap)

/-- The row `writeUpdate` leaves in the update page and the fill heap after it: the
entry's data, or a tombstone whose heap entries hold the current heap offset. -/
def updateRow (fillHeap : Nat) (row : RowData) (entry : UpdateLogEntry) : RowData × Nat :=
  match entry.type with
  | .data => writeData ctx fillHeap row entry.tuple
  | .delete =>
    ({ row with
        size := 0
        heapOffsets := if ctx.varSizeFieldCount ≠ 0
          then List.replicate ctx.varSizeFieldCount fillHeap else row.heapOffsets }, fillHeap)

/-- The row `mUpdateIdx` that a write of the update page uses, recorded when it lies past
the page's `fixedSizeCapacity()` rows. -/
def useUpdateRow (m : ColumnMapPageModifier) : List Nat :=
  if m.updateIdx < ctx.fixedSizeCapacity then m.updateOverruns else m.updateOverruns ++ [m.updateIdx]

/-- `writeUpdate`: the entry into the fill page, its row into the update page. -/
def writeUpdate (m : ColumnMapPageModifier) (entry : UpdateLogEntry) : ColumnMapPageModifier :=
  let written := updateRow ctx m.fillHeap (m.updatePage m.updateIdx) entry
  { m with
    fillEntries := Function.update m.fillEntries m.fillIdx ⟨entry.key, entry.version, 0⟩
    updatePage := Function.update m.updatePage m.updateIdx written.1
    fillHeap := written.2
    fillIdx := m.fillIdx + 1
    updateIdx := m.updateIdx + 1
    updateOverruns := useUpdateRow ctx m }

/-- `writeInsert`: the insert's entry into the fill page, its data into the update page. -/
def writeInsert (m : ColumnMapPageModifier) (record : InsertRecord) : ColumnMapPageModifier :=
  let written := writeData ctx m.fillHeap (m.updatePage m.updateIdx) record.tuple
  { m with
    fillEntries := Function.update m.fillEntries m.fillIdx ⟨record.key, record.baseVersion, 0⟩
    updatePage := Function.update m.updatePage m.updateIdx written.1
    fillHeap := written.2
    fillIdx := m.fillIdx + 1
    updateIdx := m.updateIdx + 1
    updateOverruns := useUpdateRow ctx m }

/-- The field-0 heap offset of row `r` of a main page. -/
def heapOffset (page : ColumnMapMainPage) (r : Nat) : Nat :=
  (page.row r).heapOffsets.headD 0

/-- `addCleanAction`: enqueue rows `[startIdx, endIdx)` of `page`; with variable-size
fields, copy their heap bytes onto the fill heap now and record how far their offsets
move. -/
def addCleanAction (m : ColumnMapPageModifier) (page : ColumnMapMainPage)
    (startIdx endIdx : Nat) : ColumnMapPageModifier :=
  let beginOffset := heapOffset page (endIdx - 1)
  let endOffset := if startIdx = 0 then 0 else heapOffset page (startIdx - 1)
  let fillHeap := m.fillHeap + (beginOffset - endOffset)
  let offsetCorrect : Int := (fillHeap : Int) - (beginOffset : Int)
  { m with
    fillHeap := if ctx.varSizeFieldCount = 0 then m.fillHeap else fillHeap
    cleanActions := m.cleanActions ++
      [⟨.main page, startIdx, endIdx, if ctx.varSizeFieldCount = 0 then 0 else offsetCorrect⟩] }

end Writes

section Log

variable (env : ModifierEnv)

/-- How `processUpdates` ended: `false` once `mFillSize` overflowed, or `true` with the
iterator's `lowestVersion()` and `wasDelete`. -/
inductive UpdatesOutcome where
  | overflow (m : ColumnMapPageModifier)
  | done (m : ColumnMapPageModifier) (lowestVersion : WithTop Nat) (wasDelete : Bool)

/-- Lines 425-437: what writing `entry` adds to `mFillSize` and the `wasDelete` it
leaves; `none` for a delete at or below `mMinVersion`, which ends the walk unwritten. -/
def updateSize (entry : UpdateLogEntry) : Option (Nat × Bool) :=
  match entry.type with
  | .delete =>
    if entry.version ≤ env.minVersion then none
    else some (env.context.entryOverhead + env.context.fixedSize, true)
  | .data => some (env.context.entryOverhead + entry.tuple.size, false)

/-- The loop of `processUpdates` over the entries the iterator still yields. Modelled
from the spec: the iterator's `lowestVersion()` is the smallest version among the entries
it has visited, `⊤` before the first; `lowest` tracks it. A delete followed by an entry
below `mMinVersion` cancels: the delete's row is taken back and the walk stops. Any
entry at or below `mMinVersion` stops the walk after it is written. -/
def processUpdatesLoop (m : ColumnMapPageModifier) (wasDelete : Bool) (lowest : WithTop Nat) :
    List UpdateLogEntry → UpdatesOutcome
  | [] => .done m lowest wasDelete
  | entry :: rest =>
    let lowest := min lowest (entry.version : WithTop Nat)
    if wasDelete ∧ entry.version < env.minVersion then
      .done { m with
        updateIdx := m.updateIdx - 1
        fillIdx := m.fillIdx - 1
        fillSize := m.fillSize - (env.context.entryOverhead + env.context.fixedSize) } lowest false
    else
      match updateSize env entry with
      | none => .done m lowest wasDelete
      | some (size, wasDelete) =>
        let m := { m with fillSize := m.fillSize + size }
        if m.fillSize > env.context.maxDataSize then .overflow m
        else
          let m := writeUpdate env.context m entry
          if entry.version ≤ env.minVersion then .done m lowest wasDelete
          else processUpdatesLoop m wasDelete lowest rest

/-- `processUpdates(newest, baseVersion, lowestVersion, wasDelete)`. -/
def processUpdates (m : ColumnMapPageModifier) (newest baseVersion : Nat) : UpdatesOutcome :=
  processUpdatesLoop env m false ⊤ (env.iterator.entries newest baseVersion)

end Log

section Flush

variable (env : ModifierEnv)

/-- Row `r` of the page a clean action reads. -/
def ActionPage.row (updatePage : Nat → RowData) : ActionPage → Nat → RowData
  | .update, r => updatePage r
  | .main page, r => page.row r

/-- A heap entry as `flushFillPage` copies it: unchanged when the correction is zero,
otherwise its offset plus the correction. -/
def relocate (offsetCorrection : Int) (row : RowData) : RowData :=
  if offsetCorrection = 0 then row
  else { row with heapOffsets := row.heapOffsets.map fun offset : Nat => ((offset : Int) + offsetCorrection).toNat }

/-- The rows a clean action contributes to the fill page. -/
def CleanAction.rows (updatePage : Nat → RowData) (action : CleanAction) : List RowData :=
  (List.range (action.endIdx - action.startIdx)).map fun j =>
    relocate action.offsetCorrection (action.page.row updatePage (action.startIdx + j))

/-- `LOG_ASSERT(newOffset > 0, ...)` over the heap entries a clean action relocates: one
failure per entry whose corrected offset is not positive. -/
def CleanAction.relocationFailures (updatePage : Nat → RowData) (action : CleanAction) :
    List String :=
  if action.offsetCorrection = 0 then []
  else (List.range (action.endIdx - action.startIdx)).flatMap fun j =>
    ((action.page.row updatePage (action.startIdx + j)).heapOffsets.filter fun offset : Nat =>
      !decide (0 < (offset : Int) + action.offsetCorrection)).map fun _ =>
        "Corrected offset must be larger than 0"

/-- Lines 244-247 and 570-574: a non-empty pending update range becomes a clean action
and the range starts again at its end. -/
def enqueueUpdates (m : ColumnMapPageModifier) : ColumnMapPageModifier :=
  { m with
    cleanActions := m.cleanActions ++
      if m.updateStartIdx ≠ m.updateEndIdx then [⟨.update, m.updateStartIdx, m.updateEndIdx, 0⟩]
      else []
    updateStartIdx := m.updateEndIdx }

/-- `flushFillPage`: enqueue the pending update rows, publish the fill page with
`mFillEndIdx` rows whose data the clean actions copy, then run the pointer actions. -/
def flushFillPage (m : ColumnMapPageModifier) : ColumnMapPageModifier :=
  let m := enqueueUpdates (m.check (decide (0 < m.fillEndIdx)) "Trying to flush empty page")
  let page : ColumnMapMainPage :=
    ⟨m.fillPage, (List.range m.fillEndIdx).map m.fillEntries,
      m.cleanActions.flatMap (·.rows m.updatePage), m.fillHeap⟩
  let m := m.check (decide ((m.cleanActions.map fun a => a.endIdx - a.startIdx).sum = m.fillEndIdx))
    "Did not copy all sizes"
  { m with
    pageList := m.pageList ++ [page]
    failedAsserts := m.failedAsserts ++ m.cleanActions.flatMap (·.relocationFailures m.updatePage)
    cleanActions := []
    effects := m.effects ++ m.pointerActions.map fun a => .installMain a.ptr a.expected a.desired
    pointerActions := [] }

/-- `flush`: publish the fill page, reset a used update page, start a fresh fill page. -/
def flush (m : ColumnMapPageModifier) : ColumnMapPageModifier :=
  let m := flushFillPage m
  let m := if m.updateIdx ≠ 0 then
      { m with updatePage := fun _ => default, updateStartIdx := 0, updateEndIdx := 0, updateIdx := 0 }
    else m
  { m with
    fillPage := m.nextPage
    nextPage := m.nextPage + 1
    fillEntries := fun _ => default
    fillHeap := 0
    fillEndIdx := 0
    fillIdx := 0
    fillSize := 0 }

/-- `done`: publish a fill page holding rows (an empty one goes back to the page
manager) and return the page list. -/
def done (m : ColumnMapPageModifier) : ColumnMapPageModifier × List ColumnMapMainPage :=
  let m := if m.fillEndIdx ≠ 0 then flushFillPage m else m
  (m, m.pageList)

end Flush

end Tellstore.Deltamain.ColumnMap
