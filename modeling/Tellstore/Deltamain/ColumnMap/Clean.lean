import Tellstore.Deltamain.ColumnMap.Modifier

/-!
# `clean`, `append` and a modifier run

`ColumnMapPageModifier::clean` (ColumnMapPage.cpp:67-270) walks a page key by key; the
body of its loop from label `START` is `cleanKey`. A key either finishes, leaving the
index of the next key, or overflows the fill page: the pending main range is enqueued,
the page is flushed and the key starts again from `START` (`continue` after a failed
`processUpdates`, `goto START` from the copy loop). `append` (lines 272-340) does the
same for one insert record. The restarts make both loops unbounded in the code, so the
model runs them with fuel: `none` means the fuel ran out.

The local variables `i`, `mainStartIdx`, `mainEndIdx`, `copyStartIdx`, `copyEndIdx` and
`wasDelete` are passed explicitly.
-/

set_option autoImplicit false

namespace Tellstore.Deltamain.ColumnMap

open ColumnMapPageModifier

section Clean

variable (env : ModifierEnv) (page : ColumnMapMainPage)

/-- `for (; i < page->count && entries[i].key == key; ++i)`: the index past the rows of
`key` from `i` on; `rows` are the entries from `i` on. -/
def skipKey (key : Nat) : List ColumnMapMainEntry → Nat → Nat
  | [], i => i
  | e :: rest, i => if e.key = key then skipKey key rest (i + 1) else i

/-- Line 148: skip the key's rows at or above `lowestVersion`. -/
def skipNewer (key : Nat) (lowestVersion : WithTop Nat) : List ColumnMapMainEntry → Nat → Nat
  | [], i => i
  | e :: rest, i =>
    if e.key = key ∧ lowestVersion ≤ (e.version : WithTop Nat) then
      skipNewer key lowestVersion rest (i + 1)
    else i

/-- Lines 89-94 and their copies: enqueue a pending main range and clear it. -/
def flushMain (m : ColumnMapPageModifier) (mainStartIdx mainEndIdx : Nat) :
    ColumnMapPageModifier × Nat × Nat :=
  if mainStartIdx ≠ mainEndIdx then (addCleanAction env.context m page mainStartIdx mainEndIdx, 0, 0)
  else (m, mainStartIdx, mainEndIdx)

/-- How the copy loop of lines 156-206 ended. -/
inductive CopyOutcome where
  | overflow (m : ColumnMapPageModifier)
  | finished (m : ColumnMapPageModifier) (i copyEndIdx : Nat) (wasDelete : Bool)

/-- Lines 169-179: what copying row `i` (entry `e`) adds to `mFillSize` and the
`wasDelete` it leaves; `none` for a tombstone at or below `mMinVersion`, which ends the
copy unwritten. -/
def mainSize (i : Nat) (e : ColumnMapMainEntry) : Option (Nat × Bool) :=
  let rowSize := (page.row i).size
  if rowSize = 0 then
    if e.version ≤ env.minVersion then none
    else some (env.context.entryOverhead + env.context.fixedSize, true)
  else some (env.context.entryOverhead + rowSize, false)

/-- The copy loop over the main rows of `key` from row `i` on (`rows` are the entries
from `i` on). A delete followed by a row below `mMinVersion` cancels: the delete's row
is taken back, from the update page or from the copy range. Any row at or below
`mMinVersion` stops the loop after it is written. -/
def copyMain (key copyStartIdx : Nat) :
    List ColumnMapMainEntry → Nat → ColumnMapPageModifier → Nat → Bool → CopyOutcome
  | [], i, m, copyEndIdx, wasDelete => .finished m i copyEndIdx wasDelete
  | e :: rest, i, m, copyEndIdx, wasDelete =>
    if e.key ≠ key then .finished m i copyEndIdx wasDelete
    else if wasDelete ∧ e.version < env.minVersion then
      let m := { m with
        fillIdx := m.fillIdx - 1
        fillSize := m.fillSize - (env.context.entryOverhead + env.context.fixedSize) }
      if copyStartIdx = copyEndIdx then .finished { m with updateIdx := m.updateIdx - 1 } i copyEndIdx false
      else .finished m i (copyEndIdx - 1) false
    else
      match mainSize env page i e with
      | none => .finished m i copyEndIdx wasDelete
      | some (size, wasDelete) =>
        let m := { m with fillSize := m.fillSize + size }
        if m.fillSize > env.context.maxDataSize then .overflow m
        else
          let m := { m with
            fillEntries := Function.update m.fillEntries m.fillIdx ⟨key, e.version, 0⟩
            fillIdx := m.fillIdx + 1 }
          if e.version ≤ env.minVersion then .finished m i (copyEndIdx + 1) wasDelete
          else copyMain key copyStartIdx rest (i + 1) m (copyEndIdx + 1) wasDelete

/-- Lines 117-126 and 215-221: invalidate the key's newest word and drop it from the
index. -/
def invalidateKey (m : ColumnMapPageModifier) (baseIdx newest key : Nat) : ColumnMapPageModifier :=
  (m.emit (.invalidate (.main page.address baseIdx) newest)).emit (.remove key)

/-- Lines 131-134 and 223-226: a pointer action to the key's first fill entry, and the
index entry for it. -/
def pointKey (m : ColumnMapPageModifier) (baseIdx newest key : Nat) : ColumnMapPageModifier :=
  let fillEntry : FillEntry := ⟨m.fillPage, m.fillEndIdx⟩
  let m := { m with
    pointerActions := m.pointerActions ++ [PointerAction.mk (.main page.address baseIdx) newest fillEntry] }
  m.emit (.insert key fillEntry true)

/-- Lines 214-254: a key that wrote nothing is invalidated; otherwise it is pointed to,
and its rows join the pending main range or become a clean action. -/
def publishKey (m : ColumnMapPageModifier) (baseIdx newest key copyStartIdx copyEndIdx
    mainStartIdx mainEndIdx : Nat) : ColumnMapPageModifier × Nat × Nat :=
  if m.fillIdx = m.fillEndIdx then (invalidateKey page m baseIdx newest key, mainStartIdx, mainEndIdx)
  else
    let m := pointKey page m baseIdx newest key
    let (m, mainStartIdx, mainEndIdx) :=
      if mainEndIdx = copyStartIdx ∧ m.updateIdx = m.updateStartIdx then
        (m, mainStartIdx, copyEndIdx)
      else
        let (m, mainStartIdx, mainEndIdx) := flushMain env page m mainStartIdx mainEndIdx
        let m := { m with updateEndIdx := m.updateIdx }
        if copyStartIdx ≠ copyEndIdx then (enqueueUpdates m, copyStartIdx, copyEndIdx)
        else (m, mainStartIdx, mainEndIdx)
    ({ m with fillEndIdx := m.fillIdx }, mainStartIdx, mainEndIdx)

/-- How one pass from `START` over a key ended: overflow (the pending main range already
enqueued; the caller flushes and starts the key again), or the key is done and `i` is the
next key's first row. -/
inductive KeyOutcome where
  | restart (m : ColumnMapPageModifier) (mainStartIdx mainEndIdx : Nat)
  | next (m : ColumnMapPageModifier) (i mainStartIdx mainEndIdx : Nat)

/-- Lines 153-258: copy the main rows from `copyStartIdx` on, then publish the key. -/
def copyAndPublish (m : ColumnMapPageModifier) (baseIdx newest copyStartIdx : Nat)
    (wasDelete : Bool) (mainStartIdx mainEndIdx : Nat) : KeyOutcome :=
  let key := (page.entry baseIdx).key
  match copyMain env page key copyStartIdx (page.entries.drop copyStartIdx) copyStartIdx m
      copyStartIdx wasDelete with
  | .overflow m =>
    let flushed := flushMain env page m mainStartIdx mainEndIdx
    .restart flushed.1 flushed.2.1 flushed.2.2
  | .finished m i copyEndIdx wasDelete =>
    let m := m.check (!wasDelete) "Last element must not be a delete"
    let published :=
      publishKey env page m baseIdx newest key copyStartIdx copyEndIdx mainStartIdx mainEndIdx
    .next published.1 (skipKey key (page.entries.drop i) i) published.2.1 published.2.2

/-- One pass of the loop body of `clean` from `START` for the key whose first row is
`baseIdx`. -/
def cleanKey (m : ColumnMapPageModifier) (baseIdx mainStartIdx mainEndIdx : Nat) : KeyOutcome :=
  let entry := page.entry baseIdx
  let newest := entry.newest
  if newest ≠ 0 then
    let flushed := flushMain env page m mainStartIdx mainEndIdx
    match processUpdates env flushed.1 newest entry.version with
    | .overflow m =>
      let again := flushMain env page m flushed.2.1 flushed.2.2
      .restart again.1 again.2.1 again.2.2
    | .done m lowestVersion wasDelete =>
      if lowestVersion ≤ (env.minVersion : WithTop Nat) then
        let m := if m.updateIdx = m.updateEndIdx then invalidateKey page m baseIdx newest entry.key
          else
            let m := pointKey page m baseIdx newest entry.key
            { m with updateEndIdx := m.updateIdx, fillEndIdx := m.fillIdx }
        .next m (skipKey entry.key (page.entries.drop (baseIdx + 1)) (baseIdx + 1))
          flushed.2.1 flushed.2.2
      else
        copyAndPublish env page m baseIdx newest
          (skipNewer entry.key lowestVersion (page.entries.drop baseIdx) baseIdx) wasDelete
          flushed.2.1 flushed.2.2
  else copyAndPublish env page m baseIdx newest baseIdx false mainStartIdx mainEndIdx

/-- The loop of `clean` from row `i`, with `fuel` passes from `START`; after an
overflow the page is flushed and the same key is tried again. -/
def cleanLoop : Nat → ColumnMapPageModifier → Nat → Nat → Nat →
    Option (ColumnMapPageModifier × Nat × Nat)
  | 0, _, _, _, _ => none
  | fuel + 1, m, i, mainStartIdx, mainEndIdx =>
    if i < page.count then
      match cleanKey env page m i mainStartIdx mainEndIdx with
      | .restart m mainStartIdx mainEndIdx => cleanLoop fuel (flush m) i mainStartIdx mainEndIdx
      | .next m i mainStartIdx mainEndIdx => cleanLoop fuel m i mainStartIdx mainEndIdx
    else some (m, mainStartIdx, mainEndIdx)

/-- `ColumnMapPageModifier::clean`: a page that does not need cleaning joins the page
list as it is (`false`); otherwise its keys are compacted and the last pending main
range enqueued (`true`). -/
def clean (fuel : Nat) (m : ColumnMapPageModifier) : Option (ColumnMapPageModifier × Bool) :=
  if !needsCleaning env.minVersion page then some ({ m with pageList := m.pageList ++ [page] }, false)
  else
    (cleanLoop env page fuel m 0 0 0).map fun (m, mainStartIdx, mainEndIdx) =>
      ((flushMain env page m mainStartIdx mainEndIdx).1, true)

end Clean

section Append

variable (env : ModifierEnv)

/-- How one pass of the loop of `append` ended. -/
inductive AppendOutcome where
  | restart (m : ColumnMapPageModifier)
  | done (m : ColumnMapPageModifier) (kept : Bool)

/-- Lines 327-338: point the record's newest word at its first fill entry and insert the
key into the index. -/
def publishInsert (m : ColumnMapPageModifier) (record : InsertRecord) : AppendOutcome :=
  let fillEntry : FillEntry := ⟨m.fillPage, m.fillEndIdx⟩
  let m := { m with
    pointerActions := m.pointerActions ++ [PointerAction.mk (.insert record.address) record.newest fillEntry] }
  let m := m.emit (.insert record.key fillEntry false)
  .done { m with updateEndIdx := m.updateIdx, fillEndIdx := m.fillIdx } true

/-- Lines 306-313: a record that kept nothing is invalidated, otherwise published. -/
def finishAppend (m : ColumnMapPageModifier) (record : InsertRecord) : AppendOutcome :=
  if m.updateIdx = m.updateEndIdx then .done (m.emit (.invalidate (.insert record.address) record.newest)) false
  else publishInsert m record

/-- The insert's own row: overflow, or written and published. -/
def writeInsertRow (m : ColumnMapPageModifier) (record : InsertRecord)
    (publish : ColumnMapPageModifier → AppendOutcome) : AppendOutcome :=
  let m := { m with fillSize := m.fillSize + (env.context.entryOverhead + record.tuple.size) }
  if m.fillSize > env.context.maxDataSize then .restart m
  else publish (writeInsert env.context m record)

/-- One pass of the loop of `append`. -/
def appendAttempt (m : ColumnMapPageModifier) (record : InsertRecord) : AppendOutcome :=
  if record.newest ≠ 0 then
    match processUpdates env m record.newest record.baseVersion with
    | .overflow m => .restart m
    | .done m lowestVersion wasDelete =>
      if wasDelete ∧ record.baseVersion < env.minVersion then
        finishAppend { m with
          fillSize := m.fillSize - (env.context.entryOverhead + env.context.fixedSize)
          fillIdx := m.fillIdx - 1
          updateIdx := m.updateIdx - 1 } record
      else if ((max env.minVersion record.baseVersion : Nat) : WithTop Nat) < lowestVersion then
        writeInsertRow env m record fun m => finishAppend m record
      else finishAppend m record
  else writeInsertRow env m record fun m => publishInsert m record

/-- `ColumnMapPageModifier::append`, with `fuel` passes; after an overflow the page is
flushed and the record tried again. -/
def append : Nat → ColumnMapPageModifier → InsertRecord → Option (ColumnMapPageModifier × Bool)
  | 0, _, _ => none
  | fuel + 1, m, record =>
    match appendAttempt env m record with
    | .restart m => append fuel (flush m) record
    | .done m kept => some (m, kept)

end Append

/-- A call on the modifier. -/
inductive ModifierCall where
  | clean (page : ColumnMapMainPage)
  | append (record : InsertRecord)

/-- One call with `fuel`. -/
def ModifierCall.run (env : ModifierEnv) (fuel : Nat) (m : ColumnMapPageModifier) :
    ModifierCall → Option (ColumnMapPageModifier × Bool)
  | .clean page => ColumnMap.clean env page fuel m
  | .append record => ColumnMap.append env fuel m record

/-- The calls in order, each with `fuel`, and what each returned. -/
def runCalls (env : ModifierEnv) (fuel : Nat) :
    ColumnMapPageModifier → List ModifierCall → Option (ColumnMapPageModifier × List Bool)
  | m, [] => some (m, [])
  | m, call :: calls => do
    let (m, answer) ← call.run env fuel m
    let (m, answers) ← runCalls env fuel m calls
    pure (m, answer :: answers)

/-- A modifier run: construct with the page manager at `firstPage`, make the calls, then
`done()`. -/
def compact (env : ModifierEnv) (fuel firstPage : Nat) (calls : List ModifierCall) :
    Option (ColumnMapPageModifier × List ColumnMapMainPage) :=
  (runCalls env fuel (init firstPage) calls).map fun (m, _) => done m

end Tellstore.Deltamain.ColumnMap
