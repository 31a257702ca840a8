import Tellstore.Deltamain.ColumnMap.Pass

/-!
# Flush and restart

A pass over a key from label `START` adds to `mFillSize` the cost of every chain entry,
insert entry and main row it writes, and starts the key again on a fresh fill page once
the sum passes `MAX_DATA_SIZE`. When every key's entries together fit in
`MAX_DATA_SIZE`:

* a pass overflows only from a fill page that already holds a committed key, so
  `flushFillPage` is never called on an empty page (`cleanKey_restart`);
* a pass from an empty fill page never overflows, so a key is restarted at most once
  (`cleanKey_fresh_never_restarts`, `appendAttempt_fresh_never_restarts`);
* hence `clean` and `append` finish within a fuel linear in the page's rows, and so does
  every modifier run, with the assertion at line 567 never failing.
-/

set_option autoImplicit false

namespace Tellstore.Deltamain.ColumnMap

open ColumnMapPageModifier

/-- The key starting at row `b` fits on a fill page: its chain and its rows cost at most
`MAX_DATA_SIZE` together. -/
def KeyFits (env : ModifierEnv) (page : ColumnMapMainPage) (b : Nat) : Prop :=
  chainCost env.context (keyChain env page b) +
    runCost env.context page (page.entry b).key (page.entries.drop b) b ≤ env.context.maxDataSize

/-- An insert record fits on a fill page: its chain and its own entry. -/
def RecordFits (env : ModifierEnv) (record : InsertRecord) : Prop :=
  chainCost env.context (recordChain env record) +
    (env.context.entryOverhead + record.tuple.size) ≤ env.context.maxDataSize

/-- Every key of the call fits on a fill page. -/
def ModifierCall.Fits (env : ModifierEnv) : ModifierCall → Prop
  | .clean page => ∀ b < page.count, FirstOfKey page b → KeyFits env page b
  | .append record => RecordFits env record

/-- The passes from `START` a call makes when each key is restarted at most once. -/
def ModifierCall.passes : ModifierCall → Nat
  | .clean page => 2 * page.count + 1
  | .append _ => 2

instance (env : ModifierEnv) (page : ColumnMapMainPage) (b : Nat) : Decidable (KeyFits env page b) :=
  inferInstanceAs (Decidable (_ ≤ _))

instance (env : ModifierEnv) (record : InsertRecord) : Decidable (RecordFits env record) :=
  inferInstanceAs (Decidable (_ ≤ _))

instance (env : ModifierEnv) : (call : ModifierCall) → Decidable (call.Fits env)
  | .clean page => inferInstanceAs (Decidable (∀ b < page.count, FirstOfKey page b → KeyFits env page b))
  | .append record => inferInstanceAs (Decidable (RecordFits env record))

section Key

variable (env : ModifierEnv) (page : ColumnMapMainPage)

/-- A pass overflows only from a fill page that holds a committed key, so the flush that
follows publishes a page with rows, fails no assertion of line 567, and leaves an empty
fill page at `START`. -/
theorem cleanKey_restart {m m' : ColumnMapPageModifier} {baseIdx : Nat}
    {mainStartIdx mainEndIdx mainStartIdx' mainEndIdx' : Nat} (start : AtStart m)
    (quiet : emptyFlush ∉ m.failedAsserts) (fits : KeyFits env page baseIdx)
    (restart : cleanKey env page m baseIdx mainStartIdx mainEndIdx = .restart m' mainStartIdx' mainEndIdx') :
    0 < m.fillEndIdx ∧ AtStart (flush m') ∧ emptyFlush ∉ (flush m').failedAsserts := by
  obtain ⟨bound, kept, -, index⟩ := cleanKey_restart_bound env page restart
  have := kept.fillEndIdx
  have := kept.updateEndIdx
  unfold KeyFits at fits
  have nonempty : 0 < m.fillEndIdx := Nat.pos_of_ne_zero fun zero => by
    have := start.emptySize zero
    omega
  have := start.updateIdx
  exact ⟨nonempty, (flush_atStart (by omega)).1,
    flush_quiet (by omega) (kept.failedAsserts ▸ quiet)⟩

/-- A pass from an empty fill page never overflows: a key restarted after a flush is
not restarted again. -/
theorem cleanKey_fresh_never_restarts {baseIdx : Nat} (fits : KeyFits env page baseIdx)
    (m m' : ColumnMapPageModifier) (mainStartIdx mainEndIdx mainStartIdx' mainEndIdx' : Nat) :
    cleanKey env page (flush m) baseIdx mainStartIdx mainEndIdx ≠
      .restart m' mainStartIdx' mainEndIdx' := fun restart => by
  have bound := (cleanKey_restart_bound env page restart).1
  unfold KeyFits at fits
  have empty : (flush m).fillSize = 0 := rfl
  omega

/-- `clean`'s loop from a key's first row finishes within two passes per row left, at
`START` and with the assertion of line 567 not failed. -/
theorem cleanLoop_terminates (fits : ∀ b < page.count, FirstOfKey page b → KeyFits env page b)
    (n : Nat) : ∀ (fuel : Nat) (m : ColumnMapPageModifier) (i mainStartIdx mainEndIdx : Nat),
    page.count - i ≤ n → 2 * n + 1 ≤ fuel → AtStart m → emptyFlush ∉ m.failedAsserts →
    (i < page.count → FirstOfKey page i) →
    ∃ result, cleanLoop env page fuel m i mainStartIdx mainEndIdx = some result ∧
      AtStart result.1 ∧ emptyFlush ∉ result.1.failedAsserts := by
  induction n with
  | zero =>
    intro fuel m i mainStartIdx mainEndIdx left enough start quiet _
    obtain ⟨fuel, rfl⟩ : ∃ f, fuel = f + 1 := ⟨fuel - 1, by omega⟩
    simp only [cleanLoop, if_neg (show ¬i < page.count by omega)]
    exact ⟨_, rfl, start, quiet⟩
  | succ n ih =>
    intro fuel m i mainStartIdx mainEndIdx left enough start quiet first
    obtain ⟨fuel, rfl⟩ : ∃ f, fuel = f + 1 := ⟨fuel - 1, by omega⟩
    by_cases inside : i < page.count
    · have keyFits := fits i inside (first inside)
      rcases pass : cleanKey env page m i mainStartIdx mainEndIdx with ⟨m₁, ms, me⟩ | ⟨m₁, i₁, ms, me⟩
      · obtain ⟨-, fresh, freshQuiet⟩ := cleanKey_restart env page start quiet keyFits pass
        obtain ⟨fuel, rfl⟩ : ∃ f, fuel = f + 1 := ⟨fuel - 1, by omega⟩
        rcases retry : cleanKey env page (flush m₁) i ms me with ⟨m₂, ms', me'⟩ | ⟨m₂, i₂, ms', me'⟩
        · exact absurd retry (cleanKey_fresh_never_restarts env page keyFits _ _ _ _ _ _)
        · obtain ⟨start₂, later, first₂, -, committed⟩ := cleanKey_next env page fresh inside retry
          simp only [cleanLoop, if_pos inside, pass, retry]
          exact ih fuel m₂ i₂ ms' me' (by omega) (by omega) start₂ (committed.quiet freshQuiet) first₂
      · obtain ⟨start₁, later, first₁, -, committed⟩ := cleanKey_next env page start inside pass
        simp only [cleanLoop, if_pos inside, pass]
        exact ih fuel m₁ i₁ ms me (by omega) (by omega) start₁ (committed.quiet quiet) first₁
    · simp only [cleanLoop, if_neg inside]
      exact ⟨_, rfl, start, quiet⟩

/-- `clean` finishes within two passes per row, at `START` and with the assertion of line
567 not failed. -/
theorem clean_terminates (fits : ∀ b < page.count, FirstOfKey page b → KeyFits env page b)
    (fuel : Nat) (enough : 2 * page.count + 1 ≤ fuel) (m : ColumnMapPageModifier) (start : AtStart m)
    (quiet : emptyFlush ∉ m.failedAsserts) :
    ∃ m' answer, clean env page fuel m = some (m', answer) ∧ AtStart m' ∧
      emptyFlush ∉ m'.failedAsserts := by
  unfold clean
  split
  · exact ⟨_, _, rfl, ⟨start.1, start.2, start.3, start.4⟩, quiet⟩
  · obtain ⟨⟨m', ms, me⟩, loop, start', quiet'⟩ :=
      cleanLoop_terminates env page fits page.count fuel m 0 0 0 (by omega) enough start quiet
        fun _ => .inl rfl
    rw [loop]
    exact ⟨_, _, rfl, start'.unwritten (flushMain_unwritten env page m' ms me),
      (flushMain_written env page m' ms me).kept.failedAsserts ▸ quiet'⟩

end Key

section Append

variable (env : ModifierEnv)

/-- `append` overflows only from a fill page holding a committed key. -/
theorem appendAttempt_restart {m m' : ColumnMapPageModifier} {record : InsertRecord}
    (start : AtStart m) (quiet : emptyFlush ∉ m.failedAsserts) (fits : RecordFits env record)
    (restart : appendAttempt env m record = .restart m') :
    0 < m.fillEndIdx ∧ AtStart (flush m') ∧ emptyFlush ∉ (flush m').failedAsserts := by
  obtain ⟨bound, kept, -, index⟩ := appendAttempt_restart_bound env restart
  have := kept.fillEndIdx
  have := kept.updateEndIdx
  unfold RecordFits at fits
  have nonempty : 0 < m.fillEndIdx := Nat.pos_of_ne_zero fun zero => by
    have := start.emptySize zero
    omega
  have := start.updateIdx
  exact ⟨nonempty, (flush_atStart (by omega)).1,
    flush_quiet (by omega) (kept.failedAsserts ▸ quiet)⟩

/-- A pass of `append` from an empty fill page never overflows. -/
theorem appendAttempt_fresh_never_restarts {record : InsertRecord} (fits : RecordFits env record)
    (m m' : ColumnMapPageModifier) : appendAttempt env (flush m) record ≠ .restart m' := fun restart => by
  have bound := (appendAttempt_restart_bound env restart).1
  unfold RecordFits at fits
  have empty : (flush m).fillSize = 0 := rfl
  omega

/-- `append` finishes within two passes, at `START` and with the assertion of line 567 not
failed. -/
theorem append_terminates {record : InsertRecord} (fits : RecordFits env record) (fuel : Nat)
    (enough : 2 ≤ fuel) (m : ColumnMapPageModifier) (start : AtStart m)
    (quiet : emptyFlush ∉ m.failedAsserts) :
    ∃ m' kept, append env fuel m record = some (m', kept) ∧ AtStart m' ∧
      emptyFlush ∉ m'.failedAsserts := by
  obtain ⟨fuel, rfl⟩ : ∃ f, fuel = f + 2 := ⟨fuel - 2, by omega⟩
  rcases pass : appendAttempt env m record with m₁ | ⟨m₁, kept⟩
  · obtain ⟨-, fresh, freshQuiet⟩ := appendAttempt_restart env start quiet fits pass
    rcases retry : appendAttempt env (flush m₁) record with m₂ | ⟨m₂, kept⟩
    · exact absurd retry (appendAttempt_fresh_never_restarts env fits _ _)
    · simp only [append, pass, retry]
      obtain ⟨start₂, committed⟩ := appendAttempt_done env fresh retry
      exact ⟨_, _, rfl, start₂, committed.quiet freshQuiet⟩
  · simp only [append, pass]
    obtain ⟨start₁, committed⟩ := appendAttempt_done env start pass
    exact ⟨_, _, rfl, start₁, committed.quiet quiet⟩

end Append

/-- Every modifier run whose keys each fit on a fill page finishes within the passes its
calls need when each key is restarted at most once, at `START`. -/
theorem runCalls_terminates (env : ModifierEnv) (fuel : Nat) : ∀ (calls : List ModifierCall)
    (m : ColumnMapPageModifier), AtStart m → emptyFlush ∉ m.failedAsserts →
    (∀ call ∈ calls, call.Fits env) → (∀ call ∈ calls, call.passes ≤ fuel) →
    ∃ m' answers, runCalls env fuel m calls = some (m', answers) ∧ AtStart m' ∧
      emptyFlush ∉ m'.failedAsserts
  | [], m, start, quiet, _, _ => ⟨m, [], rfl, start, quiet⟩
  | call :: calls, m, start, quiet, fits, enough => by
    have called : ∃ m₁ answer, call.run env fuel m = some (m₁, answer) ∧ AtStart m₁ ∧
        emptyFlush ∉ m₁.failedAsserts := by
      cases call with
      | clean page =>
        exact clean_terminates env page (fits _ (List.mem_cons_self _ _)) fuel
          (enough _ (List.mem_cons_self _ _)) m start quiet
      | append record =>
        exact append_terminates env (fits _ (List.mem_cons_self _ _)) fuel
          (enough _ (List.mem_cons_self _ _)) m start quiet
    obtain ⟨m₁, answer, first, start₁, quiet₁⟩ := called
    obtain ⟨m', answers, rest, start'⟩ := runCalls_terminates env fuel calls m₁ start₁ quiet₁
      (fun call mem => fits call (List.mem_cons_of_mem _ mem))
      (fun call mem => enough call (List.mem_cons_of_mem _ mem))
    exact ⟨m', answer :: answers, by simp [runCalls, first, rest], start'⟩

theorem init_atStart (firstPage : Nat) : AtStart (init firstPage) :=
  ⟨rfl, rfl, le_rfl, fun _ => rfl⟩

/-- When every key of a modifier run fits on a fill page: the run finishes within the
passes its calls need when each key is restarted at most once; a pass that starts after a
flush, on an empty fill page, never restarts, so each key is restarted at most once; and
the assertion "Trying to flush empty page" at line 567 never fails. -/
theorem compact_terminates_restarting_keys_once (env : ModifierEnv) (fuel firstPage : Nat)
    (calls : List ModifierCall) (fits : ∀ call ∈ calls, call.Fits env)
    (enough : ∀ call ∈ calls, call.passes ≤ fuel) :
    (∃ m pages, compact env fuel firstPage calls = some (m, pages) ∧ emptyFlush ∉ m.failedAsserts) ∧
    (∀ page, ModifierCall.clean page ∈ calls → ∀ b < page.count, FirstOfKey page b →
      ∀ (m m' : ColumnMapPageModifier) (mainStartIdx mainEndIdx mainStartIdx' mainEndIdx' : Nat),
        cleanKey env page (flush m) b mainStartIdx mainEndIdx ≠ .restart m' mainStartIdx' mainEndIdx') ∧
    (∀ record, ModifierCall.append record ∈ calls → ∀ m m' : ColumnMapPageModifier,
      appendAttempt env (flush m) record ≠ .restart m') := by
  refine ⟨?_, fun page mem b inside first => cleanKey_fresh_never_restarts env page
      (fits _ mem b inside first),
    fun record mem => appendAttempt_fresh_never_restarts env (fits _ mem)⟩
  obtain ⟨m, answers, run, -, quiet⟩ := runCalls_terminates env fuel calls (init firstPage)
    (init_atStart firstPage) (List.not_mem_nil _) fits enough
  refine ⟨(done m).1, (done m).2, by simp [compact, run], ?_⟩
  unfold done
  split
  · rename_i nonempty
    exact flushFillPage_quiet (Nat.pos_of_ne_zero nonempty) quiet
  · exact quiet

/-- A `MAX_DATA_SIZE` of 64 bytes and a page of two keys, each with two rows of 16 bytes,
cleaned below the low-water mark 10: each key costs exactly 64 bytes, so key 1 fills the first
fill page, key 2 overflows it and is restarted on a second one, and the run finishes within
the nine passes its call needs and publishes both. -/
theorem compact_terminates_restarting_second_key :
    (∀ call ∈ [ModifierCall.clean ⟨100, [⟨1, 20, 0⟩, ⟨1, 5, 0⟩, ⟨2, 20, 0⟩, ⟨2, 5, 0⟩], [⟨16, 1, []⟩, ⟨16, 2, []⟩, ⟨16, 3, []⟩, ⟨16, 4, []⟩], 0⟩], call.Fits ⟨⟨16, 8, 0, 100, 64⟩, 10, ⟨fun _ _ => []⟩⟩) ∧
    (∀ call ∈ [ModifierCall.clean ⟨100, [⟨1, 20, 0⟩, ⟨1, 5, 0⟩, ⟨2, 20, 0⟩, ⟨2, 5, 0⟩], [⟨16, 1, []⟩, ⟨16, 2, []⟩, ⟨16, 3, []⟩, ⟨16, 4, []⟩], 0⟩], call.passes ≤ 9) ∧
    (compact ⟨⟨16, 8, 0, 100, 64⟩, 10, ⟨fun _ _ => []⟩⟩ 9 200 [.clean ⟨100, [⟨1, 20, 0⟩, ⟨1, 5, 0⟩, ⟨2, 20, 0⟩, ⟨2, 5, 0⟩], [⟨16, 1, []⟩, ⟨16, 2, []⟩, ⟨16, 3, []⟩, ⟨16, 4, []⟩], 0⟩]).map (·.2.length) = some 2 ∧
    ∃ m pages, compact ⟨⟨16, 8, 0, 100, 64⟩, 10, ⟨fun _ _ => []⟩⟩ 9 200 [.clean ⟨100, [⟨1, 20, 0⟩, ⟨1, 5, 0⟩, ⟨2, 20, 0⟩, ⟨2, 5, 0⟩], [⟨16, 1, []⟩, ⟨16, 2, []⟩, ⟨16, 3, []⟩, ⟨16, 4, []⟩], 0⟩] = some (m, pages) ∧ emptyFlush ∉ m.failedAsserts := by
  have fits : ∀ call ∈ [ModifierCall.clean ⟨100, [⟨1, 20, 0⟩, ⟨1, 5, 0⟩, ⟨2, 20, 0⟩, ⟨2, 5, 0⟩], [⟨16, 1, []⟩, ⟨16, 2, []⟩, ⟨16, 3, []⟩, ⟨16, 4, []⟩], 0⟩], call.Fits ⟨⟨16, 8, 0, 100, 64⟩, 10, ⟨fun _ _ => []⟩⟩ := by decide
  have enough : ∀ call ∈ [ModifierCall.clean ⟨100, [⟨1, 20, 0⟩, ⟨1, 5, 0⟩, ⟨2, 20, 0⟩, ⟨2, 5, 0⟩], [⟨16, 1, []⟩, ⟨16, 2, []⟩, ⟨16, 3, []⟩, ⟨16, 4, []⟩], 0⟩], call.passes ≤ 9 := by decide
  exact ⟨fits, enough, by decide, (compact_terminates_restarting_keys_once _ 9 200 _ fits enough).1⟩

end Tellstore.Deltamain.ColumnMap
