import Ferrite.Lib.Paging
import Ferrite.Storage.Memory

/-!
# Paging through the query log

A client of `query_range` follows the cursor: it asks for the rows older than the last one of
the page before, until a page is short.  Rows may be written between the pages.

* `accepts_pageFilter` — a cursor leaves the rows behind its row in the order of the log;
* `writeBatch_queries` — a batch appends, and what the ring has no room for goes from the front;
* `paging_shows_what_stays` — the pages are rows of the filtered log behind the offset, newest
  first and each once, and have all of them that the ring still holds at each question, also when
  newer rows come between the pages;
* `paging_shows_each_row_once` — they are all of them if the ring has room.
-/

namespace Ferrite.Storage.Memory

open Rows

/-! ## A page -/

/-- What a client asks for after a page: rows older than its last one. -/
def pageFilter (f : QueryFilter) (k : UInt64) : Option QueryEntry → QueryFilter
  | none => { f with limit := some k }
  | some last => { f with limit := some k, beforeTs := some last.secs, beforeId := some last.id }

/-- The log before each page, when a batch is written after each one. -/
def logAt (inner : Inner) (scope : RecordScope) (batches : ℕ → List QueryEntry) : ℕ → Inner
  | 0 => inner
  | i + 1 => writeBatch (logAt inner scope batches i) (batches i) scope

/-- What a client has read when it comes to a short page, in `turns` pages at most. -/
def readPages (toLowercase : Text → Text) (inner : Inner) (scope : RecordScope)
    (batches : ℕ → List QueryEntry) (f : QueryFilter) (k : UInt64) (turns : ℕ) :
    Option (List QueryEntry) :=
  Paging.pages
    (fun i cursor => queryRange (logAt inner scope batches i) toLowercase (pageFilter f k cursor))
    k.toNat turns 0 none

/-- The entry belongs before the other one: a later second, or a higher id in the same. -/
def Newer (e first : QueryEntry) : Prop := first.secs < e.secs ∨ e.secs = first.secs ∧ first.id < e.id

theorem newestFirst_lt_iff {a b : QueryEntry} : newestFirst a < newestFirst b ↔ Newer a b := by
  unfold newestFirst Newer
  rw [Prod.Lex.toLex_lt_toLex, OrderDual.toDual_lt_toDual, OrderDual.toDual_lt_toDual,
    UInt64.lt_iff_toNat_lt, OrderDual.toDual_inj]

/-- Entries with different ids have different places. -/
theorem newestFirst_inj {rows : List QueryEntry} (hids : (rows.map fun e => e.id).Nodup) :
    ∀ a ∈ rows, ∀ b ∈ rows, newestFirst a = newestFirst b → a = b := by
  intro a ha b hb hab
  refine List.inj_on_of_nodup_map hids ha hb ?_
  have hid := congrArg (fun o => OrderDual.ofDual (ofLex o).2) hab
  exact UInt64.toNat_inj.1 hid

/-- **A cursor leaves what lies behind its row.** -/
theorem accepts_pageFilter {toLowercase : Text → Text} {f : QueryFilter} (hf : f.cursor = none)
    (k : UInt64) (last e : QueryEntry) :
    accepts toLowercase (pageFilter f k (some last)) e =
      (accepts toLowercase f e && decide (newestFirst last < newestFirst e)) := by
  have hcursor : (pageFilter f k (some last)).cursor = some (last.secs, last.id) := rfl
  have hbehind : (some (last.secs, last.id)).all (fun c : ℤ × UInt64 =>
      e.secs < c.1 || (e.secs = c.1 && e.id < c.2)) = decide (newestFirst last < newestFirst e) := by
    rw [Option.all_some, Bool.eq_iff_iff]
    simp only [Bool.or_eq_true, Bool.and_eq_true, decide_eq_true_eq, newestFirst_lt_iff, Newer,
      eq_comm (a := e.secs)]
  unfold accepts
  rw [hcursor, hf, hbehind, Option.all_none, Bool.and_true]
  rfl

/-! ## Writing between pages -/

theorem writeEntry_queries (scope : RecordScope) (inner : Inner) (e : QueryEntry) :
    (writeEntry scope inner e).queries = inner.queries ++ (if scope.queries then [e.tagged] else []) ∧
      (writeEntry scope inner e).maxEntries = inner.maxEntries := by
  unfold writeEntry
  dsimp only
  split <;> split <;> simp [countEntry]

theorem foldl_writeEntry_queries (scope : RecordScope) (inner : Inner) (entries : List QueryEntry) :
    (entries.foldl (writeEntry scope) inner).queries =
        inner.queries ++ (if scope.queries then entries.map QueryEntry.tagged else []) ∧
      (entries.foldl (writeEntry scope) inner).maxEntries = inner.maxEntries := by
  induction entries generalizing inner with
  | nil => simp
  | cons e entries ih =>
    obtain ⟨hqueries, hmax⟩ := writeEntry_queries scope inner e
    obtain ⟨hrest, hmax'⟩ := ih (writeEntry scope inner e)
    refine ⟨?_, by rw [List.foldl_cons, hmax', hmax]⟩
    rw [List.foldl_cons, hrest, hqueries]
    split <;> simp

/-- A batch appends, and the ring drops what it has no room for. -/
theorem writeBatch_queries (scope : RecordScope) (inner : Inner) (entries : List QueryEntry) :
    ∃ n ≤ inner.queries.length + entries.length - inner.maxEntries,
      (writeBatch inner entries scope).queries =
          (inner.queries ++ (if scope.queries then entries.map QueryEntry.tagged else [])).drop n ∧
        (writeBatch inner entries scope).maxEntries = inner.maxEntries := by
  obtain ⟨hqueries, hmax⟩ := foldl_writeEntry_queries scope inner entries
  unfold writeBatch
  split
  · rename_i hnone
    refine ⟨0, Nat.zero_le _, ?_, rfl⟩
    rw [Bool.or_eq_true, List.isEmpty_iff, RecordScope.recordsAnything] at hnone
    rcases hnone with rfl | hnone
    · simp
    · have hoff : scope.queries = false := by
        cases hq : scope.queries
        · rfl
        · rw [hq] at hnone
          cases hnone
      simp [hoff]
  · refine ⟨(entries.foldl (writeEntry scope) inner).queries.length - inner.maxEntries, ?_, ?_, hmax⟩
    · refine Nat.sub_le_sub_right ?_ _
      rw [hqueries, List.length_append]
      split
      · rw [List.length_map]
      · rw [List.length_nil]
        omega
    · unfold enforceRingCap
      dsimp only
      rw [hmax, hqueries]

/-- The log of a later page has the rows of the first but the ones dropped in front, and rows of
the batches behind them.  None is dropped while the ring has room. -/
theorem logAt_queries (inner : Inner) (scope : RecordScope) (batches : ℕ → List QueryEntry) (i : ℕ) :
    (logAt inner scope batches i).maxEntries = inner.maxEntries ∧
      ∃ n new, (logAt inner scope batches i).queries = inner.queries.drop n ++ new ∧
        (∀ e ∈ new, ∃ j, ∃ e' ∈ batches j, e'.tagged = e) ∧
        ((∀ j, (logAt inner scope batches j).queries.length + (batches j).length ≤ inner.maxEntries) →
          n = 0) := by
  induction i with
  | zero => exact ⟨rfl, 0, [], (List.append_nil _).symm, nofun, fun _ => rfl⟩
  | succ i ih =>
    obtain ⟨hmax, n, new, hqueries, hfrom, hroom⟩ := ih
    obtain ⟨m, hm, hwritten, hmax'⟩ :=
      writeBatch_queries scope (logAt inner scope batches i) (batches i)
    have hlogged : ∀ e ∈ new ++ (if scope.queries then (batches i).map QueryEntry.tagged else []),
        ∃ j, ∃ e' ∈ batches j, e'.tagged = e := by
      intro e he
      rcases List.mem_append.1 he with he | he
      · exact hfrom e he
      · split at he
        · obtain ⟨e', he', rfl⟩ := List.mem_map.1 he
          exact ⟨i, e', he', rfl⟩
        · cases he
    refine ⟨hmax'.trans hmax, n + m,
      (new ++ (if scope.queries then (batches i).map QueryEntry.tagged else [])).drop
        (m - (inner.queries.drop n).length), ?_, fun e he => hlogged e (List.mem_of_mem_drop he), ?_⟩
    · rw [logAt, hwritten, hqueries, List.append_assoc, List.drop_append, List.drop_drop]
    · intro hfits
      have hi := hfits i
      rw [hmax] at hm
      rw [hroom hfits]
      omega

/-! ## All pages -/

/-- The rows that the first question asks for, in their order. -/
def wanted (toLowercase : Text → Text) (inner : Inner) (f : QueryFilter) : List QueryEntry :=
  orderBy newestFirst (inner.queries.filter (accepts toLowercase f))

/-- The rows are told apart by their order. -/
theorem pairwise_wanted {inner : Inner} (hids : (inner.queries.map fun e => e.id).Nodup)
    (toLowercase : Text → Text) (f : QueryFilter) :
    (wanted toLowercase inner f).Pairwise fun a b => newestFirst a < newestFirst b :=
  Paging.pairwise_lt_orderBy ((List.Nodup.of_map _ hids).filter _) fun a ha b hb =>
    newestFirst_inj hids a (List.mem_of_mem_filter ha) b (List.mem_of_mem_filter hb)

/-- What lies behind a row. -/
theorem mem_behind_iff {toLowercase : Text → Text} {inner : Inner} {f : QueryFilter}
    (hids : (inner.queries.map fun e => e.id).Nodup) {before after : List QueryEntry}
    {last : QueryEntry} (hrows : wanted toLowercase inner f = before ++ last :: after)
    (e : QueryEntry) : e ∈ after ↔
      e ∈ inner.queries ∧ accepts toLowercase f e = true ∧ newestFirst last < newestFirst e := by
  have hsorted := pairwise_wanted hids toLowercase f
  rw [hrows] at hsorted
  rw [← Paging.filter_after hsorted, ← hrows, List.mem_filter, decide_eq_true_eq, wanted,
    (orderBy_perm _ _).mem_iff, List.mem_filter, and_assoc]

/-- Behind a row of the log lie, at every later page, the rows that lay behind it at the first and
are still logged. -/
theorem queryRange_behind {toLowercase : Text → Text} {inner later : Inner} {f : QueryFilter}
    (hids : (inner.queries.map fun e => e.id).Nodup) (hf : f.cursor = none) (k : UInt64)
    {n : ℕ} {new before after : List QueryEntry} {last : QueryEntry}
    (hlater : later.queries = inner.queries.drop n ++ new)
    (hnew : ∀ e ∈ new, ¬ newestFirst last < newestFirst e)
    (hrows : wanted toLowercase inner f = before ++ last :: after) :
    queryRange later toLowercase (pageFilter f k (some last)) =
      (after.filter (· ∈ later.queries)).take k.toNat := by
  have hsome : (pageFilter f k (some last)).cursor.isSome = true := rfl
  have hlimit : (pageFilter f k (some last)).limit = some k := rfl
  have hfilter : accepts toLowercase (pageFilter f k (some last)) = fun e =>
      accepts toLowercase f e && decide (newestFirst last < newestFirst e) :=
    funext fun e => accepts_pageFilter hf k last e
  have hnodup : inner.queries.Nodup := List.Nodup.of_map _ hids
  have hafter := mem_behind_iff hids hrows
  have hbehind : after.Pairwise fun a b => newestFirst a < newestFirst b := by
    have hsorted := pairwise_wanted hids toLowercase f
    rw [hrows] at hsorted
    exact (List.pairwise_cons.1 (List.pairwise_append.1 hsorted).2.1).2
  -- of the later log only rows of the first lie behind the cursor
  have hkept : later.queries.filter (fun e =>
        accepts toLowercase f e && decide (newestFirst last < newestFirst e)) =
      (inner.queries.drop n).filter fun e =>
        accepts toLowercase f e && decide (newestFirst last < newestFirst e) := by
    have hnone : new.filter (fun e =>
        accepts toLowercase f e && decide (newestFirst last < newestFirst e)) = [] :=
      List.filter_eq_nil_iff.2 fun e he => by simp [hnew e he]
    rw [hlater, List.filter_append, hnone, List.append_nil]
  have hperm : (after.filter (· ∈ later.queries)).Perm (later.queries.filter fun e =>
      accepts toLowercase f e && decide (newestFirst last < newestFirst e)) := by
    refine (List.perm_ext_iff_of_nodup ?_ ?_).2 fun e => ?_
    · exact (hbehind.imp fun h => ne_of_apply_ne newestFirst h.ne).filter _
    · rw [hkept]
      exact (hnodup.sublist (List.drop_sublist n _)).filter _
    · simp only [List.mem_filter, hafter e, decide_eq_true_eq, Bool.and_eq_true]
      refine ⟨fun h => ⟨h.2, h.1.2⟩, fun h => ⟨⟨?_, h.2⟩, h.1⟩⟩
      have hmem := h.1
      rw [hlater] at hmem
      exact List.mem_of_mem_drop
        ((List.mem_append.1 hmem).resolve_right fun hin => hnew e hin h.2.2)
  have hrest : orderBy newestFirst (later.queries.filter fun e =>
      accepts toLowercase f e && decide (newestFirst last < newestFirst e)) =
      after.filter (· ∈ later.queries) := by
    refine (eq_orderBy hperm ((hbehind.imp fun h => h.le).filter _) fun a ha b hb => ?_).symm
    have hold : ∀ e ∈ later.queries.filter (fun e =>
        accepts toLowercase f e && decide (newestFirst last < newestFirst e)), e ∈ inner.queries :=
      fun e he => ((hafter e).1 (List.mem_of_mem_filter (hperm.mem_iff.2 he))).1
    exact newestFirst_inj hids a (hold a ha) b (hold b hb)
  unfold queryRange
  dsimp only
  rw [hsome, if_pos rfl, hlimit, hfilter, hrest, Option.getD_some]
  rfl

/-- **What paging shows of a log that loses rows.**  Whatever the filter, the page size, and the
batches of newer rows between the pages, a client that follows the cursor to a short page has read
rows of the filtered log from the offset of its first question on, newest first and none twice.
A row it has not read was gone from the ring at some question. -/
theorem paging_shows_what_stays (toLowercase : Text → Text) (inner : Inner) (f : QueryFilter)
    (k : UInt64) (scope : RecordScope) (batches : ℕ → List QueryEntry)
    (hids : (inner.queries.map fun e => e.id).Nodup) (hf : f.cursor = none) (hk : 1 ≤ k)
    (hnewer : ∀ first ∈ (queryRange inner toLowercase (pageFilter f k none)).head?,
      ∀ i, ∀ e ∈ batches i, Newer e first)
    (turns : ℕ) (hturns : inner.queries.length < turns) :
    ∃ read, readPages toLowercase inner scope batches f k turns = some read ∧
      read.Sublist ((wanted toLowercase inner f).drop (f.offset.getD 0).toNat) ∧
      ∀ e ∈ (wanted toLowercase inner f).drop (f.offset.getD 0).toNat,
        (∀ i, e ∈ (logAt inner scope batches i).queries) → e ∈ read := by
  have hpos : 0 < k.toNat := by
    have := UInt64.le_iff_toNat_le.1 hk
    exact this
  have hfirst : queryRange inner toLowercase (pageFilter f k none) =
      ((wanted toLowercase inner f).drop (f.offset.getD 0).toNat).take k.toNat := by
    have hcursor : (pageFilter f k none).cursor = none := hf
    unfold queryRange
    rw [hcursor]
    rfl
  have hlogged : ∀ e ∈ (wanted toLowercase inner f).drop (f.offset.getD 0).toNat,
      e ∈ inner.queries := by
    intro e he
    exact List.mem_of_mem_filter ((orderBy_perm _ _).mem_iff.1 (List.mem_of_mem_drop he))
  have hnext : ∀ i before last after,
      (wanted toLowercase inner f).drop (f.offset.getD 0).toNat = before ++ last :: after →
      queryRange (logAt inner scope batches (i + 1)) toLowercase (pageFilter f k (some last)) =
        (after.filter (· ∈ (logAt inner scope batches (i + 1)).queries)).take k.toNat := by
    intro i before last after hrows
    obtain ⟨-, n, new, hnew, hfrom, -⟩ := logAt_queries inner scope batches (i + 1)
    have hsplit : wanted toLowercase inner f =
        ((wanted toLowercase inner f).take (f.offset.getD 0).toNat ++ before) ++ last :: after := by
      rw [List.append_assoc, ← hrows, List.take_append_drop]
    refine queryRange_behind hids hf k hnew (fun e he => ?_) hsplit
    -- the first row seen is not behind the cursor's, and the new rows are before it
    obtain ⟨j, e', he', rfl⟩ := hfrom e he
    have hsorted := pairwise_orderBy newestFirst (inner.queries.filter (accepts toLowercase f))
    obtain ⟨first, hhead, hle⟩ :=
      Paging.exists_head_le (hsorted.sublist (List.drop_sublist _ _)) hrows hpos
    have hlt : newestFirst e' < newestFirst first :=
      newestFirst_lt_iff.2 (hnewer first (hfirst ▸ hhead) j e' he')
    exact not_lt.2 (hlt.le.trans hle)
  have hlength : ((wanted toLowercase inner f).drop (f.offset.getD 0).toNat).length < turns := by
    calc ((wanted toLowercase inner f).drop (f.offset.getD 0).toNat).length
        ≤ (wanted toLowercase inner f).length := by rw [List.length_drop]; omega
      _ = (inner.queries.filter (accepts toLowercase f)).length := length_orderBy ..
      _ ≤ inner.queries.length := List.length_filter_le _ _
      _ < turns := hturns
  have hstart : queryRange (logAt inner scope batches 0) toLowercase (pageFilter f k none) =
      (((wanted toLowercase inner f).drop (f.offset.getD 0).toNat).filter
        (· ∈ (logAt inner scope batches 0).queries)).take k.toNat := by
    have hsame := List.filter_eq_self.2 fun e he =>
      (decide_eq_true (hlogged e he) : decide (e ∈ (logAt inner scope batches 0).queries) = true)
    rw [hsame]
    exact hfirst
  obtain ⟨read, hread, hsub, hall⟩ := Paging.pages_sublist
    (fun i cursor => queryRange (logAt inner scope batches i) toLowercase (pageFilter f k cursor))
    hpos ((wanted toLowercase inner f).drop (f.offset.getD 0).toNat)
    (fun i e => decide (e ∈ (logAt inner scope batches i).queries)) hstart hnext hlength
  exact ⟨read, hread, hsub, fun e he hstays => hall e he fun i => decide_eq_true (hstays i)⟩

/-- **Paging shows every row once.**  Whatever the filter, the page size and the batches of
newer rows that the ring takes between the pages, a client that follows the cursor to a short
page has read the filtered log, newest first, from the offset of its first question on. -/
theorem paging_shows_each_row_once (toLowercase : Text → Text) (inner : Inner) (f : QueryFilter)
    (k : UInt64) (scope : RecordScope) (batches : ℕ → List QueryEntry)
    (hids : (inner.queries.map fun e => e.id).Nodup) (hf : f.cursor = none) (hk : 1 ≤ k)
    (hroom : ∀ i, (logAt inner scope batches i).queries.length + (batches i).length ≤ inner.maxEntries)
    (hnewer : ∀ first ∈ (queryRange inner toLowercase (pageFilter f k none)).head?,
      ∀ i, ∀ e ∈ batches i, Newer e first)
    (turns : ℕ) (hturns : inner.queries.length < turns) :
    readPages toLowercase inner scope batches f k turns =
      some ((wanted toLowercase inner f).drop (f.offset.getD 0).toNat) := by
  obtain ⟨read, hread, hsub, hall⟩ :=
    paging_shows_what_stays toLowercase inner f k scope batches hids hf hk hnewer turns hturns
  have hnodup : (wanted toLowercase inner f).Nodup :=
    (pairwise_wanted hids toLowercase f).imp fun h => ne_of_apply_ne newestFirst h.ne
  have hmem : (wanted toLowercase inner f).drop (f.offset.getD 0).toNat ⊆ read := by
    intro e he
    refine hall e he fun i => ?_
    obtain ⟨-, n, new, hqueries, -, hfits⟩ := logAt_queries inner scope batches i
    rw [hqueries, hfits hroom, List.drop_zero]
    exact List.mem_append_left _
      (List.mem_of_mem_filter ((orderBy_perm _ _).mem_iff.1 (List.mem_of_mem_drop he)))
  have hlen := ((hnodup.sublist (List.drop_sublist _ _)).subperm hmem).length_le
  rw [hread, hsub.eq_of_length_le hlen]

/-! ### A second with several rows -/

/-- An entry of a second, with a part of it on top. -/
def loggedAt (secs : ℤ) (nanos : ℕ) (id : UInt64) : QueryEntry where
  domain := "a.test".toList
  queryType := 1
  clientIp := "192.168.1.10".toList
  device := []
  status := .upstream
  upstream := none
  rcode := 0
  id := id
  timestamp := ⟨secs, nanos⟩
  latencyMs := 0

/-- Three rows of one second, and an older one that came last. -/
def busy : Inner :=
  { openStorage 4096 with
    queries := [loggedAt 10 7 1, loggedAt 10 3 2, loggedAt 10 5 3, loggedAt 9 0 4] }

/-- A filter that takes all rows. -/
def allRows : QueryFilter := ⟨none, none, none, [], [], none, none, none, none, none⟩

/-- A newer row of the same second, after the first page. -/
def late : ℕ → List QueryEntry
  | 0 => [loggedAt 10 9 5]
  | _ + 1 => []

theorem paging_shows_each_row_once_busy :
    readPages id busy ⟨true, true⟩ late allRows 2 5 =
      some [loggedAt 10 5 3, loggedAt 10 3 2, loggedAt 10 7 1, loggedAt 9 0 4] := by
  have hsame : ∀ i, logAt busy ⟨true, true⟩ late (i + 1) = logAt busy ⟨true, true⟩ late 1 := by
    intro i
    induction i with
    | zero => rfl
    | succ i ih =>
      rw [← ih]
      rfl
  have hroom : ∀ i, (logAt busy ⟨true, true⟩ late i).queries.length + (late i).length ≤ busy.maxEntries := by
    intro i
    cases i with
    | zero => decide +kernel
    | succ i =>
      rw [hsame]
      show _ + 0 ≤ _
      decide +kernel
  have h := paging_shows_each_row_once id busy allRows 2 ⟨true, true⟩ late (by decide +kernel) rfl
    (by decide) hroom (by
      intro first hfirst i e he
      have hthree : (queryRange busy id (pageFilter allRows 2 none)).head? = some (loggedAt 10 5 3) := by
        decide +kernel
      rw [hthree] at hfirst
      obtain rfl := Option.some.inj hfirst
      cases i with
      | zero =>
        rw [List.mem_singleton.1 he]
        exact Or.inr ⟨rfl, by decide⟩
      | succ i => cases he) 5 (by decide +kernel)
  rw [h]
  decide +kernel

/-- The rows of an offset are never shown, nor is a row that a full ring drops before its page
comes. -/
theorem offset_and_full_ring_skip_a_row :
    readPages id busy ⟨true, true⟩ (fun _ => []) { allRows with offset := some 1 } 2 5 ≠
        some (wanted id busy { allRows with offset := some 1 }) ∧
      readPages id { busy with maxEntries := 4 } ⟨true, true⟩ late allRows 2 5 ≠
        some (wanted id { busy with maxEntries := 4 } allRows) := by
  refine ⟨by decide +kernel, by decide +kernel⟩

end Ferrite.Storage.Memory
