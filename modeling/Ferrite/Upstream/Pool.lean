import Mathlib.Data.Int.CardIntervalMod
import Ferrite.Lib.Bytes
import Ferrite.Lib.Threads
import Ferrite.Upstream.Router

/-!
# The pool of upstreams

`UpstreamPool::resolve_raw` of `upstream/src/pool.rs`: each query takes the next number of a
counter all queries share, and goes round the upstreams from there until one answers.  Any
number of queries are on their way at once, and an upstream may answer or fail each of them.

`turn` is what a query has heard so far, in order.

* `inv_step` — one step; `inv_of_run` — a run;
* `pool_goes_round` — a query asks each upstream at most once, in order, and fails only after all
  of them have; `pool_is_fair` — the first places are shared out evenly.
-/

namespace Ferrite.Upstream

open Lts Threads

namespace Pool

/-- What an upstream says to a query: bytes and the upstream's label, or an error. -/
abbrev Said := Except Text (Bytes × Text)

/-- A query that waits for an upstream: where it started, and how many it has tried. -/
structure Call where
  start : ℕ
  i : ℕ
deriving DecidableEq, Repr

/-- The counter, the queries on their way, and what happened so far.  Queries are numbered as
they come. -/
structure Traffic where
  counter : ℕ
  calls : Table ℕ Call
  /-- The upstream each query started with. -/
  firsts : List ℕ
  /-- Query, upstream, and what it said. -/
  heard : List (ℕ × ℕ × Said)
  answered : List (ℕ × Said)

/-- A query comes, or hears from its upstream. -/
inductive Action where
  | begin
  | hear (k : ℕ) (said : Said)

def Traffic.new : Traffic := ⟨0, ∅, [], [], []⟩

/-- `usize` has 64 bits. -/
def usize : ℕ := 2 ^ 64

/-- One step of `resolve_raw`, for a pool of `n`. -/
def step (n : ℕ) (s : Traffic) : Action → Option Traffic
  | .begin =>
    let start := s.counter % n
    some { s with
      counter := (s.counter + 1) % usize
      calls := put s.calls s.firsts.length (some ⟨start, 0⟩)
      firsts := s.firsts ++ [start] }
  | .hear k said =>
    match s.calls.lookup k with
    | none => none
    | some c =>
      let s := { s with heard := s.heard ++ [(k, (c.start + c.i) % n, said)] }
      match said with
      | .ok _ =>
        some { s with calls := put s.calls k none, answered := s.answered ++ [(k, said)] }
      | .error _ =>
        if c.i + 1 < n then some { s with calls := put s.calls k (some ⟨c.start, c.i + 1⟩) }
        else some { s with calls := put s.calls k none, answered := s.answered ++ [(k, said)] }

/-- What the query `k` heard, from whom. -/
def turn (heard : List (ℕ × ℕ × Said)) (k : ℕ) : List (ℕ × Said) :=
  heard.filterMap fun x => if x.1 = k then some x.2 else none

/-- The first `i` upstreams from `start` on, in order. -/
def round (n start i : ℕ) : List ℕ := (List.range i).map fun j => (start + j) % n

/-- The query `k` starts with the upstream its number points to. -/
def first (n k : ℕ) : ℕ := k % usize % n

/-- The upstreams from `start` on failed, `i` of them. -/
structure Failed (n start i : ℕ) (heard : List (ℕ × Said)) : Prop where
  round : heard.map Prod.fst = round n start i
  errors : ∀ x ∈ heard, ∃ e, x.2 = .error e

/-- The turn of a query that was answered: failures, and then what it was answered, which is a
failure only if it is the last upstream's. -/
def Ended (n start : ℕ) (heard : List (ℕ × Said)) (said : Said) : Prop :=
  ∃ i < n, ∃ before, heard = before ++ [((start + i) % n, said)] ∧ Failed n start i before ∧
    ((∃ r, said = .ok r) ∨ i + 1 = n)

/-- A query waits, or was answered once. -/
structure Inv (n : ℕ) (s : Traffic) : Prop where
  counter : s.counter = s.firsts.length % usize
  firsts : s.firsts = (List.range s.firsts.length).map (first n)
  waiting : ∀ k c, s.calls.lookup k = some c → k < s.firsts.length ∧ c.start = first n k ∧
    c.i < n ∧ Failed n c.start c.i (turn s.heard k)
  fresh : ∀ k, s.firsts.length ≤ k → turn s.heard k = []
  ended : ∀ x ∈ s.answered, x.1 < s.firsts.length ∧ s.calls.lookup x.1 = none ∧
    Ended n (first n x.1) (turn s.heard x.1) x.2
  once : (s.answered.map Prod.fst).Nodup
  all : ∀ k < s.firsts.length, (s.calls.lookup k).isSome ∨ ∃ said, (k, said) ∈ s.answered

/-! ## One step -/

theorem turn_append (heard : List (ℕ × ℕ × Said)) (k u : ℕ) (said : Said) (k' : ℕ) :
    turn (heard ++ [(k, u, said)]) k' =
      if k = k' then turn heard k' ++ [(u, said)] else turn heard k' := by
  rw [turn, List.filterMap_append]
  by_cases h : k = k' <;> simp [h, turn]

theorem Failed.nil (n start : ℕ) : Failed n start 0 [] := ⟨rfl, by simp⟩

theorem Failed.snoc {n start i : ℕ} {heard : List (ℕ × Said)} (h : Failed n start i heard)
    (e : Text) : Failed n start (i + 1) (heard ++ [((start + i) % n, .error e)]) := by
  constructor
  · rw [List.map_append, h.round, Pool.round, Pool.round, List.range_succ, List.map_append]
    rfl
  · intro x hx
    obtain hx | hx := List.mem_append.1 hx
    · exact h.errors x hx
    · rw [List.mem_singleton.1 hx]
      exact ⟨e, rfl⟩

variable {n : ℕ} {s s' : Traffic}

theorem Inv.new : Inv n .new where
  counter := rfl
  firsts := rfl
  waiting := by simp [Traffic.new]
  fresh := by simp [Traffic.new, turn]
  ended := by simp [Traffic.new]
  once := by simp [Traffic.new]
  all := by simp [Traffic.new]

theorem inv_begin (hn : 0 < n) (h : Inv n s) (hstep : step n s .begin = some s') : Inv n s' := by
  cases hstep
  have hfree : s.calls.lookup s.firsts.length = none := by
    by_contra hsome
    obtain ⟨c, hc⟩ := Option.ne_none_iff_exists'.1 hsome
    exact absurd (h.waiting _ c hc).1 (lt_irrefl _)
  have hfirst : s.counter % n = first n s.firsts.length := by rw [first, h.counter]
  constructor
  · simp only [List.length_append, List.length_singleton]
    rw [h.counter, Nat.mod_add_mod]
  · simp only [List.length_append, List.length_singleton]
    rw [List.range_succ, List.map_append, ← h.firsts, hfirst]
    rfl
  · intro k c hc
    simp only [List.length_append, List.length_singleton] at hc ⊢
    obtain ⟨rfl, hcall⟩ | ⟨-, hc⟩ := lookup_put_iff.1 hc
    · cases hcall
      refine ⟨Nat.lt_succ_self _, hfirst, hn, ?_⟩
      rw [h.fresh _ le_rfl]
      exact Failed.nil n _
    · obtain ⟨hlt, hrest⟩ := h.waiting k c hc
      exact ⟨Nat.lt_succ_of_lt hlt, hrest⟩
  · intro k hk
    simp only [List.length_append, List.length_singleton] at hk
    exact h.fresh k (by omega)
  · intro x hx
    obtain ⟨hlt, hnone, hended⟩ := h.ended x hx
    simp only [List.length_append, List.length_singleton]
    refine ⟨Nat.lt_succ_of_lt hlt, ?_, hended⟩
    rw [put, Table.lookup_insert_eq, if_neg hlt.ne]
    exact hnone
  · exact h.once
  · intro k hk
    simp only [List.length_append, List.length_singleton] at hk ⊢
    by_cases hlast : k = s.firsts.length
    · subst hlast
      rw [put, AList.lookup_insert]
      exact Or.inl rfl
    · rw [put, Table.lookup_insert_eq, if_neg hlast]
      exact h.all k (by omega)

/-- A query hears from its upstream and goes on to the next. -/
theorem inv_next {k : ℕ} {c : Call} {e : Text} (h : Inv n s) (hc : s.calls.lookup k = some c)
    (hi : c.i + 1 < n) :
    Inv n { s with
      heard := s.heard ++ [(k, (c.start + c.i) % n, .error e)]
      calls := put s.calls k (some ⟨c.start, c.i + 1⟩) } := by
  obtain ⟨hlt, hstart, -, hfailed⟩ := h.waiting k c hc
  refine ⟨h.counter, h.firsts, ?_, ?_, ?_, h.once, ?_⟩
  · intro k' c' hc'
    rw [turn_append]
    obtain ⟨rfl, hcall⟩ | ⟨hne, hc'⟩ := lookup_put_iff.1 hc'
    · cases hcall
      rw [if_pos rfl]
      exact ⟨hlt, hstart, hi, hfailed.snoc e⟩
    · rw [if_neg (Ne.symm hne)]
      exact h.waiting k' c' hc'
  · intro k' hk'
    simp only at hk'
    rw [turn_append, if_neg (by omega)]
    exact h.fresh k' hk'
  · intro x hx
    obtain ⟨hxlt, hnone, hended⟩ := h.ended x hx
    have hne : x.1 ≠ k := by
      rintro heq
      rw [heq, hc] at hnone
      cases hnone
    simp only
    rw [turn_append, if_neg (Ne.symm hne), put, Table.lookup_insert_eq, if_neg hne]
    exact ⟨hxlt, hnone, hended⟩
  · intro k' hk'
    obtain hsome | hanswered := h.all k' hk'
    · refine Or.inl ?_
      simp only
      rw [put, Table.lookup_insert_eq]
      split
      · rfl
      · exact hsome
    · exact Or.inr hanswered

/-- A query hears the last it will, and is answered with that. -/
theorem inv_end {k : ℕ} {c : Call} {said : Said} (h : Inv n s) (hc : s.calls.lookup k = some c)
    (hlast : (∃ r, said = .ok r) ∨ c.i + 1 = n) :
    Inv n { s with
      heard := s.heard ++ [(k, (c.start + c.i) % n, said)]
      calls := put s.calls k none
      answered := s.answered ++ [(k, said)] } := by
  obtain ⟨hlt, hstart, hi, hfailed⟩ := h.waiting k c hc
  have hne : ∀ x ∈ s.answered, x.1 ≠ k := by
    rintro x hx heq
    have hnone := (h.ended x hx).2.1
    rw [heq, hc] at hnone
    cases hnone
  refine ⟨h.counter, h.firsts, ?_, ?_, ?_, ?_, ?_⟩
  · intro k' c' hc'
    obtain ⟨-, hcall⟩ | ⟨hk', hc'⟩ := lookup_put_iff.1 hc'
    · cases hcall
    · rw [turn_append, if_neg (Ne.symm hk')]
      exact h.waiting k' c' hc'
  · intro k' hk'
    simp only at hk'
    rw [turn_append, if_neg (by omega)]
    exact h.fresh k' hk'
  · intro x hx
    simp only
    rw [turn_append, put, Table.lookup_erase_eq]
    obtain hx | hx := List.mem_append.1 hx
    · obtain ⟨hxlt, hnone, hended⟩ := h.ended x hx
      rw [if_neg (hne x hx), if_neg (Ne.symm (hne x hx))]
      exact ⟨hxlt, hnone, hended⟩
    · rw [List.mem_singleton.1 hx, if_pos rfl, if_pos rfl, ← hstart]
      exact ⟨hlt, rfl, c.i, hi, turn s.heard k, rfl, hfailed, hlast⟩
  · simp only
    rw [List.map_append, List.nodup_append]
    refine ⟨h.once, List.nodup_singleton _, ?_⟩
    intro a ha b hb
    obtain ⟨x, hx, rfl⟩ := List.mem_map.1 ha
    rw [List.map_singleton, List.mem_singleton] at hb
    rw [hb]
    exact hne x hx
  · intro k' hk'
    simp only
    by_cases hk : k' = k
    · subst hk
      exact Or.inr ⟨said, List.mem_append_right _ (List.mem_singleton_self _)⟩
    · rw [put, Table.lookup_erase_eq, if_neg hk]
      obtain hsome | ⟨said', hsaid'⟩ := h.all k' hk'
      · exact Or.inl hsome
      · exact Or.inr ⟨said', List.mem_append_left _ hsaid'⟩

theorem inv_step (hn : 0 < n) {a : Action} (h : Inv n s) (hstep : step n s a = some s') :
    Inv n s' := by
  cases a with
  | begin => exact inv_begin hn h hstep
  | hear k said =>
    simp only [step] at hstep
    split at hstep
    · cases hstep
    · rename_i c hc
      split at hstep
      · rename_i r
        cases hstep
        exact inv_end h hc (Or.inl ⟨r, rfl⟩)
      · rename_i e
        split at hstep
        · rename_i hi
          cases hstep
          exact inv_next h hc hi
        · rename_i hi
          cases hstep
          have := (h.waiting k c hc).2.2.1
          exact inv_end h hc (Or.inr (by omega))

/-! ## The round -/

theorem nodup_round {start i : ℕ} (hi : i ≤ n) : (round n start i).Nodup := by
  refine List.Nodup.map_on ?_ List.nodup_range
  intro a ha b hb heq
  rw [List.mem_range] at ha hb
  have hmod : a ≡ b [MOD n] := Nat.ModEq.add_left_cancel' start heq
  exact Nat.ModEq.eq_of_lt_of_lt hmod (by omega) (by omega)

/-- All the way round is every upstream. -/
theorem mem_round {start u : ℕ} (hu : u < n) : u ∈ round n start n := by
  have hsub : (round n start n).toFinset ⊆ Finset.range n := by
    intro v hv
    rw [List.mem_toFinset, round, List.mem_map] at hv
    obtain ⟨j, -, rfl⟩ := hv
    exact Finset.mem_range.2 (Nat.mod_lt _ (by omega))
  have hcard : (round n start n).toFinset.card = n := by
    rw [List.toFinset_card_of_nodup (nodup_round le_rfl), round, List.length_map, List.length_range]
  have heq := Finset.eq_of_subset_of_card_le hsub (by rw [hcard, Finset.card_range])
  rw [← List.mem_toFinset, heq]
  exact Finset.mem_range.2 hu

theorem Failed.round_snoc {start i : ℕ} {before : List (ℕ × Said)} (h : Failed n start i before)
    (said : Said) :
    (before ++ [((start + i) % n, said)]).map Prod.fst = Pool.round n start (i + 1) := by
  rw [List.map_append, h.round, Pool.round, Pool.round, List.range_succ, List.map_append]
  rfl

end Pool

open Pool

variable {crates : Crates} {configs : List UpstreamConfig} {pool : UpstreamPool}

/-- A pool that was built has somebody to ask. -/
theorem length_upstreams_pos (h : UpstreamPool.fromConfig crates configs = .ok pool) :
    0 < pool.upstreams.length := by
  unfold UpstreamPool.fromConfig at h
  by_cases hempty : configs = []
  · rw [if_pos hempty] at h
    cases h
  · rw [if_neg hempty] at h
    cases hentries : configs.mapM (entryFromConfig crates) with
    | error e =>
      rw [hentries] at h
      cases h
    | ok entries =>
      rw [hentries] at h
      cases h
      rw [← (mapM_eq_ok_iff.1 hentries).length_eq]
      exact List.length_pos_of_ne_nil hempty

namespace Pool

theorem inv_of_run {s : Traffic} (hpool : UpstreamPool.fromConfig crates configs = .ok pool)
    {as : List Action} (h : exec (step pool.upstreams.length) .new as = some s) :
    Inv pool.upstreams.length s :=
  inv_of_exec_all _ (fun _ _ _ hs hstep => inv_step (length_upstreams_pos hpool) hs hstep)
    Inv.new h

/-- **A query goes round the pool.**  In every run, however many queries are on their way and
whatever the upstreams say to which of them, a query waits or was answered, once.  It has asked
the upstreams in order from its first on, none of them twice: as many as it has tried while it
waits, all of which failed; and when it was answered it was told what the last one it asked said,
the others having failed, and an error only after every upstream of the pool. -/
theorem pool_goes_round {s : Traffic} {as : List Action}
    (hpool : UpstreamPool.fromConfig crates configs = .ok pool)
    (h : exec (step pool.upstreams.length) .new as = some s) :
    (s.answered.map Prod.fst).Nodup ∧
    (∀ k < s.firsts.length, (s.calls.lookup k).isSome ∨ ∃ said, (k, said) ∈ s.answered) ∧
    (∀ k c, s.calls.lookup k = some c → c.i < pool.upstreams.length ∧
      Failed pool.upstreams.length (first pool.upstreams.length k) c.i (turn s.heard k) ∧
      ((turn s.heard k).map Prod.fst).Nodup) ∧
    ∀ x ∈ s.answered,
      Ended pool.upstreams.length (first pool.upstreams.length x.1) (turn s.heard x.1) x.2 ∧
      ((turn s.heard x.1).map Prod.fst).Nodup ∧
      ∀ e, x.2 = .error e → ∀ u < pool.upstreams.length, u ∈ (turn s.heard x.1).map Prod.fst := by
  have hinv := inv_of_run hpool h
  refine ⟨hinv.once, hinv.all, fun k c hc => ?_, fun x hx => ?_⟩
  · obtain ⟨-, hstart, hi, hfailed⟩ := hinv.waiting k c hc
    refine ⟨hi, hstart ▸ hfailed, ?_⟩
    rw [hfailed.round]
    exact nodup_round hi.le
  obtain ⟨-, -, hended⟩ := hinv.ended x hx
  refine ⟨hended, ?_⟩
  obtain ⟨i, hi, before, hturn, hfailed, hlast⟩ := hended
  have hround := hfailed.round_snoc x.2
  rw [← hturn] at hround
  rw [hround]
  refine ⟨nodup_round hi, fun e he u hu => ?_⟩
  obtain ⟨r, hr⟩ | hall := hlast
  · rw [hr] at he
    cases he
  · rw [hall]
    exact mem_round hu

/-- **The first places are shared out evenly.**  Of the first 2^64 queries each upstream is asked
first by as many as any other, or one more if it is among those the last round got to. -/
theorem pool_is_fair {s : Traffic} {as : List Action}
    (hpool : UpstreamPool.fromConfig crates configs = .ok pool)
    (h : exec (step pool.upstreams.length) .new as = some s) (hfew : s.firsts.length ≤ usize)
    {u : ℕ} (hu : u < pool.upstreams.length) :
    s.firsts.count u = s.firsts.length / pool.upstreams.length +
      if u < s.firsts.length % pool.upstreams.length then 1 else 0 := by
  have hinv := inv_of_run hpool h
  have hpos := length_upstreams_pos hpool
  have hcount := Nat.count_modEq_card s.firsts.length hpos u
  rw [Nat.mod_eq_of_lt hu] at hcount
  rw [← hcount, Nat.count]
  conv_lhs => rw [hinv.firsts, List.count_eq_countP, List.countP_map]
  refine List.countP_congr fun k hk => ?_
  have hlt : k < usize := (List.mem_range.1 hk).trans_le hfew
  simp [first, Nat.mod_eq_of_lt hlt, Nat.ModEq, Nat.mod_eq_of_lt hu]

/-! ### Two servers, the first of which fails -/

/-- Nothing of other crates is needed for servers over UDP. -/
def noCrates : Crates where
  serverName := .ok
  clientConfig := .ok ()
  scheme := .ok
  httpClient := .ok ()
  resolver _ _ := .ok ()

def twoServers : UpstreamPool :=
  ⟨[.plain ⟨.v4 ⟨1, 1, 1, 1⟩ 53, "1.1.1.1:53".toList⟩,
    .plain ⟨.v4 ⟨8, 8, 8, 8⟩ 53, "8.8.8.8:53".toList⟩]⟩

theorem twoServers_built : UpstreamPool.fromConfig noCrates
    [.plain "1.1.1.1".toList 53 none, .plain "8.8.8.8".toList 53 none] = .ok twoServers := by
  rfl

/-- Two queries at once; the first gets an error before its answer. -/
def twoQueries : List Action :=
  [.begin, .begin, .hear 0 (.error ['t']), .hear 1 (.ok ([7], ['g'])), .hear 0 (.ok ([8], ['g']))]

theorem twoQueries_go_round : ∃ s, exec (step 2) .new twoQueries = some s ∧
    (s.answered.map Prod.fst).Nodup ∧
      turn s.heard 0 = [(0, .error ['t']), (1, .ok ([8], ['g']))] := by
  refine ⟨_, rfl, ?_, rfl⟩
  exact (@pool_goes_round _ _ twoServers _ twoQueries twoServers_built rfl).1

theorem twoQueries_are_fair : ∃ s, exec (step 2) .new twoQueries = some s ∧
    s.firsts.count 1 = 1 := by
  refine ⟨_, rfl, ?_⟩
  exact @pool_is_fair _ _ twoServers _ twoQueries twoServers_built rfl (by decide) 1 (by decide)

end Pool

end Ferrite.Upstream
