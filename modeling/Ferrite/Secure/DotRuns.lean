import Ferrite.Secure.Dot

/-!
# Runs of a DNS over TLS connection

Every query is numbered as it is read.  `Conn.account` lists where the numbers are: with the
reader, in a task, in the channel, with the writer, answered or dropped.

* `step_account` — every step keeps each number at exactly one place;
* `dot_connection_keeps_account` — what holds after any run, the bytes written included;
* `dot_connection_comes_to_rest` — while its client sends nothing a connection takes only so
  many steps, and then nobody holds a query, or all wait for the client to read.
-/

namespace Ferrite.Secure.Dot

open Frames Dns Lts Threads

variable {setup : Setup} {c c' : Conn} {own : Bool}

/-! ## Where the queries are -/

/-- The query the reader has in hand. -/
def Reader.number : Reader → List ℕ
  | .refusing k _ => [k]
  | .slot k _ => [k]
  | _ => []

/-- The query whose answer is being written. -/
def Writer.number : Writer → List ℕ
  | .writing k _ => [k]
  | _ => []

/-- The numbers of all queries, by where they are. -/
def Conn.account (c : Conn) : List ℕ :=
  c.reader.number ++ (c.tasks.keys ++ (c.channel.map Prod.fst ++ (c.writer.number ++
    (c.answers.map Prod.fst ++ c.dropped.map Prod.fst))))

/-- Every number is at exactly one place. -/
def Accounted (c : Conn) : Prop := c.account.Perm (List.range c.queries.length)

theorem count_account (c : Conn) (x : ℕ) :
    c.account.count x = c.reader.number.count x + (c.tasks.keys.count x +
      ((c.channel.map Prod.fst).count x + (c.writer.number.count x +
        ((c.answers.map Prod.fst).count x + (c.dropped.map Prod.fst).count x)))) := by
  simp only [Conn.account, List.count_append]

theorem accounted_iff :
    Accounted c ↔ ∀ x, c.account.count x = (List.range c.queries.length).count x :=
  List.perm_iff_count

/-- What a step does to the account: it moves numbers, and gives a query just read the next. -/
theorem Moves.account (h : Moves setup c own c') (hslot : ∀ k raw, c.reader = .slot k raw →
    c.tasks.lookup k = none) (x : ℕ) :
    c'.account.count x + (List.range c.queries.length).count x =
      c.account.count x + (List.range c'.queries.length).count x := by
  rw [count_account, count_account]
  cases h with
  | arrive bs => simp
  | clientReads n => simp
  | length hreader hunread hpos => simp [hreader, Reader.number]
  | zero hreader hunread => simp [hreader, Reader.number]
  | stop hreader =>
    rcases hreader with hreader | ⟨n, hreader⟩ <;> simp [hreader, Reader.number]
  | unheard hreader hn hempty =>
    simp [hreader, Reader.number, List.range_succ]
    omega
  | refused hreader hn hempty =>
    simp [hreader, Reader.number, List.range_succ]
    omega
  | allowed hreader hn =>
    simp [hreader, Reader.number, List.range_succ]
    omega
  | refusal hreader hwriter hroom =>
    simp [hreader, Reader.number]
    omega
  | refusalLost hreader hwriter =>
    simp [hreader, Reader.number]
    omega
  | shed hreader hfree hslots =>
    simp [hreader, Reader.number]
    omega
  | spawn hreader hfree hslots =>
    simp [hreader, Reader.number, keys_put_some (hslot _ _ hreader) _]
    omega
  | silent htask hempty =>
    have := keys_put_none htask x
    simp
    omega
  | resolved htask hanswer hempty => simp [keys_put_of_lookup htask]
  | send htask hwriter hroom =>
    have := keys_put_none htask x
    simp
    omega
  | sendLost htask hwriter =>
    have := keys_put_none htask x
    simp
    omega
  | receive hwriter hchannel =>
    simp [hwriter, hchannel, Writer.number, List.count_cons]
    omega
  | write hwriter htakes =>
    simp [hwriter, Writer.number]
    omega
  | writeFail n hwriter =>
    have hmap : (c.channel.map fun e => (e.1, Why.lost)).map Prod.fst = c.channel.map Prod.fst := by
      rw [List.map_map]
      rfl
    simp [hwriter, Writer.number, List.count_cons, hmap, -List.map_map]
    omega
  | shutdown hwriter hreader hchannel htasks => simp [hwriter, Writer.number]
  | othersTake hfree => simp
  | othersGive hothers => simp

/-! ## What holds of every connection -/

/-- `a` is what the query of the number may be answered with. -/
def Answers (setup : Setup) (queries : List Bytes) (k : ℕ) (a : Bytes) : Prop :=
  a ≠ [] ∧ ∃ raw, queries[k]? = some raw ∧
    (setup.handle k raw = some a ∨ a = refused setup.codec raw)

/-- The query of the number was dropped for a reason. -/
def Why.Holds (setup : Setup) (queries : List Bytes) (writer : Writer) (k : ℕ) : Why → Prop
  | shed held => held = maxConcurrentQueries
  | silent => ∃ raw, queries[k]? = some raw ∧
      ((setup.handle k raw).getD [] = [] ∨ refused setup.codec raw = [])
  | lost => writer = .failed

/-- What is read of the query to come. -/
def Reader.pending : Reader → Bytes
  | .body n => Bytes.ofU16 (UInt16.ofNat n)
  | _ => []

/-- What a reader knows about the query it has in hand. -/
def Reader.Sound (setup : Setup) (queries : List Bytes) : Reader → Prop
  | refusing k a => Answers setup queries k a
  | slot k raw => queries[k]? = some raw
  | _ => True

/-- What a task knows. -/
def Task.Sound (setup : Setup) (queries : List Bytes) (k : ℕ) : Task → Prop
  | resolving raw => queries[k]? = some raw
  | sending a => Answers setup queries k a

/-- The writer's answer is one. -/
def Writer.Sound (setup : Setup) (queries : List Bytes) : Writer → Prop
  | writing k a => Answers setup queries k a
  | _ => True

/-- Slots, room in the channel and permits are kept to. -/
structure Counts (c : Conn) : Prop where
  slots : c.tasks.entries.length ≤ perConnection
  room : c.channel.length ≤ perConnection
  permits : c.free + c.others + c.tasks.values.countP Conn.isResolving = maxConcurrentQueries

/-- The queries are the first messages that came. -/
structure Framed (c : Conn) : Prop where
  lengths : ∀ q ∈ c.queries, q ≠ [] ∧ q.length < 2 ^ 16
  body : ∀ n, c.reader = .body n → n ≠ 0 ∧ n < 2 ^ 16
  stream : ∃ rest, c.arrived = c.queries.flatMap frame ++ rest ∧
    (c.reader ≠ .stopped → rest = c.reader.pending ++ c.unread)

/-- Everybody has in hand what belongs to the number, and what was dropped was for a reason. -/
structure Sound (setup : Setup) (c : Conn) : Prop where
  reader : c.reader.Sound setup c.queries
  tasks : ∀ k task, c.tasks.lookup k = some task → task.Sound setup c.queries k
  writer : c.writer.Sound setup c.queries
  channel : ∀ k a, (k, a) ∈ c.channel → Answers setup c.queries k a
  answers : ∀ k a, (k, a) ∈ c.answers → Answers setup c.queries k a
  dropped : ∀ k why, (k, why) ∈ c.dropped → why.Holds setup c.queries c.writer k

/-- What was written is the answers, in frames, and part of one more if writing failed. -/
def Written (c : Conn) : Prop :=
  ∃ cut, c.written = c.answers.flatMap (fun e => frame e.2) ++ cut ∧
    (c.writer ≠ .failed → cut = [])

/-! ## Every step keeps it -/

theorem Answers.append {queries : List Bytes} {k : ℕ} {a : Bytes} (h : Answers setup queries k a)
    (q : Bytes) : Answers setup (queries ++ [q]) k a := by
  obtain ⟨hne, raw, hraw, hfrom⟩ := h
  have hlt : k < queries.length := (List.getElem?_eq_some_iff.1 hraw).1
  exact ⟨hne, raw, (List.getElem?_append_left hlt).trans hraw, hfrom⟩

/-- A reader in front of a slot has a query that is nowhere else. -/
theorem Accounted.slot_free (h : Accounted c) {k : ℕ} {raw : Bytes}
    (hreader : c.reader = .slot k raw) : c.tasks.lookup k = none := by
  have hcount := accounted_iff.1 h k
  have hle : (List.range c.queries.length).count k ≤ 1 :=
    List.nodup_iff_count_le_one.1 List.nodup_range k
  rw [count_account, hreader] at hcount
  simp only [Reader.number, List.count_singleton_self] at hcount
  by_contra hsome
  have hmem : k ∈ c.tasks.keys :=
    AList.mem_keys.1 (AList.lookup_isSome.1 (Option.isSome_iff_ne_none.2 hsome))
  have := List.count_pos_iff.2 hmem
  omega

theorem step_account (h : Moves setup c own c') (hc : Accounted c) : Accounted c' := by
  rw [accounted_iff] at hc ⊢
  intro x
  have hmoves := h.account (fun k raw hreader => (accounted_iff.2 hc).slot_free hreader) x
  have := hc x
  omega

/-- How many tasks there are and how many of them resolve, around a step of one. -/
structure Grows (tasks tasks' : Table ℕ Task) (n m n' m' : ℕ) : Prop where
  length : tasks'.entries.length + n = tasks.entries.length + n'
  resolving : tasks'.values.countP Conn.isResolving + m = tasks.values.countP Conn.isResolving + m'

theorem grows_put (tasks : Table ℕ Task) (k : ℕ) (p : Option Task) :
    Grows tasks (put tasks k p) (tasks.lookup k).toList.length
      ((tasks.lookup k).toList.countP Conn.isResolving) p.toList.length
      (p.toList.countP Conn.isResolving) :=
  ⟨length_put tasks k p, countP_put Conn.isResolving tasks k p⟩

theorem grows_spawn {tasks : Table ℕ Task} {k : ℕ} (h : tasks.lookup k = none) (raw : Bytes) :
    Grows tasks (put tasks k (some (.resolving raw))) 0 0 1 1 := by
  simpa [h, Conn.isResolving] using grows_put tasks k (some (.resolving raw))

theorem grows_silent {tasks : Table ℕ Task} {k : ℕ} {raw : Bytes}
    (h : tasks.lookup k = some (.resolving raw)) : Grows tasks (put tasks k none) 1 1 0 0 := by
  simpa [h, Conn.isResolving] using grows_put tasks k none

theorem grows_resolved {tasks : Table ℕ Task} {k : ℕ} {raw : Bytes}
    (h : tasks.lookup k = some (.resolving raw)) (answer : Bytes) :
    Grows tasks (put tasks k (some (.sending answer))) 1 1 1 0 := by
  simpa [h, Conn.isResolving] using grows_put tasks k (some (.sending answer))

theorem grows_sent {tasks : Table ℕ Task} {k : ℕ} {answer : Bytes}
    (h : tasks.lookup k = some (.sending answer)) : Grows tasks (put tasks k none) 1 0 0 0 := by
  simpa [h, Conn.isResolving] using grows_put tasks k none

theorem step_counts (h : Moves setup c own c') (hacc : Accounted c) (hc : Counts c) :
    Counts c' := by
  obtain ⟨hslots, hroom, hpermits⟩ := hc
  cases h with
  | refusal hreader hwriter hfits =>
    exact ⟨hslots, by simpa using Nat.succ_le_of_lt hfits, hpermits⟩
  | spawn hreader hfree hslot =>
    rename_i k raw
    obtain ⟨hlength, hresolving⟩ := grows_spawn (hacc.slot_free hreader) raw
    exact ⟨by simp only; omega, hroom, by simp only; omega⟩
  | silent htask hempty =>
    obtain ⟨hlength, hresolving⟩ := grows_silent htask
    exact ⟨by simp only; omega, hroom, by simp only; omega⟩
  | resolved htask hanswer hempty =>
    rename_i k raw answer
    obtain ⟨hlength, hresolving⟩ := grows_resolved htask answer
    exact ⟨by simp only; omega, hroom, by simp only; omega⟩
  | send htask hwriter hfits =>
    obtain ⟨hlength, hresolving⟩ := grows_sent htask
    exact ⟨by simp only; omega, by simpa using Nat.succ_le_of_lt hfits, by simp only; omega⟩
  | sendLost htask hwriter =>
    obtain ⟨hlength, hresolving⟩ := grows_sent htask
    exact ⟨by simp only; omega, hroom, by simp only; omega⟩
  | receive hwriter hchannel =>
    rw [hchannel, List.length_cons] at hroom
    exact ⟨hslots, by simp only; omega, hpermits⟩
  | writeFail n hwriter => exact ⟨hslots, Nat.zero_le _, hpermits⟩
  | othersTake hfree => exact ⟨hslots, hroom, by simp only; omega⟩
  | othersGive hothers => exact ⟨hslots, hroom, by simp only; omega⟩
  | _ => exact ⟨hslots, hroom, hpermits⟩

/-- Reading the length and the bytes behind it is reading a frame. -/
theorem frame_take {n : ℕ} {bs : Bytes} (h : n ≤ bs.length) :
    Bytes.ofU16 (UInt16.ofNat n) ++ bs = frame (bs.take n) ++ bs.drop n := by
  rw [frame, List.length_take, Nat.min_eq_left h, List.append_assoc, List.take_append_drop]

/-- The query just read is the next message of the stream. -/
theorem Framed.hear (h : Framed c) {n : ℕ} (hreader : c.reader = .body n)
    (hn : n ≤ c.unread.length) :
    (∀ q ∈ c.queries ++ [c.unread.take n], q ≠ [] ∧ q.length < 2 ^ 16) ∧
      c.arrived = (c.queries ++ [c.unread.take n]).flatMap frame ++ c.unread.drop n := by
  obtain ⟨hzero, hlt⟩ := h.body n hreader
  obtain ⟨rest, hstream, hrest⟩ := h.stream
  have hlen : (c.unread.take n).length = n := by rw [List.length_take, Nat.min_eq_left hn]
  constructor
  · intro q hq
    rcases List.mem_append.1 hq with hq | hq
    · exact h.lengths q hq
    · rw [List.mem_singleton.1 hq, hlen]
      refine ⟨fun hnil => hzero ?_, hlt⟩
      rw [← hlen, hnil, List.length_nil]
  · rw [hstream, hrest (by rw [hreader]; simp), hreader, Reader.pending, frame_take hn]
    simp

theorem step_framed (h : Moves setup c own c') (hc : Framed c) : Framed c' := by
  obtain ⟨rest, hstream, hrest⟩ := hc.stream
  cases h with
  | arrive bs =>
    refine ⟨hc.lengths, hc.body, rest ++ bs, ?_, fun hne => ?_⟩
    · simp [hstream]
    · simp [hrest hne]
  | length hreader hunread hpos =>
    rename_i hi lo tail
    have hhi := hi.toNat_lt
    have hlo := lo.toNat_lt
    refine ⟨hc.lengths, ?_, rest, hstream, fun _ => ?_⟩
    · rintro n ⟨⟩
      exact ⟨hpos, by omega⟩
    · rw [hrest (by rw [hreader]; simp), hreader, hunread]
      show hi :: lo :: tail = Bytes.ofU16 _ ++ tail
      rw [Bytes.ofU16_bytes]
      rfl
  | zero hreader hunread => exact ⟨hc.lengths, by simp, rest, hstream, by simp⟩
  | stop hreader => exact ⟨hc.lengths, by simp, rest, hstream, by simp⟩
  | unheard hreader hn hempty =>
    obtain ⟨hlengths, hstream⟩ := hc.hear hreader hn
    exact ⟨hlengths, by simp, _, hstream, by simp⟩
  | refused hreader hn hempty =>
    obtain ⟨hlengths, hstream⟩ := hc.hear hreader hn
    exact ⟨hlengths, by simp, _, hstream, by simp [Reader.pending]⟩
  | allowed hreader hn =>
    obtain ⟨hlengths, hstream⟩ := hc.hear hreader hn
    exact ⟨hlengths, by simp, _, hstream, by simp [Reader.pending]⟩
  | refusal hreader hwriter hroom =>
    exact ⟨hc.lengths, by simp, rest, hstream, by simp [hrest, hreader, Reader.pending]⟩
  | refusalLost hreader hwriter => exact ⟨hc.lengths, by simp, rest, hstream, by simp⟩
  | shed hreader hfree hslot =>
    exact ⟨hc.lengths, by simp, rest, hstream, by simp [hrest, hreader, Reader.pending]⟩
  | spawn hreader hfree hslot =>
    exact ⟨hc.lengths, by simp, rest, hstream, by simp [hrest, hreader, Reader.pending]⟩
  | _ => exact ⟨hc.lengths, hc.body, rest, hstream, hrest⟩

/-- A reason stays one when more queries are read. -/
theorem Why.Holds.append {queries : List Bytes} {writer : Writer} {k : ℕ} {why : Why}
    (h : why.Holds setup queries writer k) (q : Bytes) :
    why.Holds setup (queries ++ [q]) writer k := by
  cases why with
  | shed held => exact h
  | silent =>
    obtain ⟨raw, hraw, hempty⟩ := h
    have hlt : k < queries.length := (List.getElem?_eq_some_iff.1 hraw).1
    exact ⟨raw, (List.getElem?_append_left hlt).trans hraw, hempty⟩
  | lost => exact h

theorem Why.Holds.writer {queries : List Bytes} {w w' : Writer} {k : ℕ} {why : Why}
    (h : why.Holds setup queries w k) (hw : w = .failed → w' = .failed) :
    why.Holds setup queries w' k := by
  cases why with
  | shed held => exact h
  | silent => exact h
  | lost => exact hw h

/-- What everybody has in hand is not touched by a query more. -/
theorem Sound.hear (h : Sound setup c) {raw unread : Bytes} {reader : Reader}
    (hreader : reader.Sound setup (c.queries ++ [raw])) :
    Sound setup { c with
      unread := unread, queries := c.queries ++ [raw], reader := reader } where
  reader := hreader
  tasks k task htask := by
    have hold := h.tasks k task htask
    cases task with
    | resolving raw' =>
      exact (List.getElem?_append_left (List.getElem?_eq_some_iff.1 hold).1).trans hold
    | sending a => exact Answers.append hold raw
  writer := by
    have hold := h.writer
    simp only
    cases hwriter : c.writer with
    | writing k a =>
      rw [hwriter] at hold
      exact Answers.append hold raw
    | _ => trivial
  channel k a ha := (h.channel k a ha).append raw
  answers k a ha := (h.answers k a ha).append raw
  dropped k why hmem := (h.dropped k why hmem).append raw

/-- One more is dropped, for a reason. -/
theorem Sound.drop (h : Sound setup c) {k : ℕ} {why : Why}
    (hwhy : why.Holds setup c.queries c.writer k) (j : ℕ) (why' : Why)
    (hmem : (j, why') ∈ c.dropped ++ [(k, why)]) : why'.Holds setup c.queries c.writer j := by
  rcases List.mem_append.1 hmem with hmem | hmem
  · exact h.dropped j why' hmem
  · cases List.mem_singleton.1 hmem
    exact hwhy

/-- One task is somewhere else, or gone. -/
theorem Sound.put (h : Sound setup c) {k : ℕ} {p : Option Task}
    (hp : ∀ task, p = some task → task.Sound setup c.queries k) (j : ℕ) (task : Task)
    (hlookup : (Threads.put c.tasks k p).lookup j = some task) :
    task.Sound setup c.queries j := by
  rcases lookup_put_iff.1 hlookup with ⟨rfl, hsome⟩ | ⟨-, hold⟩
  · exact hp task hsome
  · exact h.tasks j task hold

/-- One answer more is in the channel. -/
theorem Sound.send (h : Sound setup c) {k : ℕ} {a : Bytes} (ha : Answers setup c.queries k a)
    (j : ℕ) (b : Bytes) (hmem : (j, b) ∈ c.channel ++ [(k, a)]) :
    Answers setup c.queries j b := by
  rcases List.mem_append.1 hmem with hmem | hmem
  · exact h.channel j b hmem
  · cases List.mem_singleton.1 hmem
    exact ha

/-- Without a free permit all are held. -/
theorem Counts.held (h : Counts c) (hfree : c.free = 0) : c.held = maxConcurrentQueries := by
  have hpermits := h.permits
  unfold Conn.held
  omega

theorem step_sound (h : Moves setup c own c') (hcounts : Counts c) (hc : Sound setup c) :
    Sound setup c' := by
  obtain ⟨hreader', htasks, hwriter', hchannel', hanswers, hdropped⟩ := id hc
  have hlast (raw : Bytes) : (c.queries ++ [raw])[c.queries.length]? = some raw := by simp
  cases h with
  | arrive bs => exact ⟨hreader', htasks, hwriter', hchannel', hanswers, hdropped⟩
  | clientReads n => exact ⟨hreader', htasks, hwriter', hchannel', hanswers, hdropped⟩
  | length hreader hunread hpos =>
    exact ⟨trivial, htasks, hwriter', hchannel', hanswers, hdropped⟩
  | zero hreader hunread => exact ⟨trivial, htasks, hwriter', hchannel', hanswers, hdropped⟩
  | stop hreader => exact ⟨trivial, htasks, hwriter', hchannel', hanswers, hdropped⟩
  | unheard hreader hn hempty =>
    rename_i n
    have hheard : Sound setup { c with
        unread := c.unread.drop n, queries := c.queries ++ [c.unread.take n]
        reader := .stopped } :=
      hc.hear trivial
    exact ⟨trivial, hheard.tasks, hheard.writer, hheard.channel, hheard.answers,
      hheard.drop ⟨_, hlast _, Or.inr hempty⟩⟩
  | refused hreader hn hempty =>
    rename_i n
    have hanswer : Answers setup (c.queries ++ [c.unread.take n]) c.queries.length
        (refused setup.codec (c.unread.take n)) := ⟨hempty, _, hlast _, Or.inr rfl⟩
    exact hc.hear hanswer
  | allowed hreader hn =>
    rename_i n
    have hslot : (Reader.slot c.queries.length (c.unread.take n)).Sound setup
        (c.queries ++ [c.unread.take n]) := hlast _
    exact hc.hear hslot
  | refusal hreader hwriter hroom =>
    rw [hreader] at hreader'
    exact ⟨trivial, htasks, hwriter', hc.send hreader', hanswers, hdropped⟩
  | refusalLost hreader hwriter =>
    exact ⟨trivial, htasks, hwriter', hchannel', hanswers, hc.drop hwriter⟩
  | shed hreader hfree hslot =>
    exact ⟨trivial, htasks, hwriter', hchannel', hanswers, hc.drop (hcounts.held hfree)⟩
  | spawn hreader hfree hslot =>
    rw [hreader] at hreader'
    refine ⟨trivial, hc.put ?_, hwriter', hchannel', hanswers, hdropped⟩
    rintro task ⟨⟩
    exact hreader'
  | silent htask hempty =>
    refine ⟨hreader', hc.put (by simp), hwriter', hchannel', hanswers, hc.drop ?_⟩
    exact ⟨_, htasks _ _ htask, Or.inl hempty⟩
  | resolved htask hanswer hempty =>
    refine ⟨hreader', hc.put ?_, hwriter', hchannel', hanswers, hdropped⟩
    rintro task ⟨⟩
    exact ⟨hempty, _, htasks _ _ htask, Or.inl hanswer⟩
  | send htask hwriter hroom =>
    exact ⟨hreader', hc.put (by simp), hwriter', hc.send (htasks _ _ htask), hanswers, hdropped⟩
  | sendLost htask hwriter =>
    exact ⟨hreader', hc.put (by simp), hwriter', hchannel', hanswers, hc.drop hwriter⟩
  | receive hwriter hchannel =>
    rw [hchannel] at hchannel'
    refine ⟨hreader', htasks, hchannel' _ _ (List.mem_cons_self ..), ?_, hanswers, ?_⟩
    · exact fun k a hmem => hchannel' k a (List.mem_cons_of_mem _ hmem)
    · exact fun k why hmem => (hdropped k why hmem).writer (by simp [hwriter])
  | write hwriter htakes =>
    rw [hwriter] at hwriter'
    refine ⟨hreader', htasks, trivial, hchannel', fun k a hmem => ?_, fun k why hmem => ?_⟩
    · rcases List.mem_append.1 hmem with hmem | hmem
      · exact hanswers k a hmem
      · cases List.mem_singleton.1 hmem
        exact hwriter'
    · exact (hdropped k why hmem).writer (by simp [hwriter])
  | writeFail n hwriter =>
    refine ⟨hreader', htasks, trivial, by simp, hanswers, fun k why hmem => ?_⟩
    rcases List.mem_append.1 hmem with hmem | hmem
    · exact (hdropped k why hmem).writer fun _ => rfl
    · -- everything dropped here is lost
      have hlost : why = .lost := by
        rcases List.mem_cons.1 hmem with hmem | hmem
        · exact congrArg Prod.snd hmem
        · obtain ⟨e, -, he⟩ := List.mem_map.1 hmem
          exact (congrArg Prod.snd he).symm
      subst hlost
      exact rfl
  | shutdown hwriter hreader hchannel htasks' =>
    refine ⟨hreader', htasks, trivial, hchannel', hanswers, fun k why hmem => ?_⟩
    exact (hdropped k why hmem).writer (by simp [hwriter])
  | othersTake hfree => exact ⟨hreader', htasks, hwriter', hchannel', hanswers, hdropped⟩
  | othersGive hothers => exact ⟨hreader', htasks, hwriter', hchannel', hanswers, hdropped⟩

theorem step_written (h : Moves setup c own c') (hc : Written c) : Written c' := by
  obtain ⟨cut, hwritten, hcut⟩ := hc
  cases h with
  | receive hwriter hchannel => exact ⟨cut, hwritten, fun _ => hcut (by simp [hwriter])⟩
  | write hwriter htakes =>
    refine ⟨[], ?_, fun _ => rfl⟩
    simp [hwritten, hcut (by simp [hwriter])]
  | writeFail n hwriter =>
    rename_i k answer
    refine ⟨cut ++ (frame answer).take n, ?_, fun hne => absurd rfl hne⟩
    simp [hwritten]
  | shutdown hwriter hreader hchannel htasks =>
    exact ⟨cut, hwritten, fun _ => hcut (by simp [hwriter])⟩
  | _ => exact ⟨cut, hwritten, hcut⟩

/-- Once the stream is shut down nothing is left of the connection, and once writing failed
nothing is in the channel. -/
structure Ended (c : Conn) : Prop where
  done : c.writer = .done → c.reader = .stopped ∧ c.tasks.entries = [] ∧ c.channel = []
  failed : c.writer = .failed → c.channel = []

theorem Ended.not_done (h : Ended c) (hreader : c.reader ≠ .stopped) : c.writer ≠ .done :=
  fun hdone => hreader (h.done hdone).1

theorem Ended.not_done_of_task (h : Ended c) {k : ℕ} {task : Task}
    (htask : c.tasks.lookup k = some task) : c.writer ≠ .done := by
  intro hdone
  have hmem := Table.mem_entries_iff.2 htask
  rw [(h.done hdone).2.1] at hmem
  exact List.not_mem_nil hmem

theorem step_ended (h : Moves setup c own c') (hc : Ended c) : Ended c' := by
  cases h with
  | length hreader hunread hpos =>
    exact ⟨fun hdone => absurd hdone (hc.not_done (by simp [hreader])), hc.failed⟩
  | zero hreader hunread =>
    exact ⟨fun hdone => absurd hdone (hc.not_done (by simp [hreader])), hc.failed⟩
  | stop hreader => exact ⟨fun hdone => ⟨rfl, (hc.done hdone).2⟩, hc.failed⟩
  | unheard hreader hn hempty =>
    exact ⟨fun hdone => absurd hdone (hc.not_done (by simp [hreader])), hc.failed⟩
  | refused hreader hn hempty =>
    exact ⟨fun hdone => absurd hdone (hc.not_done (by simp [hreader])), hc.failed⟩
  | allowed hreader hn =>
    exact ⟨fun hdone => absurd hdone (hc.not_done (by simp [hreader])), hc.failed⟩
  | refusal hreader hwriter hroom =>
    exact ⟨fun hdone => absurd hdone (hc.not_done (by simp [hreader])),
      fun hfailed => absurd hfailed hwriter⟩
  | refusalLost hreader hwriter =>
    exact ⟨fun hdone => absurd hdone (hc.not_done (by simp [hreader])), hc.failed⟩
  | shed hreader hfree hslot =>
    exact ⟨fun hdone => absurd hdone (hc.not_done (by simp [hreader])), hc.failed⟩
  | spawn hreader hfree hslot =>
    exact ⟨fun hdone => absurd hdone (hc.not_done (by simp [hreader])), hc.failed⟩
  | silent htask hempty => exact ⟨fun hdone => absurd hdone (hc.not_done_of_task htask), hc.failed⟩
  | resolved htask hanswer hempty =>
    exact ⟨fun hdone => absurd hdone (hc.not_done_of_task htask), hc.failed⟩
  | send htask hwriter hroom =>
    exact ⟨fun hdone => absurd hdone (hc.not_done_of_task htask),
      fun hfailed => absurd hfailed hwriter⟩
  | sendLost htask hwriter =>
    exact ⟨fun hdone => absurd hdone (hc.not_done_of_task htask), hc.failed⟩
  | receive hwriter hchannel => exact ⟨by simp, by simp⟩
  | write hwriter htakes => exact ⟨by simp, by simp⟩
  | writeFail n hwriter => exact ⟨by simp, fun _ => rfl⟩
  | shutdown hwriter hreader hchannel htasks =>
    exact ⟨fun _ => ⟨hreader, htasks, hchannel⟩, by simp⟩
  | _ => exact ⟨hc.done, hc.failed⟩

/-- What holds in every state. -/
structure Inv (setup : Setup) (c : Conn) : Prop where
  account : Accounted c
  counts : Counts c
  framed : Framed c
  sound : Sound setup c
  written : Written c
  ended : Ended c

theorem inv_start {others : ℕ} (h : others ≤ maxConcurrentQueries) : Inv setup (start others) where
  account := List.Perm.refl _
  counts := ⟨Nat.zero_le _, Nat.zero_le _, by simp [start, Table.values]; omega⟩
  framed := ⟨by simp [start], by simp [start], [], rfl, fun _ => rfl⟩
  sound := ⟨trivial, by simp [start], trivial, by simp [start], by simp [start], by simp [start]⟩
  written := ⟨[], rfl, fun _ => rfl⟩
  ended := ⟨by simp [start], by simp [start]⟩

theorem step_inv {a : Action} (h : Inv setup c) (hstep : step setup c a = some c') :
    Inv setup c' := by
  have hmoves := moves_of_step hstep
  exact ⟨step_account hmoves h.account, step_counts hmoves h.account h.counts,
    step_framed hmoves h.framed, step_sound hmoves h.counts h.sound, step_written hmoves h.written,
    step_ended hmoves h.ended⟩

theorem inv_of_run {others : ℕ} {as : List Action} (hothers : others ≤ maxConcurrentQueries)
    (h : exec (step setup) (start others) as = some c) : Inv setup c :=
  inv_of_exec_all (step setup) (fun _ _ _ => step_inv) (inv_start hothers) h

/-! ## A connection comes to rest -/

def Reader.work : Reader → ℕ
  | .refusing _ _ => 3
  | .slot _ _ => 5
  | _ => 0

def Writer.work : Writer → ℕ
  | .waiting => 1
  | .writing _ _ => 2
  | _ => 0

/-- More than the steps that are left to the connection without its client. -/
def Conn.work (c : Conn) : ℕ :=
  6 * c.unread.length + c.reader.work + 3 * c.tasks.entries.length +
    c.tasks.values.countP isResolving + 2 * c.channel.length + c.writer.work

theorem Framed.work_hear (h : Framed c) {n : ℕ} (hreader : c.reader = .body n)
    (hn : n ≤ c.unread.length) : 6 * (c.unread.drop n).length + 5 < 6 * c.unread.length := by
  have hzero := (h.body n hreader).1
  rw [List.length_drop]
  omega

/-- A step leaves no more to do, and an own one less, unless the client sends something. -/
theorem work_of_moves (h : Moves setup c own c') (hacc : Accounted c) (hframed : Framed c)
    (hquiet : c'.arrived = c.arrived) : c'.work + own.toNat ≤ c.work := by
  cases h with
  | arrive bs =>
    have hbs : bs = [] := List.append_right_eq_self.1 hquiet
    simp [Conn.work, hbs]
  | clientReads n => exact le_refl _
  | length hreader hunread hpos =>
    simp only [Conn.work, hreader, hunread, Reader.work, List.length_cons, Bool.toNat_true]
    omega
  | zero hreader hunread =>
    simp only [Conn.work, hreader, hunread, Reader.work, List.length_cons, Bool.toNat_true]
    omega
  | stop hreader =>
    rcases hreader with hreader | ⟨n, hreader⟩ <;> simp [Conn.work, hreader, Reader.work]
  | unheard hreader hn hempty =>
    have hlt := hframed.work_hear hreader hn
    simp only [Conn.work, hreader, Reader.work, Bool.toNat_true]
    omega
  | refused hreader hn hempty =>
    have hlt := hframed.work_hear hreader hn
    simp only [Conn.work, hreader, Reader.work, Bool.toNat_true]
    omega
  | allowed hreader hn =>
    have hlt := hframed.work_hear hreader hn
    simp only [Conn.work, hreader, Reader.work, Bool.toNat_true]
    omega
  | refusal hreader hwriter hroom =>
    simp only [Conn.work, hreader, Reader.work, List.length_append, List.length_singleton,
      Bool.toNat_true]
    omega
  | refusalLost hreader hwriter =>
    simp only [Conn.work, hreader, Reader.work, Bool.toNat_true]
    omega
  | shed hreader hfree hslot =>
    simp only [Conn.work, hreader, Reader.work, Bool.toNat_true]
    omega
  | spawn hreader hfree hslot =>
    rename_i k raw
    obtain ⟨hlength, hresolving⟩ := grows_spawn (hacc.slot_free hreader) raw
    simp only [Conn.work, hreader, Reader.work, Bool.toNat_true]
    omega
  | silent htask hempty =>
    obtain ⟨hlength, hresolving⟩ := grows_silent htask
    simp only [Conn.work, Bool.toNat_true]
    omega
  | resolved htask hanswer hempty =>
    rename_i k raw answer
    obtain ⟨hlength, hresolving⟩ := grows_resolved htask answer
    simp only [Conn.work, Bool.toNat_true]
    omega
  | send htask hwriter hroom =>
    obtain ⟨hlength, hresolving⟩ := grows_sent htask
    simp only [Conn.work, List.length_append, List.length_singleton, Bool.toNat_true]
    omega
  | sendLost htask hwriter =>
    obtain ⟨hlength, hresolving⟩ := grows_sent htask
    simp only [Conn.work, Bool.toNat_true]
    omega
  | receive hwriter hchannel =>
    simp only [Conn.work, hwriter, hchannel, Writer.work, List.length_cons, Bool.toNat_true]
    omega
  | write hwriter htakes =>
    simp only [Conn.work, hwriter, Writer.work, Bool.toNat_true]
    omega
  | writeFail n hwriter =>
    simp only [Conn.work, hwriter, Writer.work, List.length_nil, Bool.toNat_false]
    omega
  | shutdown hwriter hreader hchannel htasks =>
    simp only [Conn.work, hwriter, Writer.work, Bool.toNat_true]
    omega
  | othersTake hfree => exact le_refl _
  | othersGive hothers => exact le_refl _

/-- What came from the client stays. -/
theorem Moves.arrived (h : Moves setup c own c') : c.arrived <+: c'.arrived := by
  cases h <;> simp

theorem arrived_of_run {as : List Action} (h : exec (step setup) c as = some c') :
    c.arrived <+: c'.arrived := by
  have hkept : ∀ d a d', c.arrived <+: d.arrived → step setup d a = some d' →
      c.arrived <+: d'.arrived :=
    fun d a d' hd hstep => hd.trans (moves_of_step hstep).arrived
  exact inv_of_exec_all (step setup) hkept (List.prefix_refl _) h

/-- The own steps of a run are no more than the work there was. -/
theorem countP_own_add_work_le {as : List Action} (hinv : Inv setup c)
    (h : exec (step setup) c as = some c') (hquiet : c'.arrived = c.arrived) :
    as.countP Action.own + c'.work ≤ c.work := by
  induction as generalizing c with
  | nil =>
    cases h
    simp
  | cons a as ih =>
    obtain ⟨d, hd, h⟩ := (exec_cons_eq_some (step setup)).1 h
    have hmoves := moves_of_step hd
    -- nothing came in this step, as nothing came in the whole run
    have hsame : d.arrived = c.arrived :=
      (hquiet ▸ arrived_of_run h : d.arrived <+: c.arrived).eq_of_length_le
        hmoves.arrived.length_le
    have hle := work_of_moves hmoves hinv.account hinv.framed hsame
    have hrest := ih (step_inv hinv hd) h (hquiet.trans hsame.symm)
    have hcount : (if a.own = true then 1 else 0) = a.own.toNat := by cases a.own <;> rfl
    rw [List.countP_cons, hcount]
    omega

/-! ## Who waits for whom -/

/-- What the reader waits for: bytes that have not come, room in the channel, or a slot. -/
def Conn.awaits (c : Conn) : Prop :=
  match c.reader with
  | .length => c.unread.length < 2
  | .body n => c.unread.length < n
  | .refusing _ _ => c.channel.length = perConnection
  | .slot _ _ => c.tasks.entries.length = perConnection
  | .stopped => True

/-- Nobody has anything in hand: the reader waits for the client, or is gone and with it the
writer. -/
structure AtRest (c : Conn) : Prop where
  reader : c.reader.number = []
  tasks : c.tasks.entries = []
  channel : c.channel = []
  awaits : c.awaits
  writer : c.writer = .waiting ∧ c.reader ≠ .stopped ∨ c.writer = .failed ∨
    c.writer = .done ∧ c.reader = .stopped

/-- The writer waits for its client to read, and whoever else has a query waits for the writer:
the tasks are through and the channel has no room for their answers, and the reader has no room
for its refusal or no slot for its query, if it has one. -/
structure Backed (c : Conn) : Prop where
  writer : ∃ k answer, c.writer = .writing k answer ∧ c.room < (frame answer).length
  tasks : ∀ k task, c.tasks.lookup k = some task →
    Conn.isResolving task = false ∧ c.channel.length = perConnection
  reader : c.awaits

theorem send_eq_none {k : ℕ} {a : Bytes} (h : c.send k a = none) :
    c.writer ≠ .failed ∧ perConnection ≤ c.channel.length := by
  unfold Conn.send at h
  split at h
  · cases h
  · rename_i hwriter
    exact ⟨hwriter, by simpa using h⟩

/-- A task that cannot go on has its answer, and there is no room for it. -/
theorem task_of_stuck {k : ℕ} {task : Task} (htask : c.tasks.lookup k = some task)
    (hstuck : ∀ a, a.own = true → step setup c a = none) :
    Conn.isResolving task = false ∧ c.writer ≠ .failed ∧ perConnection ≤ c.channel.length := by
  cases task with
  | resolving raw =>
    have h := hstuck (.resolved k) rfl
    simp only [step, Conn.resolved, htask] at h
    split at h <;> cases h
  | sending a =>
    have h := hstuck (.sendAnswer k) rfl
    simp only [step, Conn.sendAnswer, htask] at h
    obtain ⟨hwriter, hroom⟩ := send_eq_none h
    exact ⟨rfl, hwriter, hroom⟩

theorem awaits_of_stuck (hcounts : Counts c)
    (hstuck : ∀ a, a.own = true → step setup c a = none) : c.awaits := by
  unfold Conn.awaits
  cases hreader : c.reader with
  | length =>
    simp only
    by_contra hle
    cases hunread : c.unread with
    | nil => simp [hunread] at hle
    | cons hi rest =>
      cases rest with
      | nil => simp [hunread] at hle
      | cons lo rest =>
        have h := hstuck .readLength rfl
        simp only [step, Conn.readLength, hreader, hunread] at h
        split at h <;> cases h
  | body n =>
    simp only
    by_contra hle
    have h := hstuck (.readBody Gate.empty 0) rfl
    simp only [step, Conn.readBody, hreader] at h
    rw [if_pos (by omega)] at h
    split at h
    · split at h <;> cases h
    · cases h
  | refusing k a =>
    have h := hstuck .sendRefused rfl
    simp only [step, Conn.sendRefused, hreader, Option.map_eq_none_iff] at h
    exact le_antisymm hcounts.room (send_eq_none h).2
  | slot k raw =>
    simp only
    by_contra hne
    have h := hstuck .takeSlot rfl
    simp only [step, Conn.takeSlot, hreader] at h
    rw [if_pos (lt_of_le_of_ne hcounts.slots hne)] at h
    split at h <;> cases h
  | stopped => trivial

/-- Behind a writer that is not writing nobody waits for long. -/
theorem atRest_of_stuck (hinv : Inv setup c) (hwriter : c.writer.number = [])
    (hstuck : ∀ a, a.own = true → step setup c a = none) : AtRest c := by
  have hchannel : c.channel = [] := by
    cases hw : c.writer with
    | waiting =>
      cases hchannel : c.channel with
      | nil => rfl
      | cons e rest =>
        have h := hstuck .receive rfl
        simp [step, Conn.receive, hw, hchannel] at h
    | writing k a => simp [hw, Writer.number] at hwriter
    | done => exact (hinv.ended.done hw).2.2
    | failed => exact hinv.ended.failed hw
  have htasks : c.tasks.entries = [] := by
    by_contra hne
    obtain ⟨⟨k, task⟩, hmem⟩ := List.exists_mem_of_ne_nil _ hne
    have hroom := (task_of_stuck (Table.mem_entries_iff.1 hmem) hstuck).2.2
    simp [hchannel, perConnection] at hroom
  have hawaits := awaits_of_stuck hinv.counts hstuck
  refine ⟨?_, htasks, hchannel, hawaits, ?_⟩
  · cases hreader : c.reader with
    | refusing k a => simp [Conn.awaits, hreader, hchannel, perConnection] at hawaits
    | slot k raw => simp [Conn.awaits, hreader, htasks, perConnection] at hawaits
    | _ => rfl
  · cases hw : c.writer with
    | waiting =>
      refine Or.inl ⟨rfl, fun hreader => ?_⟩
      have h := hstuck .shutdown rfl
      simp [step, Conn.shutdown, hw, hreader, hchannel, htasks] at h
    | writing k a => simp [hw, Writer.number] at hwriter
    | done => exact Or.inr (Or.inr ⟨rfl, (hinv.ended.done hw).1⟩)
    | failed => exact Or.inr (Or.inl rfl)

theorem backed_of_stuck (hinv : Inv setup c) {k : ℕ} {answer : Bytes}
    (hwriter : c.writer = .writing k answer)
    (hstuck : ∀ a, a.own = true → step setup c a = none) : Backed c where
  writer := by
    have h := hstuck .write rfl
    simp only [step, Conn.write, hwriter, ite_eq_right_iff, reduceCtorEq, imp_false,
      not_le] at h
    exact ⟨k, answer, hwriter, h⟩
  tasks j task htask := by
    obtain ⟨hdone, -, hroom⟩ := task_of_stuck htask hstuck
    exact ⟨hdone, le_antisymm hinv.counts.room hroom⟩
  reader := awaits_of_stuck hinv.counts hstuck

/-- A reader that waits for bytes reads nothing. -/
theorem not_awaits_length {hi lo : UInt8} {rest : Bytes} (hreader : c.reader = .length)
    (hunread : c.unread = hi :: lo :: rest) : ¬ c.awaits := by
  simp only [Conn.awaits, hreader, hunread, List.length_cons]
  omega

theorem not_awaits_body {n : ℕ} (hreader : c.reader = .body n) (hn : n ≤ c.unread.length) :
    ¬ c.awaits := by
  simp only [Conn.awaits, hreader]
  omega

theorem AtRest.stuck (h : AtRest c) (hmoves : Moves setup c true c') : False := by
  obtain ⟨hnumber, htasks, hempty, hawaits, hwriters⟩ := h
  have hnone (k : ℕ) (task : Task) : c.tasks.lookup k ≠ some task := by
    intro htask
    have hmem := Table.mem_entries_iff.2 htask
    rw [htasks] at hmem
    exact List.not_mem_nil hmem
  cases hmoves with
  | length hreader hunread hpos => exact not_awaits_length hreader hunread hawaits
  | zero hreader hunread => exact not_awaits_length hreader hunread hawaits
  | unheard hreader hn hnil => exact not_awaits_body hreader hn hawaits
  | refused hreader hn hne => exact not_awaits_body hreader hn hawaits
  | allowed hreader hn => exact not_awaits_body hreader hn hawaits
  | refusal hreader hwriter hroom => simp [hreader, Reader.number] at hnumber
  | refusalLost hreader hwriter => simp [hreader, Reader.number] at hnumber
  | shed hreader hfree hslot => simp [hreader, Reader.number] at hnumber
  | spawn hreader hfree hslot => simp [hreader, Reader.number] at hnumber
  | silent htask hnil => exact hnone _ _ htask
  | resolved htask hanswer hne => exact hnone _ _ htask
  | send htask hwriter hroom => exact hnone _ _ htask
  | sendLost htask hwriter => exact hnone _ _ htask
  | receive hwriter hchannel => simp [hempty] at hchannel
  | write hwriter htakes => simp [hwriter] at hwriters
  | shutdown hwriter hreader hchannel htasks => simp [hwriter, hreader] at hwriters

theorem Backed.stuck (h : Backed c) (hmoves : Moves setup c true c') : False := by
  obtain ⟨⟨k, answer, hwriting, hroom⟩, htasks, hawaits⟩ := h
  cases hmoves with
  | length hreader hunread hpos => exact not_awaits_length hreader hunread hawaits
  | zero hreader hunread => exact not_awaits_length hreader hunread hawaits
  | unheard hreader hn hnil => exact not_awaits_body hreader hn hawaits
  | refused hreader hn hne => exact not_awaits_body hreader hn hawaits
  | allowed hreader hn => exact not_awaits_body hreader hn hawaits
  | refusal hreader hwriter hfits =>
    rw [Conn.awaits, hreader] at hawaits
    omega
  | refusalLost hreader hwriter => simp [hwriting] at hwriter
  | shed hreader hfree hslot =>
    rw [Conn.awaits, hreader] at hawaits
    omega
  | spawn hreader hfree hslot =>
    rw [Conn.awaits, hreader] at hawaits
    omega
  | silent htask hnil => cases (htasks _ _ htask).1
  | resolved htask hanswer hne => cases (htasks _ _ htask).1
  | send htask hwriter hfits =>
    have hfull := (htasks _ _ htask).2
    omega
  | sendLost htask hwriter => simp [hwriting] at hwriter
  | receive hwriter hchannel => simp [hwriting] at hwriter
  | write hwriter htakes =>
    rw [hwriting] at hwriter
    cases hwriter
    omega
  | shutdown hwriter hreader hchannel htasks' => simp [hwriting] at hwriter

/-- No task of the connection can go on just when it is at rest or held up by its client. -/
theorem stuck_iff (hinv : Inv setup c) :
    (∀ a, a.own = true → step setup c a = none) ↔ AtRest c ∨ Backed c := by
  constructor
  · intro hstuck
    cases hwriter : c.writer with
    | writing k answer => exact Or.inr (backed_of_stuck hinv hwriter hstuck)
    | _ => exact Or.inl (atRest_of_stuck hinv (by rw [hwriter]; rfl) hstuck)
  · intro h a hown
    cases hstep : step setup c a with
    | none => rfl
    | some c' =>
      have hmoves := moves_of_step hstep
      rw [hown] at hmoves
      exact (h.elim (AtRest.stuck · hmoves) (Backed.stuck · hmoves)).elim

/-! ## Main results -/

/-- **No query is lost or answered twice.**  In every run of a connection, whatever the
client sends, the handler answers and the rest of the box does, the queries are the first
messages of the stream, each is at exactly one place, what was written is the answers in
frames (and at most part of one more, if writing failed), each to its own query, and what was
dropped was for a reason; slots, room and permits are kept to. -/
theorem dot_connection_keeps_account (setup : Setup) {others : ℕ} {as : List Action} {c : Conn}
    (hothers : others ≤ maxConcurrentQueries) (h : exec (step setup) (start others) as = some c) :
    c.queries <+: frames c.arrived ∧ c.account.Perm (List.range c.queries.length) ∧
      Written c ∧ Sound setup c ∧ Counts c ∧
      (c.writer = .done → (c.answers.map Prod.fst ++ c.dropped.map Prod.fst).Perm
        (List.range c.queries.length)) := by
  have hinv := inv_of_run hothers h
  refine ⟨?_, hinv.account, hinv.written, hinv.sound, hinv.counts, fun hdone => ?_⟩
  · obtain ⟨rest, hstream, -⟩ := hinv.framed.stream
    have hframes := frames_append_extends (c.queries.flatMap frame) rest
    rwa [frames_flatMap fun q hq => (hinv.framed.lengths q hq).2, ← hstream] at hframes
  · obtain ⟨hreader, htasks, hchannel⟩ := hinv.ended.done hdone
    have haccount := hinv.account
    simpa [Accounted, Conn.account, hreader, hchannel, hdone, Reader.number, Writer.number,
      AList.keys, htasks, List.keys] using haccount

/-- A box whose handler answers every query with the query twice, and a device at home. -/
def echo : Setup where
  codec := Codec.ofRows []
  peer := .v4 ⟨192, 168, 1, 20⟩ 40000
  clientId := none
  handle _ raw := some (raw ++ raw)

/-- Two queries in one go, answered in the other order. -/
def twoQueries : List Action :=
  [.arrive [0, 1, 7, 0, 1, 8], .readLength, .readBody Gate.empty 0, .takeSlot, .readLength,
    .readBody Gate.empty 0, .takeSlot, .resolved 1, .sendAnswer 1, .receive, .resolved 0,
    .sendAnswer 0, .clientReads 8, .write, .receive, .write, .stopReading, .shutdown]

theorem twoQueries_keeps_account :
    (exec (step echo) (start 3) twoQueries).map (fun c => (c.written, c.answers.map Prod.fst)) =
        some ([0, 2, 8, 8, 0, 2, 7, 7], [1, 0]) ∧
      ∀ c, exec (step echo) (start 3) twoQueries = some c →
        c.account.Perm (List.range c.queries.length) :=
  ⟨by rfl, fun _ h => (dot_connection_keeps_account echo (by decide) h).2.1⟩

/-- **A connection comes to rest.**  From every state a run reaches, and while the client sends
nothing more, the connection's own tasks take only so many steps, whatever the client reads and
the rest of the box does.  None of them can take one just when nobody has a query in hand, or the
writer waits for its client to read and everybody else for the writer. -/
theorem dot_connection_comes_to_rest (setup : Setup) {others : ℕ} {as bs : List Action}
    {c c' : Conn} (hothers : others ≤ maxConcurrentQueries)
    (h : exec (step setup) (start others) as = some c) (h' : exec (step setup) c bs = some c')
    (hquiet : c'.arrived = c.arrived) :
    bs.countP Action.own + c'.work ≤ c.work ∧
      ((∀ a, a.own = true → step setup c' a = none) ↔ AtRest c' ∨ Backed c') := by
  have hinv := inv_of_run hothers h
  have hinv' := inv_of_exec_all (step setup) (fun _ _ _ => step_inv) hinv h'
  exact ⟨countP_own_add_work_le hinv h' hquiet, stuck_iff hinv'⟩

/-- The two queries have come. -/
def asked : Conn := { start 3 with arrived := [0, 1, 7, 0, 1, 8], unread := [0, 1, 7, 0, 1, 8] }

/-- The writer has an answer, the client reads nothing, and the other answer waits. -/
theorem twoQueries_comes_to_rest :
    ∃ c, exec (step echo) asked ((twoQueries.take 12).drop 1) = some c ∧ c.account = [0, 1] ∧
      11 + c.work ≤ asked.work ∧ ∀ a, a.own = true → step echo c a = none := by
  obtain ⟨c, hc⟩ := Option.isSome_iff_exists.1
    (by rfl : (exec (step echo) asked ((twoQueries.take 12).drop 1)).isSome = true)
  have hend : (exec (step echo) asked ((twoQueries.take 12).drop 1)).map (fun c =>
      (c.arrived, c.reader, c.tasks.entries, c.writer, c.unread, c.room, c.account)) =
        some (asked.arrived, .length, [], .writing 1 [8, 8], [], 0, [0, 1]) := by rfl
  rw [hc] at hend
  simp only [Option.map_some, Option.some.injEq, Prod.mk.injEq] at hend
  obtain ⟨harrived, hreader, htasks, hwriter, hunread, hroom, haccount⟩ := hend
  have hasked : exec (step echo) (start 3) [.arrive asked.arrived] = some asked := rfl
  have hrest := dot_connection_comes_to_rest echo (by decide) hasked hc harrived
  have hbacked : Backed c := by
    refine ⟨⟨1, [8, 8], hwriter, by rw [hroom]; decide⟩, fun k task htask => ?_, ?_⟩
    · have hmem := Table.mem_entries_iff.2 htask
      rw [htasks] at hmem
      exact (List.not_mem_nil hmem).elim
    · simp [Conn.awaits, hreader, hunread]
  exact ⟨c, hc, haccount, hrest.1, hrest.2.2 (Or.inr hbacked)⟩

end Ferrite.Secure.Dot
