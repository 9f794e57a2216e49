import Mathlib.Data.List.TakeWhile
import Ferrite.Core.Utf8
import Ferrite.Blocklist.Parser

/-!
# A list parsed as it arrives

`LineSplitter` of `blocklist/src/loader.rs` and the loop of `load_list` that feeds it: a body
comes in chunks that end anywhere, and is parsed line by line without ever being whole.

What the splitter hands on is what the bytes hold, however they are cut (`push_eq`,
`cut_append`), and on the bytes of a text these are the lines of the text (`cut_toBytes`).
One difference to `str::lines` is left: a `\r` at the very end of the body goes here and
stays there.  No parser sees it (`finish_feed_append_cr`).
-/

namespace Ferrite.Blocklist

/-! ## The splitter -/

/-- `decode_line`. -/
def decodeLine (bytes : Bytes) : Text :=
  fromUtf8Lossy (if bytes.getLast? = some 13 then bytes.dropLast else bytes)

/-- `LineSplitter`. -/
structure LineSplitter where
  pending : Bytes

namespace LineSplitter

/-- `LineSplitter::push`: the lines that end in the chunk, and what is pending after it. -/
def push (s : LineSplitter) (rest : Bytes) : List Text × LineSplitter :=
  if 10 ∈ rest then
    let line := rest.takeWhile (· ≠ 10)
    let tail := (rest.dropWhile (· ≠ 10)).tail
    let (lines, s') := push ⟨[]⟩ tail
    (decodeLine (s.pending ++ line) :: lines, s')
  else ([], ⟨s.pending ++ rest⟩)
termination_by rest.length
decreasing_by
  have hle := (List.dropWhile_sublist (l := rest) (· ≠ 10)).length_le
  have hpos := List.length_pos_of_mem (by assumption : 10 ∈ rest)
  rw [List.length_tail]
  omega

/-- `LineSplitter::finish`: a last line without its end. -/
def finish (s : LineSplitter) : List Text :=
  if s.pending = [] then [] else [decodeLine s.pending]

end LineSplitter

section Streaming

variable (isAlphanumeric : Char → Bool) (polarity : ListPolarity)

/-- One turn of the loop of `load_list`: a chunk for the splitter, its lines for the
parser. -/
def streamChunk (s : LineSplitter × ParserState) (chunk : Bytes) : LineSplitter × ParserState :=
  let (lines, splitter) := s.1.push chunk
  (splitter, lines.foldl (ParserState.feed isAlphanumeric polarity) s.2)

/-- What `load_list` makes of a body that arrives in chunks. -/
def parseStream (chunks : List Bytes) : List Name × Option AdblockStats :=
  let (splitter, state) := chunks.foldl (streamChunk isAlphanumeric polarity) (⟨[]⟩, .detecting [] 0)
  (splitter.finish.foldl (ParserState.feed isAlphanumeric polarity) state).finish

end Streaming

/-! ## The bytes of the lines -/

/-- The bytes cut at each line end, behind those that are pending: the whole lines and the
rest. -/
def cut : Bytes → Bytes → List Bytes × Bytes
  | pending, [] => ([], pending)
  | pending, b :: bs =>
    if b = 10 then (pending :: (cut [] bs).1, (cut [] bs).2) else cut (pending ++ [b]) bs

theorem cut_append (pending xs ys : Bytes) :
    cut pending (xs ++ ys) =
      ((cut pending xs).1 ++ (cut (cut pending xs).2 ys).1, (cut (cut pending xs).2 ys).2) := by
  induction xs generalizing pending with
  | nil => rfl
  | cons b xs ih =>
    rw [List.cons_append, cut, cut]
    split
    · rw [ih]
      rfl
    · exact ih _

theorem cut_of_notMem {pending xs : Bytes} (h : 10 ∉ xs) : cut pending xs = ([], pending ++ xs) := by
  induction xs generalizing pending with
  | nil => simp [cut]
  | cons b xs ih =>
    rw [List.mem_cons, not_or] at h
    rw [cut, if_neg (Ne.symm h.1), ih h.2, List.append_assoc, List.singleton_append]

/-- `push` cuts at the line ends and decodes. -/
theorem push_eq (s : LineSplitter) (chunk : Bytes) :
    s.push chunk = ((cut s.pending chunk).1.map decodeLine, ⟨(cut s.pending chunk).2⟩) := by
  induction h : chunk.length using Nat.strong_induction_on generalizing s chunk with
  | _ n ih =>
    rw [LineSplitter.push]
    split
    · next hmem =>
      obtain ⟨line, tail, rfl, hline⟩ := List.eq_append_cons_of_mem hmem
      have hall : ∀ b ∈ line, decide (b ≠ 10) = true := by
        intro b hb
        exact decide_eq_true fun heq => hline (heq ▸ hb)
      have htake : (line ++ 10 :: tail).takeWhile (· ≠ 10) = line := by
        rw [List.takeWhile_append_of_pos hall, List.takeWhile_cons_of_neg (by simp), List.append_nil]
      have hdrop : (line ++ 10 :: tail).dropWhile (· ≠ 10) = 10 :: tail := by
        rw [List.dropWhile_append_of_pos hall, List.dropWhile_cons_of_neg (by simp)]
      have hshort : tail.length < n := by
        rw [← h, List.length_append, List.length_cons]
        omega
      have hcut : cut s.pending (line ++ 10 :: tail) =
          ((s.pending ++ line) :: (cut [] tail).1, (cut [] tail).2) := by
        rw [cut_append, cut_of_notMem hline, cut, if_pos rfl]
        rfl
      rw [hcut]
      simp only [htake, hdrop, List.tail_cons, ih _ hshort ⟨[]⟩ tail rfl, List.map_cons]
    · next hmem =>
      rw [cut_of_notMem hmem]
      rfl

/-- However a body is cut into chunks, the parser gets the lines of the whole. -/
theorem foldl_streamChunk (isAlphanumeric : Char → Bool) (polarity : ListPolarity)
    (chunks : List Bytes) (s : LineSplitter) (state : ParserState) :
    chunks.foldl (streamChunk isAlphanumeric polarity) (s, state) =
      (⟨(cut s.pending chunks.flatten).2⟩,
        ((cut s.pending chunks.flatten).1.map decodeLine).foldl
          (ParserState.feed isAlphanumeric polarity) state) := by
  induction chunks generalizing s state with
  | nil => rfl
  | cons chunk chunks ih =>
    rw [List.foldl_cons, List.flatten_cons, cut_append]
    simp only [streamChunk, push_eq]
    rw [ih, List.map_append, List.foldl_append]

/-! ## The lines of a text -/

/-- The same cut, character by character. -/
def cutText : Text → Text → List Text × Text
  | pending, [] => ([], pending)
  | pending, c :: cs =>
    if c = '\n' then (pending :: (cutText [] cs).1, (cutText [] cs).2) else cutText (pending ++ [c]) cs

/-- A line end among the bytes of a text is one of its characters. -/
theorem cut_toBytes (pending t : Text) :
    cut pending.toBytes t.toBytes =
      ((cutText pending t).1.map Text.toBytes, (cutText pending t).2.toBytes) := by
  induction t generalizing pending with
  | nil => rfl
  | cons c t ih =>
    rw [Text.toBytes_cons, cutText]
    split
    · next hc =>
      subst hc
      have hbytes : String.utf8EncodeChar '\n' = [10] := by decide
      rw [hbytes, List.singleton_append, cut, if_pos rfl]
      have hrest := ih []
      rw [Text.toBytes_nil] at hrest
      rw [hrest]
      rfl
    · next hc =>
      have hnot : 10 ∉ String.utf8EncodeChar c := by
        intro hmem
        have hten : c.toNat = 10 := Text.mem_utf8EncodeChar (by decide) hmem
        exact hc (Char.toNat_inj.1 hten)
      have hpending : (pending ++ [c]).toBytes = pending.toBytes ++ String.utf8EncodeChar c := by
        rw [Text.toBytes_append, Text.toBytes_cons, Text.toBytes_nil, List.append_nil]
      rw [cut_append, cut_of_notMem hnot, ← ih (pending ++ [c]), hpending]
      rfl

theorem modifyHead_splitOn (pending t : Text) :
    (t.splitOn '\n').modifyHead (pending ++ ·) =
      (cutText pending t).1 ++ [(cutText pending t).2] := by
  induction t generalizing pending with
  | nil => simp [cutText, List.splitOn, List.splitOnP_nil]
  | cons c t ih =>
    rw [cutText, List.splitOn, List.splitOnP_cons_eq_if_modifyHead]
    split
    · next hc =>
      have hc : c = '\n' := by simpa using hc
      have hrest := ih []
      simp only [List.nil_append, List.splitOn] at hrest
      rw [if_pos hc, List.modifyHead_cons, List.append_nil, List.cons_append, ← hrest]
      exact congrArg _ (List.modifyHead_id ▸ rfl)
    · next hc =>
      have hc : c ≠ '\n' := by simpa using hc
      rw [if_neg hc, ← ih, List.modifyHead_modifyHead]
      exact congrArg (fun f => List.modifyHead f _) (funext fun l => by simp)

/-- A `\r` at the end of a line goes. -/
def dropCr (l : Text) : Text := if l.getLast? = some '\r' then l.dropLast else l

theorem decodeLine_toBytes (l : Text) : decodeLine l.toBytes = dropCr l := by
  rw [decodeLine, dropCr]
  rcases List.eq_nil_or_concat l with rfl | ⟨l, c, rfl⟩
  · rfl
  · rw [List.concat_eq_append]
    have hbytes : Text.toBytes (l ++ [c]) = Text.toBytes l ++ String.utf8EncodeChar c := by
      rw [Text.toBytes_append, Text.toBytes_cons, Text.toBytes_nil, List.append_nil]
    rw [List.getLast?_concat, List.dropLast_concat]
    by_cases hc : c = '\r'
    · subst hc
      have hcr : String.utf8EncodeChar '\r' = [13] := by decide
      rw [hbytes, hcr, List.getLast?_concat, List.dropLast_concat, if_pos rfl, if_pos rfl,
        fromUtf8Lossy_toBytes]
    · have hlast : (Text.toBytes (l ++ [c])).getLast? ≠ some 13 := by
        intro h
        rw [hbytes, List.getLast?_append] at h
        have hne : String.utf8EncodeChar c ≠ [] := String.utf8EncodeChar_ne_nil
        obtain ⟨b, hb⟩ : ∃ b, (String.utf8EncodeChar c).getLast? = some b :=
          ⟨_, List.getLast?_eq_getLast_of_ne_nil hne⟩
        rw [hb, Option.some_or, Option.some.injEq] at h
        have hthirteen : c.toNat = 13 :=
          Text.mem_utf8EncodeChar (by decide) (h ▸ List.mem_of_getLast? hb)
        exact hc (Char.toNat_inj.1 hthirteen)
      rw [if_neg hlast, if_neg (by simp [hc]), fromUtf8Lossy_toBytes]

/-- `str::lines` in terms of the cut: the last line keeps its `\r`. -/
theorem lines_eq (t : Text) :
    t.lines = (cutText [] t).1.map dropCr ++
      if (cutText [] t).2 = [] then [] else [(cutText [] t).2] := by
  have hparts : t.splitOn '\n' = (cutText [] t).1 ++ [(cutText [] t).2] := by
    rw [← modifyHead_splitOn]
    exact (congrFun List.modifyHead_id _).symm
  rw [Text.lines]
  simp only [hparts, List.dropLast_concat, List.getLast?_concat, Option.toList_some]
  congr 1
  by_cases h : (cutText [] t).2 = []
  · simp [h]
  · simp [h]

/-! ## A `\r` at the end of the body -/

theorem trim_append_cr (l : Text) : Text.trim (l ++ ['\r']) = Text.trim l := by
  have hcr : isWhitespace '\r' = true := by decide
  rw [Text.trim, Text.trim, List.dropWhile_append]
  cases hdrop : l.dropWhile isWhitespace with
  | nil => rw [List.isEmpty_nil, if_pos rfl, List.dropWhile_cons_of_pos hcr, List.dropWhile_nil]
  | cons c cs =>
    rw [List.isEmpty_cons, if_neg (by simp)]
    simp only [Text.trimEndMatches]
    rw [List.reverse_append, List.reverse_singleton, List.singleton_append,
      List.dropWhile_cons_of_pos hcr]

theorem trim_beforeHash_append_cr (l : Text) :
    (beforeHash (l ++ ['\r'])).trim = (beforeHash l).trim := by
  by_cases h : '#' ∈ l
  · obtain ⟨s, t, rfl, hs⟩ := List.eq_append_cons_of_mem h
    have hall : ∀ c ∈ s, decide (c ≠ '#') = true := fun c hc =>
      decide_eq_true fun heq => hs (heq ▸ hc)
    have hcut : ∀ u : Text, beforeHash (s ++ '#' :: u) = s := by
      intro u
      rw [beforeHash, List.takeWhile_append_of_pos hall, List.takeWhile_cons_of_neg (by simp),
        List.append_nil]
    rw [List.append_assoc, List.cons_append, hcut, hcut]
  · have hwhole : ∀ u : Text, '#' ∉ u → beforeHash u = u := fun u hu =>
      List.takeWhile_eq_self_iff.2 fun c hc => decide_eq_true fun heq => hu (heq ▸ hc)
    rw [hwhole l h, hwhole (l ++ ['\r']) (by simp [h]), trim_append_cr]

section

variable {isAlphanumeric : Char → Bool}

/-- No parser sees a `\r` at the end of a line. -/
theorem feedChosen_append_cr (state : ParserState) (l : Text) :
    state.feedChosen isAlphanumeric (l ++ ['\r']) = state.feedChosen isAlphanumeric l := by
  cases state with
  | detecting header bytes => rfl
  | hosts domains =>
    simp only [ParserState.feedChosen, feedHosts, trim_beforeHash_append_cr]
  | plain domains => simp only [ParserState.feedChosen, feedPlain, trim_append_cr]
  | adblock p => simp only [ParserState.feedChosen, AdblockParser.feed, trim_append_cr]
  | adblockAllow p =>
    simp only [ParserState.feedChosen, AdblockExceptionsParser.feed, trim_append_cr]

theorem detectFormat_append_cr (l : Text) : detectFormat (l ++ ['\r']) = detectFormat l := by
  simp only [detectFormat, trim_append_cr]

/-- A line that decides nothing is blank or a comment. -/
theorem comment_of_detectFormat {l : Text} (h : detectFormat l = none) :
    l.trim = [] ∨ l.trim.head? = some '!' ∨ l.trim.head? = some '#' := by
  unfold detectFormat at h
  dsimp only at h
  split_ifs at h with hblank _ hcomment
  · exact Or.inl hblank
  · exact Or.inr hcomment

/-- Only blanks are trimmed. -/
theorem mem_trim {l : Text} {c : Char} (hc : isWhitespace c = false) (h : c ∈ l) : c ∈ l.trim := by
  have hdrop : ∀ {s : Text}, c ∈ s → c ∈ s.dropWhile isWhitespace := by
    intro s hs
    rw [← List.takeWhile_append_dropWhile (p := isWhitespace) (l := s), List.mem_append] at hs
    rcases hs with hs | hs
    · rw [List.mem_takeWhile_imp hs] at hc
      cases hc
    · exact hs
  rw [Text.trim, Text.trimEndMatches, List.mem_reverse]
  exact hdrop (List.mem_reverse.2 (hdrop h))

/-- No name has a `!` in it. -/
theorem isValidDomain_bang (hA : AsciiAlphanumeric isAlphanumeric) {d : Name} (h : '!' ∈ d) :
    isValidDomain isAlphanumeric d = false := by
  have hbang : isAlphanumeric '!' = false := by
    rw [hA '!' (by decide)]
    decide
  have hall : d.all (fun c => isAlphanumeric c || c == '-' || c == '.' || c == '_') = false := by
    rw [List.all_eq_false]
    exact ⟨'!', h, by simp [hbang]⟩
  unfold isValidDomain
  rw [hall]
  split_ifs <;> rfl

/-- No name comes of a comment, even from the plain parser. -/
theorem feedPlain_comment (hA : AsciiAlphanumeric isAlphanumeric) {l : Text}
    (h : detectFormat l = none) (domains : List Name) :
    feedPlain isAlphanumeric domains l = domains := by
  unfold feedPlain
  dsimp only
  split_ifs with hskip
  · rfl
  rw [not_or] at hskip
  rcases comment_of_detectFormat h with hblank | hbang | hhash
  · exact absurd hblank hskip.1
  · obtain ⟨cs, hcs⟩ := List.head?_eq_some_iff.1 hbang
    have hmem : '!' ∈ (beforeHash l.trim).trim := by
      refine mem_trim (by decide) ?_
      rw [hcs, beforeHash, List.takeWhile_cons_of_pos (by decide)]
      exact List.mem_cons_self ..
    have hlower : '!' ∈ (beforeHash l.trim).trim.toAsciiLowercase :=
      List.mem_map.2 ⟨'!', hmem, by decide⟩
    unfold pushLowercaseIf
    rw [isValidDomain_bang hA hlower, if_neg Bool.false_ne_true]
    split <;> rfl
  · obtain ⟨cs, hcs⟩ := List.head?_eq_some_iff.1 hhash
    have hnil : (beforeHash l.trim).trim = [] := by
      rw [hcs, beforeHash, List.takeWhile_cons_of_neg (by decide)]
      rfl
    rw [hnil]
    rfl

/-- Neither does one of a header of them. -/
theorem switchTo_plain (hA : AsciiAlphanumeric isAlphanumeric) (polarity : ListPolarity)
    {header : List Text} (h : ∀ l ∈ header, detectFormat l = none) :
    ParserState.switchTo isAlphanumeric polarity header .plain = .plain [] := by
  unfold ParserState.switchTo
  induction header with
  | nil => rfl
  | cons l header ih =>
    have hline : ParserState.feedChosen isAlphanumeric (.plain []) l = .plain [] := by
      rw [ParserState.feedChosen, feedPlain_comment hA (h l (List.mem_cons_self ..))]
    rw [List.foldl_cons]
    show List.foldl _ (ParserState.feedChosen isAlphanumeric (.plain []) l) header = _
    rw [hline]
    exact ih fun l hl => h l (List.mem_cons_of_mem _ hl)

/-- What is known of a parser along the way: the lines of its header decided nothing. -/
def Undecided : ParserState → Prop
  | .detecting header _ => ∀ l ∈ header, detectFormat l = none
  | _ => True

theorem undecided_feedChosen {state : ParserState} (h : Undecided state) (l : Text) :
    Undecided (state.feedChosen isAlphanumeric l) := by
  cases state with
  | detecting header bytes => exact h
  | hosts domains => trivial
  | plain domains => trivial
  | adblock p => trivial
  | adblockAllow p => trivial

theorem undecided_switchTo (polarity : ListPolarity) (header : List Text) (format : Format) :
    Undecided (ParserState.switchTo isAlphanumeric polarity header format) := by
  unfold ParserState.switchTo
  induction header using List.reverseRecOn with
  | nil => cases format <;> cases polarity <;> trivial
  | append_singleton header l ih =>
    rw [List.foldl_append]
    exact undecided_feedChosen ih l

theorem Undecided.feed {state : ParserState} (h : Undecided state) (polarity : ListPolarity)
    (l : Text) : Undecided (state.feed isAlphanumeric polarity l) := by
  cases state with
  | detecting header bytes =>
    unfold ParserState.feed
    dsimp only
    split
    · exact undecided_switchTo polarity _ _
    · next hnone =>
      split
      · exact undecided_switchTo polarity _ _
      · intro l' hl'
        rcases List.mem_append.1 hl' with hl' | hl'
        · exact h l' hl'
        · rw [List.mem_singleton.1 hl']
          exact hnone
  | hosts domains => exact undecided_feedChosen h l
  | plain domains => exact undecided_feedChosen h l
  | adblock p => exact undecided_feedChosen h l
  | adblockAllow p => exact undecided_feedChosen h l

theorem Undecided.foldl_feed {state : ParserState} (h : Undecided state) (polarity : ListPolarity)
    (lines : List Text) :
    Undecided (lines.foldl (ParserState.feed isAlphanumeric polarity) state) := by
  induction lines generalizing state with
  | nil => exact h
  | cons l lines ih => exact ih (h.feed polarity l)

/-- A header that decides nothing gives no names, whether or not it grew too long. -/
theorem finish_feed_undecided (hA : AsciiAlphanumeric isAlphanumeric) {header : List Text}
    {bytes : ℕ} (h : Undecided (.detecting header bytes)) (polarity : ListPolarity) {l : Text}
    (hl : detectFormat l = none) :
    (ParserState.feed isAlphanumeric polarity (.detecting header bytes) l).finish = ([], none) := by
  have hall : ∀ l' ∈ header ++ [l], detectFormat l' = none := by
    intro l' hl'
    rcases List.mem_append.1 hl' with hl' | hl'
    · exact h l' hl'
    · rw [List.mem_singleton.1 hl']
      exact hl
  simp only [ParserState.feed, hl]
  split
  · rw [switchTo_plain hA polarity hall]
    rfl
  · rfl

/-- Nothing that comes out depends on a `\r` at the end of the last line. -/
theorem finish_feed_append_cr (hA : AsciiAlphanumeric isAlphanumeric) {state : ParserState}
    (h : Undecided state) (polarity : ListPolarity) (l : Text) :
    (state.feed isAlphanumeric polarity (l ++ ['\r'])).finish =
      (state.feed isAlphanumeric polarity l).finish := by
  cases state with
  | detecting header bytes =>
    cases hl : detectFormat l with
    | none =>
      rw [finish_feed_undecided hA h polarity hl,
        finish_feed_undecided hA h polarity ((detectFormat_append_cr l).trans hl)]
    | some format =>
      simp only [ParserState.feed, detectFormat_append_cr, hl, ParserState.switchTo,
        List.foldl_append, List.foldl_cons, List.foldl_nil, feedChosen_append_cr]
  | hosts domains => exact congrArg ParserState.finish (feedChosen_append_cr (.hosts domains) l)
  | plain domains => exact congrArg ParserState.finish (feedChosen_append_cr (.plain domains) l)
  | adblock p => exact congrArg ParserState.finish (feedChosen_append_cr (.adblock p) l)
  | adblockAllow p => exact congrArg ParserState.finish (feedChosen_append_cr (.adblockAllow p) l)

theorem finish_feed_dropCr (hA : AsciiAlphanumeric isAlphanumeric) {state : ParserState}
    (h : Undecided state) (polarity : ListPolarity) (l : Text) :
    (state.feed isAlphanumeric polarity (dropCr l)).finish =
      (state.feed isAlphanumeric polarity l).finish := by
  unfold dropCr
  split
  · next hlast =>
    have hl : l.dropLast ++ ['\r'] = l := List.dropLast_append_getLast? '\r' hlast
    conv_rhs => rw [← hl]
    exact (finish_feed_append_cr hA h polarity l.dropLast).symm
  · rfl

/-! ## The two agree -/

/-- **A streamed list is the list read whole**: however the bytes of a body are cut into
chunks, `load_list` gets the names and the statistics of `parse_content`. -/
theorem parseStream_eq_parseContent (hA : AsciiAlphanumeric isAlphanumeric) (body : Text)
    (chunks : List Bytes) (hchunks : chunks.flatten = body.toBytes) (polarity : ListPolarity) :
    parseStream isAlphanumeric polarity chunks = parseContent isAlphanumeric body polarity := by
  have hcut := cut_toBytes [] body
  rw [Text.toBytes_nil] at hcut
  have hdecode : decodeLine ∘ Text.toBytes = dropCr := funext decodeLine_toBytes
  have hstart : Undecided (.detecting [] 0) := nofun
  unfold parseStream parseContent
  rw [foldl_streamChunk, hchunks, hcut, lines_eq, List.map_map, hdecode, List.foldl_append]
  dsimp only [LineSplitter.finish]
  by_cases hrest : (cutText [] body).2 = []
  · rw [hrest]
    rfl
  · rw [if_neg hrest, if_neg (Text.toBytes_ne_nil hrest), decodeLine_toBytes]
    exact finish_feed_dropCr hA (hstart.foldl_feed polarity _) polarity _

/-- A hosts file in two chunks, cut between `\r` and `\n`, with a `\r` at its end. -/
theorem parseStream_eq_parseContent_hosts :
    parseStream Char.isAlphanum .block
        [Text.toBytes "0.0.0.0 ads.example\r".toList, Text.toBytes "\n0.0.0.0 b.example\r".toList] =
      (["ads.example".toList, "b.example".toList], none) := by
  rw [parseStream_eq_parseContent (fun _ _ => rfl)
    "0.0.0.0 ads.example\r\n0.0.0.0 b.example\r".toList _ (by decide)]
  decide +kernel

end

end Ferrite.Blocklist
