/-
Lines that are not UTF-8.

The reader of a notification stream decodes each line, and takes the empty text for one that
it cannot decode.  The empty text is also what ends an event.  So a malformed line is not
skipped: in the middle of an event it hands over what has been gathered so far, and what
follows becomes an event of its own.

What should be handed over is said by `wholeEvents`: the lines of whatever bytes arrive, cut
at the empty ones, and for each piece the payloads of the lines in it that can be decoded.
`payloads_eq_iff` says when the reader hands over just that.
-/
import McpFederation.Lib.Pieces
import McpFederation.Proofs.Framing

namespace McpFederation

/-! ### The lines of a stream -/

/-- The text of a line, if it is UTF-8. -/
def decodeLine (bytes : List UInt8) : Option (List Char) :=
  (String.fromUTF8? bytes.toByteArray).map String.toList

/-- A line without the CR of a CRLF ending. -/
def withoutCr (bytes : List UInt8) : List UInt8 :=
  if bytes.getLast? = some 13 then bytes.dropLast else bytes

/-- The bytes that arrive, until the stream ends or breaks off. -/
def received : List (Except String ByteArray) → List UInt8
  | [] => []
  | .error _ :: _ => []
  | .ok bytes :: rest => bytes.data.toList ++ received rest

/-- What the stream broke off with, if it did. -/
def failure : List (Except String ByteArray) → Option String
  | [] => none
  | .error e :: _ => some e
  | .ok _ :: rest => failure rest

/-- The line that the stream ended in, if it did not end with an LF. -/
def openLine (bytes : List UInt8) : List (Option (List Char)) :=
  if Pieces.lastPiece 10 bytes = [] then [] else [decodeLine (Pieces.lastPiece 10 bytes)]

/-- The lines that end in an LF. -/
def closedLines (bytes : List UInt8) : List (Option (List Char)) :=
  (Pieces.closedPieces 10 bytes).map fun line => decodeLine (withoutCr line)

/-- The lines of a stream.  One that broke off has none after its last LF. -/
def streamLines (chunks : List (Except String ByteArray)) : List (Option (List Char)) :=
  closedLines (received chunks)
    ++ if failure chunks = none then openLine (received chunks) else []

/-! ### What should be handed over -/

/-- The lines between two empty lines, or the start or the end of the stream.  A stream that
broke off has not ended, and what comes after its last empty line is no event yet. -/
def streamBlocks (chunks : List (Except String ByteArray)) : List (List (Option (List Char))) :=
  if failure chunks = none then (streamLines chunks).splitOn (some [])
  else Pieces.closedPieces (some []) (streamLines chunks)

/-- The payload of the `data:` lines in a block, of those that can be decoded. -/
def blockData (block : List (Option (List Char))) : List Char :=
  (block.filterMap id).foldl addLine []

/-- The events of a stream: each block with a payload is one. -/
def wholeEvents (chunks : List (Except String ByteArray)) : List String :=
  (streamBlocks chunks).flatMap fun block => flushed (blockData block)

/-! ### The reader, on any bytes -/

theorem lineText_eq (bytes : List UInt8) : lineText bytes = (decodeLine bytes).getD [] := by
  unfold lineText decodeLine
  cases String.fromUTF8? bytes.toByteArray <;> rfl

theorem completeLine_eq (bytes : List UInt8) :
    completeLine bytes = (decodeLine (withoutCr bytes)).getD [] := by
  rw [completeLine, lineText_eq]
  rfl

/-- The text that the reader takes for a line. -/
def taken (line : Option (List Char)) : List Char := line.getD []

/-- What is handed over at a line. -/
def sentAt (data line : List Char) : List String := if line = [] then flushed data else []

/-- The data buffer after a line. -/
def bufferAfter (data line : List Char) : List Char := if line = [] then [] else addLine data line

/-- The events that are handed over while the lines are read. -/
def dispatched : List (List Char) → List Char → List String
  | [], _ => []
  | line :: rest, data => sentAt data line ++ dispatched rest (bufferAfter data line)

theorem lineEvents_cons (line : List Char) (rest : List (List Char)) (data : List Char) :
    lineEvents (line :: rest) data
      = sentAt data line ++ lineEvents rest (bufferAfter data line) := by
  rw [lineEvents, sentAt, bufferAfter]
  split <;> rfl

theorem lineEvents_append (lines rest : List (List Char)) : ∀ data : List Char,
    lineEvents (lines ++ rest) data
      = dispatched lines data ++ lineEvents rest (lines.foldl bufferAfter data) := by
  induction lines with
  | nil => intro data; rfl
  | cons line lines ih =>
      intro data
      rw [List.cons_append, lineEvents_cons, ih, dispatched, List.append_assoc, List.foldl_cons]

theorem handleSseLine_eq (line data : List Char) :
    handleSseLine line data = SseM.handing (sentAt data line) (bufferAfter data line) := by
  by_cases hline : line = []
  · subst hline
    exact handleSseLine_blank data
  · rw [handleSseLine_of_ne hline, sentAt, bufferAfter, if_neg hline, if_neg hline]
    rfl

/-- What the reader does with bytes that begin a line. -/
theorem readBytes_eq (bytes : List UInt8) : ∀ data : List Char,
    readBytes bytes { dataBuf := data }
      = SseM.handing (dispatched ((closedLines bytes).map taken) data)
          { lineBuf := Pieces.lastPiece 10 bytes,
            dataBuf := ((closedLines bytes).map taken).foldl bufferAfter data } := by
  induction bytes using Pieces.splitOn_induction (a := (10 : UInt8)) with
  | last bytes h =>
      intro data
      rw [readBytes_of_not_mem h, closedLines, Pieces.closedPieces_of_not_mem h,
        Pieces.lastPiece_of_not_mem h]
      rfl
  | cut line rest h ih =>
      intro data
      rw [readBytes_append, readBytes_of_not_mem h, Prog.ret_bind, closedLines,
        Pieces.closedPieces_cut h, Pieces.lastPiece_cut h]
      show (handleSseLine (completeLine line) data >>= fun data =>
        readBytes rest { dataBuf := data }) = _
      rw [handleSseLine_eq, completeLine_eq]
      exact SseM.handing_bind (f := fun data => readBytes rest { dataBuf := data }) (ih _) _

/-- At the end, the line that is open is read, and what has been gathered is an event. -/
theorem flushBuffers_eq (bytes : List UInt8) (data : List Char) :
    flushBuffers { lineBuf := Pieces.lastPiece 10 bytes, dataBuf := data }
      = SseM.handing (lineEvents ((openLine bytes).map taken) data) () := by
  unfold flushBuffers openLine
  by_cases hline : Pieces.lastPiece 10 bytes = []
  · rw [if_pos hline, if_pos hline]
    exact flush_eq_handing data
  · rw [if_neg hline, if_neg hline, lineText_eq]
    exact handleSseLine_bind flush_eq_handing

/-- Chunks are read as one, up to the first that fails. -/
theorem readChunks_received (chunks : List (Except String ByteArray)) : ∀ buf : SseBuffers,
    readChunks chunks buf
      = (readBytes (received chunks) buf >>= fun buf =>
          match failure chunks with
          | some e => pure (.error e)
          | none => flushBuffers buf >>= fun _ => pure (.ok ())) := by
  induction chunks with
  | nil => intro buf; rfl
  | cons chunk rest ih =>
      intro buf
      cases chunk with
      | error e => rfl
      | ok bytes =>
          rw [received, readBytes_append, bind_assoc]
          exact congrArg _ (funext fun buf => ih buf)

/-- The events of the lines that are taken, or those before the failure. -/
theorem payloads_readChunks (chunks : List (Except String ByteArray)) :
    SseM.payloads (readChunks chunks {})
      = if failure chunks = none then lineEvents ((streamLines chunks).map taken) []
        else dispatched ((streamLines chunks).map taken) [] := by
  rw [readChunks_received, readBytes_eq, SseM.payloads_handing_bind]
  unfold streamLines
  cases failure chunks with
  | some e =>
      rw [if_neg (by simp), if_neg (by simp), List.append_nil]
      exact List.append_nil _
  | none =>
      rw [if_pos rfl, if_pos rfl, List.map_append, lineEvents_append]
      simp only [flushBuffers_eq, SseM.handing_pure, SseM.payloads_handing]

/-! ### Block by block -/

theorem taken_blank : taken (some []) = [] := rfl

/-- The events of the lines are those of the blocks. -/
theorem lineEvents_blocks (lines : List (Option (List Char))) :
    lineEvents (lines.map taken) []
      = (lines.splitOn (some [])).flatMap fun block => lineEvents (block.map taken) [] := by
  induction lines using Pieces.splitOn_induction (a := some ([] : List Char)) with
  | last lines h => rw [List.splitOn_eq_singleton h, List.flatMap_singleton]
  | cut block rest h ih =>
      rw [List.splitOn_append_cons_self_of_not_mem h, List.flatMap_cons, ← ih, List.map_append,
        List.map_cons, taken_blank, lineEvents_blank]

theorem dispatched_blank (lines rest : List (List Char)) (data : List Char) :
    dispatched (lines ++ [] :: rest) data = lineEvents lines data ++ dispatched rest [] := by
  induction lines generalizing data with
  | nil => rfl
  | cons line lines ih =>
      rw [List.cons_append, dispatched, ih, lineEvents_cons, List.append_assoc]

/-- Before a failure: the events of the closed blocks, and what the last one has sent. -/
theorem dispatched_blocks (lines : List (Option (List Char))) :
    dispatched (lines.map taken) []
      = ((Pieces.closedPieces (some []) lines).flatMap fun block => lineEvents (block.map taken) [])
        ++ dispatched ((Pieces.lastPiece (some []) lines).map taken) [] := by
  induction lines using Pieces.splitOn_induction (a := some ([] : List Char)) with
  | last lines h =>
      rw [Pieces.closedPieces_of_not_mem h, Pieces.lastPiece_of_not_mem h]
      rfl
  | cut block rest h ih =>
      rw [Pieces.closedPieces_cut h, Pieces.lastPiece_cut h, List.flatMap_cons, List.append_assoc,
        ← ih, List.map_append, List.map_cons, taken_blank, dispatched_blank]

/-! ### One block -/

/-- A `data:` line that has something in it. -/
def HasPayload (line : List Char) : Prop := ∃ p, payloadOf line = some p ∧ p ≠ []

/-- A malformed line stands after a payload and before another `data:` line. -/
def Torn (block : List (Option (List Char))) : Prop :=
  ∃ before after, block = before ++ none :: after ∧
    (∃ line, some line ∈ before ∧ HasPayload line) ∧
    ∃ line, some line ∈ after ∧ payloadOf line ≠ none

/-- A malformed line stands after a payload. -/
def CutShort (block : List (Option (List Char))) : Prop :=
  ∃ before after, block = before ++ none :: after ∧ ∃ line, some line ∈ before ∧ HasPayload line

/-- A malformed line adds nothing, either way. -/
theorem blockData_eq (block : List (Option (List Char))) :
    blockData block = (block.map taken).foldl addLine [] := by
  suffices h : ∀ data, (block.filterMap id).foldl addLine data
      = (block.map taken).foldl addLine data from h []
  induction block with
  | nil => intro data; rfl
  | cons line block ih =>
      intro data
      cases line with
      | none => exact ih data
      | some text => exact ih (addLine data text)

/-- What the reader takes of a line with a payload is the line. -/
theorem exists_mem_map_taken {P : List Char → Prop} (hP : ¬ P [])
    (lines : List (Option (List Char))) :
    (∃ line ∈ lines.map taken, P line) ↔ ∃ line, some line ∈ lines ∧ P line := by
  constructor
  · intro h
    obtain ⟨text, htext, hp⟩ := h
    obtain ⟨line, hline, rfl⟩ := List.mem_map.mp htext
    cases line with
    | none => exact absurd hp hP
    | some text => exact ⟨text, hline, hp⟩
  · intro h
    obtain ⟨line, hline, hp⟩ := h
    exact ⟨line, List.mem_map.mpr ⟨some line, hline, rfl⟩, hp⟩

/-- In a block the empty texts that the reader takes are the malformed lines. -/
theorem map_taken_eq_append {block : List (Option (List Char))} (h : some [] ∉ block)
    {before after : List (List Char)} (heq : block.map taken = before ++ [] :: after) :
    ∃ before' after', block = before' ++ none :: after' ∧ before'.map taken = before ∧
      after'.map taken = after := by
  obtain ⟨before', rest, rfl, hbefore, hrest⟩ := List.map_eq_append_iff.mp heq
  obtain ⟨line, after', rfl, hline, hafter⟩ := List.map_eq_cons_iff.mp hrest
  cases line with
  | none => exact ⟨before', after', rfl, hbefore, hafter⟩
  | some text =>
      obtain rfl : text = [] := hline
      exact absurd (by simp) h

/-- So a block is cut at a malformed line where the reader's lines are cut at an empty one. -/
theorem exists_cut_iff {block : List (Option (List Char))} (h : some [] ∉ block)
    {P Q : List (List Char) → Prop} {P' Q' : List (Option (List Char)) → Prop}
    (hP : ∀ lines, P (lines.map taken) ↔ P' lines) (hQ : ∀ lines, Q (lines.map taken) ↔ Q' lines) :
    (∃ before after, block.map taken = before ++ [] :: after ∧ P before ∧ Q after) ↔
      ∃ before after, block = before ++ none :: after ∧ P' before ∧ Q' after := by
  constructor
  · intro hcut
    obtain ⟨before, after, heq, hbefore, hafter⟩ := hcut
    obtain ⟨before', after', rfl, rfl, rfl⟩ := map_taken_eq_append h heq
    exact ⟨before', after', rfl, (hP _).mp hbefore, (hQ _).mp hafter⟩
  · intro hcut
    obtain ⟨before, after, rfl, hbefore, hafter⟩ := hcut
    exact ⟨before.map taken, after.map taken, by rw [List.map_append]; rfl,
      (hP _).mpr hbefore, (hQ _).mpr hafter⟩

theorem not_hasPayload_nil : ¬ HasPayload [] := by
  intro h
  obtain ⟨p, hp, -⟩ := h
  cases hp

theorem torn_iff {block : List (Option (List Char))} (h : some [] ∉ block) :
    SeveralEvents (block.map taken) ↔ Torn block := by
  have hdata : ¬ payloadOf [] ≠ none := fun hp => hp rfl
  exact exists_cut_iff h (exists_mem_map_taken not_hasPayload_nil) (exists_mem_map_taken hdata)

/-- A block is handed over as one event exactly if it is not torn. -/
theorem lineEvents_eq_iff (lines : List (List Char)) :
    lineEvents lines [] = flushed (lines.foldl addLine []) ↔ ¬ SeveralEvents lines := by
  rw [← splitFrom_nil_iff]
  refine ⟨fun heq hsplit => ?_, lineEvents_of_not_split lines⟩
  have hne : lines.foldl addLine [] ≠ [] := by
    obtain ⟨before, after, rfl, ⟨line, hl, hp⟩, -⟩ := (splitFrom_nil_iff lines).mp hsplit
    exact (foldl_addLine_ne_nil_iff _).mpr ⟨line, List.mem_append_left _ hl, hp⟩
  refine not_mem_lineEvents_of_split hsplit ?_
  rw [heq, flushed, if_neg hne]
  exact List.mem_singleton.mpr rfl

/-- Where there is a payload, something is handed over. -/
theorem lineEvents_ne_nil (lines : List (List Char)) : ∀ {data : List Char},
    lines.foldl addLine data ≠ [] → lineEvents lines data ≠ [] := by
  induction lines with
  | nil =>
      intro data h
      have hdata : data ≠ [] := h
      simp [lineEvents, flushed, hdata]
  | cons line rest ih =>
      intro data h
      rw [lineEvents]
      split
      · next hline =>
          have hadd : addLine data line = data := by rw [hline]; rfl
          rw [List.foldl_cons, hadd] at h
          by_cases hdata : data = []
          · subst hdata
            exact ih h
          · simp [flushed, hdata]
      · exact ih h

theorem length_flushed_le (lines : List (List Char)) :
    (flushed (lines.foldl addLine [])).length ≤ (lineEvents lines []).length := by
  unfold flushed
  split
  · exact Nat.zero_le _
  · next h => exact List.length_pos_iff.mpr (lineEvents_ne_nil lines h)

/-- Nothing is handed over before the end if no empty text comes after a payload. -/
theorem dispatched_eq_nil_iff (lines : List (List Char)) : ∀ data : List Char,
    dispatched lines data = [] ↔
      ¬ ∃ before after, lines = before ++ [] :: after ∧ before.foldl addLine data ≠ [] := by
  induction lines with
  | nil => intro data; simp [dispatched]
  | cons line rest ih =>
      intro data
      have hcons : (∃ before after, line :: rest = before ++ [] :: after ∧
            before.foldl addLine data ≠ []) ↔
          (line = [] ∧ data ≠ []) ∨ ∃ before after, rest = before ++ [] :: after ∧
            before.foldl addLine (addLine data line) ≠ [] := by
        constructor
        · intro h
          obtain ⟨before, after, heq, hne⟩ := h
          cases before with
          | nil => exact .inl ⟨(List.cons.inj heq).1, hne⟩
          | cons first before =>
              obtain ⟨rfl, hrest⟩ := List.cons.inj heq
              exact .inr ⟨before, after, hrest, hne⟩
        · intro h
          rcases h with ⟨rfl, hdata⟩ | ⟨before, after, rfl, hne⟩
          · exact ⟨[], rest, rfl, hdata⟩
          · exact ⟨line :: before, after, rfl, hne⟩
      rw [hcons, not_or, ← ih, dispatched, List.append_eq_nil_iff, sentAt, bufferAfter]
      by_cases hline : line = []
      · subst hline
        rw [show addLine data [] = data from rfl, if_pos rfl, if_pos rfl]
        by_cases hdata : data = []
        · subst hdata
          simp [flushed]
        · simp [flushed, hdata]
      · simp [hline]

theorem cutShort_iff {block : List (Option (List Char))} (h : some [] ∉ block) :
    dispatched (block.map taken) [] = [] ↔ ¬ CutShort block := by
  have hcut : (∃ before after, block.map taken = before ++ [] :: after ∧
        (∃ line ∈ before, HasPayload line) ∧ True) ↔
      ∃ before after, block = before ++ none :: after ∧
        (∃ line, some line ∈ before ∧ HasPayload line) ∧ True :=
    exists_cut_iff h (exists_mem_map_taken not_hasPayload_nil) fun _ => Iff.rfl
  simp only [and_true] at hcut
  rw [dispatched_eq_nil_iff, not_iff_not, CutShort, ← hcut]
  simp only [foldl_addLine_ne_nil_iff, HasPayload]

theorem lineEvents_block_iff {block : List (Option (List Char))} (h : some [] ∉ block) :
    lineEvents (block.map taken) [] = flushed (blockData block) ↔ ¬ Torn block := by
  rw [blockData_eq, lineEvents_eq_iff, torn_iff h]

/-! ### The whole stream -/

/-- No block has a malformed line between a payload and a later `data:` line; and where the
stream broke off, none stands after a payload. -/
def Untorn (chunks : List (Except String ByteArray)) : Prop :=
  (∀ block ∈ streamBlocks chunks, ¬ Torn block) ∧
    (failure chunks ≠ none → ¬ CutShort (Pieces.lastPiece (some []) (streamLines chunks)))

/--
**When malformed lines are skipped.**  For any chunks, whatever bytes are in them and however
the stream ends, the payloads that are handed over are those of the blocks between empty
lines, each of all its `data:` lines that can be decoded, if and only if no malformed line
stands where it tears an event.
-/
theorem payloads_eq_iff (chunks : List (Except String ByteArray)) :
    SseM.payloads (readChunks chunks {}) = wholeEvents chunks ↔ Untorn chunks := by
  have hle : ∀ block : List (Option (List Char)),
      (flushed (blockData block)).length ≤ (lineEvents (block.map taken) []).length := by
    intro block
    rw [blockData_eq]
    exact length_flushed_le _
  rw [payloads_readChunks]
  unfold wholeEvents Untorn
  by_cases hfailure : failure chunks = none
  · have hblocks : streamBlocks chunks = (streamLines chunks).splitOn (some []) := if_pos hfailure
    rw [if_pos hfailure, lineEvents_blocks, hblocks]
    have hiff := Pieces.flatMap_append_eq_iff hle ((streamLines chunks).splitOn (some [])) []
    rw [List.append_nil] at hiff
    rw [hiff]
    refine and_congr (forall₂_congr fun block hblock =>
      lineEvents_block_iff (Pieces.not_mem_of_mem_splitOn hblock)) ?_
    simp [hfailure]
  · have hblocks : streamBlocks chunks = Pieces.closedPieces (some []) (streamLines chunks) :=
      if_neg hfailure
    rw [if_neg hfailure, dispatched_blocks, hblocks, Pieces.flatMap_append_eq_iff hle]
    refine and_congr (forall₂_congr fun block hblock => lineEvents_block_iff ?_) ?_
    · exact Pieces.not_mem_of_mem_splitOn (Pieces.mem_splitOn_of_mem_closedPieces hblock)
    · rw [cutShort_iff (Pieces.not_mem_of_mem_splitOn (Pieces.lastPiece_mem _ _))]
      simp [hfailure]

/-- An event of two lines, with a byte between them that is not UTF-8. -/
def tornChunks : List (Except String ByteArray) :=
  [.ok ⟨#[100, 97, 116, 97, 58, 32, 49, 10, 255, 10, 100, 97, 116, 97, 58, 32, 50, 10, 10]⟩]

/-- It is handed over as two. -/
theorem event_torn_in_two :
    SseM.payloads (readChunks tornChunks {}) = ["1", "2"] ∧ wholeEvents tornChunks = ["1\n2"] ∧
      ¬ ∀ chunks, SseM.payloads (readChunks chunks {}) = wholeEvents chunks := by
  have hread : SseM.payloads (readChunks tornChunks {}) = ["1", "2"] := by decide
  have hwhole : wholeEvents tornChunks = ["1\n2"] := by decide
  refine ⟨hread, hwhole, fun hall => ?_⟩
  have heq := hall tornChunks
  rw [hread, hwhole] at heq
  exact absurd heq (by decide)

end McpFederation
