import Mathlib.Data.List.Basic

/-!
# Request frames

The server reads one request a line. `read_request_frame` looks at whatever its reader has in the
buffer, copies up to the next newline, and goes on until it finds one; a line that would grow over
the limit is dropped, and the rest of it is discarded as it comes.

How the stream is cut into buffers is not the client's choice, nor the server's: here the reader
delivers each time a non-empty piece of what is left, of any size. The frames do not depend on it.
`readFrameFrom_newline` and `readFrameFrom_end` say what the loop comes to, `readFrames_eq` the run.

## Main definitions

* `Reader` — a stream and the sizes in which it is delivered
* `readRequestFrame`, `readFrames`
* `lines`, `classify` — what a stream is read as

## Main results

* `request_framing`
-/

namespace Patchouli

/-! ### The reader -/

/-- An `AsyncBufRead` over a stream: the call `i` of `fill_buf` from now on delivers up to `sizes i`
bytes of it. -/
structure Reader where
  rest : List UInt8
  sizes : ℕ → ℕ
  sizes_pos : ∀ i, 0 < sizes i

namespace Reader

/-- `fill_buf`. -/
def fillBuf (reader : Reader) : List UInt8 := reader.rest.take (reader.sizes 0)

/-- `consume`. -/
def consume (reader : Reader) (amount : ℕ) : Reader where
  rest := reader.rest.drop amount
  sizes i := reader.sizes (i + 1)
  sizes_pos i := reader.sizes_pos (i + 1)

@[simp] theorem rest_consume (reader : Reader) (amount : ℕ) :
    (reader.consume amount).rest = reader.rest.drop amount := rfl

theorem fillBuf_eq_nil_iff {reader : Reader} : reader.fillBuf = [] ↔ reader.rest = [] := by
  have hpos : reader.sizes 0 ≠ 0 := Nat.pos_iff_ne_zero.mp (reader.sizes_pos 0)
  simp [fillBuf, List.take_eq_nil_iff, hpos]

/-- Taking in a whole buffer leaves less. -/
theorem length_consume_lt {reader : Reader} (h : reader.fillBuf ≠ []) :
    (reader.consume reader.fillBuf.length).rest.length < reader.rest.length := by
  have hbuffer := List.length_pos_iff.mpr h
  have hle : reader.fillBuf.length ≤ reader.rest.length := by
    rw [fillBuf, List.length_take]
    exact Nat.min_le_right _ _
  rw [rest_consume, List.length_drop]
  omega

end Reader

/-! ### Frames -/

/-- `RequestFrame`. -/
inductive RequestFrame where
  | line (text : String)
  | invalidUtf8
  | tooLarge
  deriving DecidableEq

/-- `MAX_REQUEST_BYTES`. -/
def maxRequestBytes : ℕ := 1024 * 1024

/-- `b'\n'`. -/
def newlineByte : UInt8 := 10

/-- `frame_from_bytes`. -/
def frameFromBytes (frame : List UInt8) : RequestFrame :=
  match String.fromUTF8? ⟨frame.toArray⟩ with
  | some text => .line text
  | none => .invalidUtf8

/-- The frame a read ends with. -/
def finishFrame (frame : List UInt8) (tooLarge : Bool) : RequestFrame :=
  if tooLarge then .tooLarge else frameFromBytes frame

section Loop

variable (limit : ℕ)

/-- What a turn of the loop makes of the frame, given the bytes before the newline or all that are
buffered. -/
def takeChunk (frame : List UInt8) (tooLarge : Bool) (chunk : List UInt8) : List UInt8 × Bool :=
  if !tooLarge && frame.length + chunk.length ≤ limit then (frame ++ chunk, tooLarge)
  else ([], true)

/-- The loop of `read_request_frame`. -/
def readFrameFrom (frame : List UInt8) (tooLarge : Bool) (reader : Reader) :
    Option RequestFrame × Reader :=
  let buffer := reader.fillBuf
  if _h : buffer = [] then
    (if frame = [] ∧ tooLarge = false then none else some (finishFrame frame tooLarge), reader)
  else
    match buffer.idxOf? newlineByte with
    | some chunkLen =>
      let (frame, tooLarge) := takeChunk limit frame tooLarge (buffer.take chunkLen)
      (some (finishFrame frame tooLarge), reader.consume (chunkLen + 1))
    | none =>
      let (frame, tooLarge) := takeChunk limit frame tooLarge buffer
      readFrameFrom frame tooLarge (reader.consume buffer.length)
termination_by reader.rest.length
decreasing_by exact Reader.length_consume_lt (by assumption)

/-- `read_request_frame`. -/
def readRequestFrame (reader : Reader) : Option RequestFrame × Reader :=
  readFrameFrom limit [] false reader

/-- What `read_request_frame` answers until it has nothing more, where `fuel` calls are enough. -/
def readFrames : (fuel : ℕ) → Reader → Option (List RequestFrame)
  | 0, _ => none
  | fuel + 1, reader =>
    match readRequestFrame limit reader with
    | (none, _) => some []
    | (some frame, reader) => (readFrames fuel reader).map (frame :: ·)

/-! ### One frame -/

/-- What a line comes to. -/
def classify (line : List UInt8) : RequestFrame :=
  if limit < line.length then .tooLarge else frameFromBytes line

/-- A frame that is still whole is within the limit, one that is not is empty. -/
def Whole (frame : List UInt8) (tooLarge : Bool) : Prop :=
  frame.length ≤ limit ∧ (tooLarge = true → frame = [])

/-- What a frame and the rest of its line come to. -/
def outcome (frame : List UInt8) (tooLarge : Bool) (rest : List UInt8) : RequestFrame :=
  if tooLarge then .tooLarge else classify limit (frame ++ rest)

variable {limit} {frame : List UInt8} {tooLarge : Bool}

theorem takeChunk_whole (chunk : List UInt8) :
    Whole limit (takeChunk limit frame tooLarge chunk).1
      (takeChunk limit frame tooLarge chunk).2 := by
  unfold takeChunk
  split
  · rename_i hfits
    rw [Bool.and_eq_true, Bool.not_eq_true', decide_eq_true_eq] at hfits
    refine ⟨by rw [List.length_append]; exact hfits.2, fun hlarge => ?_⟩
    rw [hfits.1] at hlarge
    cases hlarge
  · exact ⟨Nat.zero_le _, fun _ => rfl⟩

/-- With a chunk, a frame is begun. -/
theorem takeChunk_ne_start {chunk : List UInt8} (h : chunk ≠ []) :
    ¬ ((takeChunk limit frame tooLarge chunk).1 = [] ∧
      (takeChunk limit frame tooLarge chunk).2 = false) := by
  unfold takeChunk
  split
  · rintro ⟨hnil, -⟩
    exact h (List.append_eq_nil_iff.mp hnil).2
  · rintro ⟨-, hfalse⟩
    cases hfalse

/-- A chunk at a time comes to the same. -/
theorem outcome_takeChunk (chunk rest : List UInt8) :
    outcome limit (takeChunk limit frame tooLarge chunk).1 (takeChunk limit frame tooLarge chunk).2
      rest = outcome limit frame tooLarge (chunk ++ rest) := by
  unfold takeChunk
  cases tooLarge with
  | true => rfl
  | false =>
    by_cases hfits : frame.length + chunk.length ≤ limit
    · simp [hfits, outcome]
    · have hlong : limit < (frame ++ (chunk ++ rest)).length := by
        simp only [List.length_append]
        omega
      have hclassify : classify limit (frame ++ (chunk ++ rest)) = .tooLarge := if_pos hlong
      simp [hfits, outcome, hclassify]

/-- The end of the line: nothing is left to come. -/
theorem finishFrame_eq (h : Whole limit frame tooLarge) :
    finishFrame frame tooLarge = outcome limit frame tooLarge [] := by
  cases tooLarge with
  | true => rfl
  | false => simp [finishFrame, outcome, classify, Nat.not_lt.mpr h.1]

theorem idxOf?_newline {line rest : List UInt8} (h : newlineByte ∉ line) :
    (line ++ newlineByte :: rest).idxOf? newlineByte = some line.length := by
  rw [List.idxOf?_eq_some_iff]
  refine ⟨by simp, by simp, fun j hj => ?_⟩
  rw [List.getElem_append_left hj]
  exact fun heq => h (heq ▸ List.getElem_mem hj)

/-! ### The turns of the loop -/

theorem readFrameFrom_of_end {reader : Reader} (h : reader.rest = []) :
    readFrameFrom limit frame tooLarge reader =
      (if frame = [] ∧ tooLarge = false then none else some (finishFrame frame tooLarge),
        reader) := by
  rw [readFrameFrom, dif_pos (Reader.fillBuf_eq_nil_iff.mpr h)]

theorem readFrameFrom_of_newline {reader : Reader} {chunkLen : ℕ}
    (h : reader.fillBuf.idxOf? newlineByte = some chunkLen) :
    readFrameFrom limit frame tooLarge reader =
      (some (finishFrame (takeChunk limit frame tooLarge (reader.fillBuf.take chunkLen)).1
        (takeChunk limit frame tooLarge (reader.fillBuf.take chunkLen)).2),
        reader.consume (chunkLen + 1)) := by
  have hbuffer : reader.fillBuf ≠ [] := by
    intro hnil
    rw [hnil] at h
    cases h
  rw [readFrameFrom, dif_neg hbuffer]
  simp only [h]

theorem readFrameFrom_of_none {reader : Reader} (hrest : reader.rest ≠ [])
    (h : newlineByte ∉ reader.fillBuf) :
    readFrameFrom limit frame tooLarge reader =
      readFrameFrom limit (takeChunk limit frame tooLarge reader.fillBuf).1
        (takeChunk limit frame tooLarge reader.fillBuf).2
        (reader.consume reader.fillBuf.length) := by
  rw [readFrameFrom, dif_neg (mt Reader.fillBuf_eq_nil_iff.mp hrest)]
  simp only [List.idxOf?_eq_none_iff.mpr h]

/-- **A line ends at its newline**, however it is delivered, and the next one starts after it. -/
theorem readFrameFrom_newline {reader : Reader} {line after : List UInt8}
    (hrest : reader.rest = line ++ newlineByte :: after) (hline : newlineByte ∉ line) :
    (readFrameFrom limit frame tooLarge reader).1 = some (outcome limit frame tooLarge line) ∧
      (readFrameFrom limit frame tooLarge reader).2.rest = after := by
  induction hn : line.length using Nat.strongRecOn generalizing frame tooLarge reader line with
  | ind n ih =>
    by_cases hlong : reader.sizes 0 ≤ line.length
    · -- The buffer ends before the newline does: the loop goes on with the rest of the line.
      have hbuffer : reader.fillBuf = line.take (reader.sizes 0) := by
        rw [Reader.fillBuf, hrest, List.take_append_of_le_length hlong]
      have hnone : newlineByte ∉ reader.fillBuf := by
        rw [hbuffer]
        exact fun hmem => hline (List.mem_of_mem_take hmem)
      have hnext : (reader.consume reader.fillBuf.length).rest =
          line.drop (reader.sizes 0) ++ newlineByte :: after := by
        rw [Reader.rest_consume, hrest, hbuffer, List.length_take, Nat.min_eq_left hlong,
          List.drop_append_of_le_length hlong]
      have hshorter : (line.drop (reader.sizes 0)).length < n := by
        have := reader.sizes_pos 0
        rw [List.length_drop]
        omega
      have hline' : newlineByte ∉ line.drop (reader.sizes 0) :=
        fun hmem => hline (List.mem_of_mem_drop hmem)
      obtain ⟨hframe, hafter⟩ := @ih _ hshorter (takeChunk limit frame tooLarge reader.fillBuf).1
        (takeChunk limit frame tooLarge reader.fillBuf).2 _ _ hnext hline' rfl
      rw [readFrameFrom_of_none (by simp [hrest]) hnone]
      refine ⟨?_, hafter⟩
      rw [hframe, outcome_takeChunk, hbuffer, List.take_append_drop]
    · have hbuffer : reader.fillBuf =
          line ++ newlineByte :: after.take (reader.sizes 0 - line.length - 1) := by
        rw [Reader.fillBuf, hrest, List.take_append, List.take_of_length_le (by omega)]
        cases hk : reader.sizes 0 - line.length with
        | zero => omega
        | succ k => simp
      have hidx : reader.fillBuf.idxOf? newlineByte = some line.length := by
        rw [hbuffer, idxOf?_newline hline]
      rw [readFrameFrom_of_newline hidx, hbuffer, List.take_left, Reader.rest_consume, hrest,
        finishFrame_eq (takeChunk_whole line), outcome_takeChunk, List.append_nil]
      exact ⟨rfl, by simp⟩

/-- **The last line ends with the stream**, if there is anything in it. -/
theorem readFrameFrom_end {reader : Reader} (h : Whole limit frame tooLarge)
    (hrest : newlineByte ∉ reader.rest) :
    (readFrameFrom limit frame tooLarge reader).1 =
        (if frame ++ reader.rest = [] ∧ tooLarge = false then none
          else some (outcome limit frame tooLarge reader.rest)) ∧
      (readFrameFrom limit frame tooLarge reader).2.rest = [] := by
  induction hn : reader.rest.length using Nat.strongRecOn generalizing frame tooLarge reader with
  | ind n ih =>
    by_cases hnil : reader.rest = []
    · rw [readFrameFrom_of_end hnil]
      refine ⟨?_, hnil⟩
      rw [hnil, List.append_nil, finishFrame_eq h]
    · have hnone : newlineByte ∉ reader.fillBuf := fun hmem => hrest (List.mem_of_mem_take hmem)
      have hsplit : reader.fillBuf ++ (reader.consume reader.fillBuf.length).rest =
          reader.rest := by
        rw [Reader.rest_consume, Reader.fillBuf, List.length_take]
        rcases Nat.le_total (reader.sizes 0) reader.rest.length with hle | hle
        · rw [Nat.min_eq_left hle, List.take_append_drop]
        · rw [Nat.min_eq_right hle, List.take_of_length_le hle, List.drop_length, List.append_nil]
      have hrest' : newlineByte ∉ (reader.consume reader.fillBuf.length).rest :=
        fun hmem => hrest (hsplit ▸ List.mem_append_right _ hmem)
      have hbuffer : reader.fillBuf ≠ [] := mt Reader.fillBuf_eq_nil_iff.mp hnil
      have hshorter := Reader.length_consume_lt hbuffer
      obtain ⟨hframe, hafter⟩ := @ih _ (hn ▸ hshorter)
        (takeChunk limit frame tooLarge reader.fillBuf).1
        (takeChunk limit frame tooLarge reader.fillBuf).2 _ (takeChunk_whole _) hrest' rfl
      rw [readFrameFrom_of_none hnil hnone]
      refine ⟨?_, hafter⟩
      rw [hframe, outcome_takeChunk, hsplit,
        if_neg fun hall => takeChunk_ne_start hbuffer ⟨(List.append_eq_nil_iff.mp hall.1).1, hall.2⟩,
        if_neg fun hall => hnil (List.append_eq_nil_iff.mp hall.1).2]

/-! ### The stream -/

/-- The lines of a stream: what newlines separate, without an empty last one. -/
def lines (stream : List UInt8) : List (List UInt8) :=
  let pieces := stream.splitOn newlineByte
  if pieces.getLast? = some [] then pieces.dropLast else pieces

theorem lines_newline {line after : List UInt8} (h : newlineByte ∉ line) :
    lines (line ++ newlineByte :: after) = line :: lines after := by
  have hsplit := List.splitOn_append_cons_self_of_not_mem h after
  cases hafter : after.splitOn newlineByte with
  | nil => exact absurd hafter (List.splitOn_ne_nil _ _)
  | cons piece pieces =>
    rw [hafter] at hsplit
    simp only [lines, hsplit, hafter, List.getLast?_cons_cons, List.dropLast_cons_cons]
    split <;> rfl

theorem lines_end {stream : List UInt8} (h : newlineByte ∉ stream) :
    lines stream = if stream = [] then [] else [stream] := by
  rw [lines, List.splitOn_eq_singleton h]
  by_cases hnil : stream = [] <;> simp [hnil]

/-- Read to the end, the frames are those of the lines. -/
theorem readFrames_eq (reader : Reader) (fuel : ℕ) (h : reader.rest.length < fuel) :
    readFrames limit fuel reader = some ((lines reader.rest).map (classify limit)) := by
  have hwhole : Whole limit [] false := ⟨Nat.zero_le _, fun h => by cases h⟩
  induction fuel generalizing reader with
  | zero => omega
  | succ fuel ih =>
    rw [readFrames, readRequestFrame]
    obtain ⟨result, after, hread⟩ : ∃ result after, readFrameFrom limit [] false reader =
      (result, after) := ⟨_, _, rfl⟩
    by_cases hmem : newlineByte ∈ reader.rest
    · obtain ⟨line, rest, hrest, hline⟩ := List.eq_append_cons_of_mem hmem
      obtain ⟨hframe, hafter⟩ := readFrameFrom_newline hrest hline
      rw [hread] at hframe hafter
      have hfuel : after.rest.length < fuel := by
        rw [hrest, List.length_append, List.length_cons] at h
        rw [show after.rest = rest from hafter]
        omega
      simp only [hread, show result = _ from hframe, ih after hfuel, show after.rest = rest from hafter,
        Option.map_some, hrest, lines_newline hline, List.map_cons]
      rfl
    · obtain ⟨hframe, hafter⟩ := readFrameFrom_end hwhole hmem
      rw [hread] at hframe hafter
      have hlast : lines [] = [] := rfl
      by_cases hnil : reader.rest = []
      · rw [hnil, List.append_nil, if_pos ⟨rfl, rfl⟩] at hframe
        simp only [hread, show result = none from hframe, hnil, hlast, List.map_nil]
      · have hfuel : after.rest.length < fuel := by
          have := List.length_pos_iff.mpr hnil
          rw [show after.rest = [] from hafter]
          exact Nat.lt_of_lt_of_le this (Nat.lt_succ_iff.mp h)
        rw [List.nil_append, if_neg fun hall => hnil hall.1] at hframe
        simp only [hread, show result = _ from hframe, ih after hfuel, show after.rest = [] from hafter,
          Option.map_some, hlast, lines_end hmem, hnil, if_false, List.map_cons, List.map_nil]
        rfl

end Loop

/-- **Framing resynchronizes.** However a stream is delivered, reading requests to its end gives
one frame for each line, too large or not; and after each newline the next frame starts. -/
theorem request_framing (reader : Reader) (extra : ℕ) :
    readFrames maxRequestBytes (reader.rest.length + 1 + extra) reader =
        some ((lines reader.rest).map (classify maxRequestBytes)) ∧
      ∀ line after, reader.rest = line ++ newlineByte :: after → newlineByte ∉ line →
        (readRequestFrame maxRequestBytes reader).1 = some (classify maxRequestBytes line) ∧
          (readRequestFrame maxRequestBytes reader).2.rest = after :=
  ⟨readFrames_eq reader _ (by omega), fun _ _ hrest hline => readFrameFrom_newline hrest hline⟩

/-- A line of two bytes in one buffer, the rest in another. -/
example : readFrames 2 3 ⟨[97, 98, 10, 99], fun _ => 3, fun _ => by decide⟩ =
    some [.line "ab", .line "c"] := by
  decide +kernel

end Patchouli
