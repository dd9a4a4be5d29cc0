/-
Instinct/StreamChunks.lean

`CURLHttpClient::StreamChunk`: a response body that curl hands over in chunks is
passed on line by line.

The write callback appends a chunk to what is left of the chunks before it, and
passes on and removes one line after the other as long as it finds the line
breaker.  The state after some chunks is therefore that of their concatenation
(`writeChunks_eq`): all fields but the last were passed on and the last one is
kept, wherever the chunks were cut.
-/
import Instinct.Core
import Instinct.Splitting

namespace Instinct.StreamChunks

open Splitting

abbrev Bytes := List UInt8

/-! ### The model -/

/-- `std::isspace` of a byte, in the C locale. -/
def isSpaceByte (b : UInt8) : Bool := b = 0x20 || (0x09 ≤ b && b ≤ 0x0d)

/-- `StringUtils::IsNotBlankString`: something is left of the bytes once they are trimmed. -/
def isNotBlankBytes (s : Bytes) : Bool := !s.all isSpaceByte

/-- `std::string::find`: the first position at which the pattern starts. -/
def find (pattern : Bytes) : Bytes → Option Nat
  | [] => if pattern = [] then some 0 else none
  | b :: bs => if pattern.isPrefixOf (b :: bs) then some 0 else (find pattern bs).map (· + 1)

/-- The errors of a streamed response: `HttpClientException` and `InstinctException`. -/
inductive StreamError
  | httpClient (statusCode : Nat) (rawResponse : String)
  | instinct (message : String)
  deriving Repr, DecidableEq

/-- What an observer is told. -/
inductive Notification
  | onNext (value : Bytes)
  | onError (error : StreamError)
  | onCompleted
  deriving Repr, DecidableEq

/-- `StreamBuffer`.  The observer is given by what it has been told so far, and
`CURLHttpClient::StreamChunk` asserts that there is a line breaker. -/
structure StreamBuffer where
  ob : List Notification
  lineBreaker : Bytes
  data : Bytes
  lineBreaker_ne : lineBreaker ≠ []

/-- The `while` loop of the callback, for a number of rounds; `none` if it still runs then. -/
def emitLines : Nat → StreamBuffer → Option StreamBuffer
  | 0, _ => none
  | rounds + 1, buf =>
      match find buf.lineBreaker buf.data with
      | some idx =>
          emitLines rounds
            { buf with
              ob := buf.ob ++ [.onNext (buf.data.take idx)]
              data := buf.data.drop (idx + buf.lineBreaker.length) }
      | none => some buf

/-- `curl_write_callback_with_observer`.  Each round but the last one removes a byte at least. -/
def curlWriteCallbackWithObserver (originalChunk : Bytes) (buf : StreamBuffer) :
    Option StreamBuffer :=
  emitLines ((buf.data ++ originalChunk).length + 1)
    { buf with data := buf.data ++ originalChunk }

/-- `curl_easy_perform`: the callback is run with one chunk after the other. -/
def writeChunks : List Bytes → StreamBuffer → Option StreamBuffer
  | [], buf => some buf
  | chunk :: chunks, buf =>
      (curlWriteCallbackWithObserver chunk buf).bind (writeChunks chunks)

/-- How a transfer went: the code that `curl_easy_perform` returns, the status of the response
and the chunks of its body. -/
structure Transfer where
  ret : Nat
  statusCode : Nat
  chunks : List Bytes

/-- `observe_curl_request`: what the observer was told, and the code returned. -/
def observeCurlRequest (transfer : Transfer) (lineBreaker : Bytes) (hne : lineBreaker ≠ []) :
    Option (List Notification × Nat) := do
  let buf ← writeChunks transfer.chunks ⟨[], lineBreaker, [], hne⟩
  if transfer.ret = 0 then
    -- what is left in case the server does not end the last line
    let flushed := if isNotBlankBytes buf.data then buf.ob ++ [.onNext buf.data] else buf.ob
    let last :=
      if transfer.statusCode ≥ 400 then
        .onError (.httpClient transfer.statusCode "Failed to get chunked response")
      else .onCompleted
    return (flushed ++ [last], transfer.ret)
  else
    return (buf.ob, transfer.ret)

/-- `CURLHttpClient::StreamChunk`, for a line breaker that passes its assertion. -/
def streamChunk (curlEasyStrerror : Nat → String) (transfer : Transfer) (lineBreaker : Bytes)
    (hne : lineBreaker ≠ []) : Option (List Notification) := do
  let (told, code) ← observeCurlRequest transfer lineBreaker hne
  if code ≠ 0 then
    let reason := "curl request failed with reason: " ++ curlEasyStrerror code
    return told ++ [.onError (.instinct reason)]
  else
    return told

/-! ### The loop of the callback -/

theorem cut_eq_find {pattern : Bytes} (hne : pattern ≠ []) (text : Bytes) :
    cut pattern text
      = (find pattern text).map fun idx =>
          (text.take idx, text.drop (idx + pattern.length)) := by
  induction text with
  | nil => rw [cut, find, if_neg hne, Option.map_none]
  | cons b bs ih =>
      rw [cut, find]
      split
      · rw [Option.map_some, List.take_zero, Nat.zero_add]
      · rw [ih, Option.map_map, Option.map_map]
        apply congrArg (Option.map · (find pattern bs))
        funext idx
        simp only [Function.comp_apply, List.take_succ_cons, Nat.succ_add, List.drop_succ_cons]

/-- The buffer once all lines of its data were passed on. -/
def StreamBuffer.drained (buf : StreamBuffer) : StreamBuffer :=
  { buf with
    ob := buf.ob ++ (fields buf.lineBreaker buf.data).dropLast.map .onNext
    data := (fields buf.lineBreaker buf.data).getLastD [] }

/-- The loop ends, and passes on every field but the last. -/
theorem emitLines_eq {rounds : Nat} {buf : StreamBuffer} (hrounds : buf.data.length < rounds) :
    emitLines rounds buf = some buf.drained := by
  induction rounds generalizing buf with
  | zero => exact absurd hrounds (Nat.not_lt_zero _)
  | succ rounds ih =>
      have hcut := cut_eq_find buf.lineBreaker_ne buf.data
      rw [emitLines]
      cases hfind : find buf.lineBreaker buf.data with
      | none =>
          rw [hfind, Option.map_none] at hcut
          simp only [StreamBuffer.drained, fields_of_none hcut]
          simp
      | some idx =>
          rw [hfind, Option.map_some] at hcut
          have hshorter := length_after_lt buf.lineBreaker_ne hcut
          simp only
          rw [ih (by simp only; omega)]
          obtain ⟨field, rest, hrest⟩ :=
            List.exists_cons_of_ne_nil (fields_ne_nil buf.lineBreaker
              (buf.data.drop (idx + buf.lineBreaker.length)))
          simp only [StreamBuffer.drained, fields_of_some buf.lineBreaker_ne hcut, hrest]
          simp

/-! ### All chunks -/

/-- The buffer after some more bytes. -/
def StreamBuffer.fed (buf : StreamBuffer) (bytes : Bytes) : StreamBuffer :=
  { buf with data := buf.data ++ bytes }.drained

theorem curlWriteCallbackWithObserver_eq (originalChunk : Bytes) (buf : StreamBuffer) :
    curlWriteCallbackWithObserver originalChunk buf = some (buf.fed originalChunk) :=
  emitLines_eq (Nat.lt_succ_self _)

theorem fed_nil {buf : StreamBuffer} (h : cut buf.lineBreaker buf.data = none) :
    buf.fed [] = buf := by
  simp [StreamBuffer.fed, StreamBuffer.drained, fields_of_none h]

/-- A chunk is passed on in the same way whether the bytes behind it are there yet or not. -/
theorem fed_append (buf : StreamBuffer) (chunk more : Bytes) :
    buf.fed (chunk ++ more) = (buf.fed chunk).fed more := by
  have hfields := fields_append buf.lineBreaker_ne (buf.data ++ chunk) more
  have hne := fields_ne_nil buf.lineBreaker
    ((fields buf.lineBreaker (buf.data ++ chunk)).getLastD [] ++ more)
  simp only [StreamBuffer.fed, StreamBuffer.drained]
  rw [← List.append_assoc, hfields, List.dropLast_append_of_ne_nil hne, List.map_append,
    ← List.append_assoc, getLastD_append hne]

/-- **However the body was cut, the buffer is that of the whole body.** -/
theorem writeChunks_eq {buf : StreamBuffer} (h : cut buf.lineBreaker buf.data = none)
    (chunks : List Bytes) : writeChunks chunks buf = some (buf.fed chunks.flatten) := by
  induction chunks generalizing buf with
  | nil => rw [writeChunks, List.flatten_nil, fed_nil h]
  | cons chunk chunks ih =>
      have hrest : cut buf.lineBreaker (buf.fed chunk).data = none :=
        cut_getLastD_fields buf.lineBreaker_ne _
      rw [writeChunks, curlWriteCallbackWithObserver_eq, Option.bind_some, ih hrest,
        List.flatten_cons, fed_append]

/-! ### What the observer is told -/

/-- The pieces of a body between its line breakers, where a blank one at the end is left out. -/
def pieces (lineBreaker body : Bytes) : List Bytes :=
  let last := (fields lineBreaker body).getLastD []
  (fields lineBreaker body).dropLast ++ if isNotBlankBytes last then [last] else []

/-- How the observer of a transfer that went through is let go. -/
def closing (statusCode : Nat) : Notification :=
  if statusCode ≥ 400 then .onError (.httpClient statusCode "Failed to get chunked response")
  else .onCompleted

/-- A transfer that fails passes on the pieces that a line breaker ends, and no more. -/
theorem observeCurlRequest_eq (transfer : Transfer) (lineBreaker : Bytes)
    (hne : lineBreaker ≠ []) :
    observeCurlRequest transfer lineBreaker hne
      = some (if transfer.ret = 0 then
            (pieces lineBreaker transfer.chunks.flatten).map .onNext
              ++ [closing transfer.statusCode]
          else (fields lineBreaker transfer.chunks.flatten).dropLast.map .onNext,
        transfer.ret) := by
  have hempty : cut lineBreaker [] = none := rfl
  have hrun : writeChunks transfer.chunks ⟨[], lineBreaker, [], hne⟩
      = some (StreamBuffer.fed ⟨[], lineBreaker, [], hne⟩ transfer.chunks.flatten) :=
    writeChunks_eq hempty transfer.chunks
  rw [observeCurlRequest, hrun]
  simp only [Option.bind_eq_bind, Option.bind_some, StreamBuffer.fed, StreamBuffer.drained,
    List.nil_append]
  by_cases hret : transfer.ret = 0
  · rw [if_pos hret, if_pos hret, pieces, ← closing, List.map_append]
    split
    · rfl
    · rw [List.map_nil, List.append_nil]
      rfl
  · rw [if_neg hret, if_neg hret]
    rfl

/-- **A streamed body is passed on in its pieces**, whatever the chunks it arrived in. -/
theorem observeCurlRequest_pieces (statusCode : Nat) (lineBreaker : Bytes)
    (hne : lineBreaker ≠ []) (chunks : List Bytes) :
    observeCurlRequest ⟨0, statusCode, chunks⟩ lineBreaker hne
        = some ((pieces lineBreaker chunks.flatten).map .onNext ++ [closing statusCode], 0)
      ∧ ∀ chunks' : List Bytes, chunks'.flatten = chunks.flatten →
          observeCurlRequest ⟨0, statusCode, chunks'⟩ lineBreaker hne
            = observeCurlRequest ⟨0, statusCode, chunks⟩ lineBreaker hne := by
  constructor
  · rw [observeCurlRequest_eq]
    rfl
  · intro chunks' hsame
    rw [observeCurlRequest_eq, observeCurlRequest_eq, hsame]

/-- A line breaker that is cut in two, an empty chunk, and a blank rest. -/
theorem observeCurlRequest_pieces_crlf :
    observeCurlRequest ⟨0, 200, [[97, 13], [10, 98], [], [13, 10, 32]]⟩ [13, 10] (by decide)
      = some ([.onNext [97], .onNext [98], .onCompleted], 0) :=
  (observeCurlRequest_pieces 200 [13, 10] (by decide) [[97, 13], [10, 98], [], [13, 10, 32]]).1

/-- What a subscriber of `StreamChunk` sees. -/
theorem streamChunk_eq (curlEasyStrerror : Nat → String) (transfer : Transfer)
    (lineBreaker : Bytes) (hne : lineBreaker ≠ []) :
    streamChunk curlEasyStrerror transfer lineBreaker hne
      = some (if transfer.ret = 0 then
            (pieces lineBreaker transfer.chunks.flatten).map .onNext
              ++ [closing transfer.statusCode]
          else
            (fields lineBreaker transfer.chunks.flatten).dropLast.map .onNext
              ++ [.onError (.instinct
                ("curl request failed with reason: " ++ curlEasyStrerror transfer.ret))]) := by
  rw [streamChunk, observeCurlRequest_eq]
  by_cases hret : transfer.ret = 0
  · simp [hret]
  · simp [hret]

end Instinct.StreamChunks
